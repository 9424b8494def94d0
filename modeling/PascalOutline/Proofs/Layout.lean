import PascalOutline.Proofs.Recognizer.Alike
import PascalOutline.Scan

/-! # Layout independence

  The outline of a source is a function of its code. Comments, compiler
  directives, blanks and line ends reach the documentation and the locations
  of entries, and nothing else: not their number, their order, their links,
  their names or any text copied from the source.
-/

namespace PascalOutline

/-- Two sources that are the same code, read under any options, have the same
    outline up to documentation and locations: their tokens have the same kinds
    and texts, and trivia stands between the same neighbours, but what the
    trivia is may differ. -/
theorem bareEntries_scan_eq_of_sameCode (options options' : Options) (file source source' : String)
    (h : Token.SameCode (Token.ofLexemes (Lexer.lex options.nestedComments source))
      (Token.ofLexemes (Lexer.lex options'.nestedComments source'))) :
    (scan options file source).outline.bareEntries
      = (scan options' file source').outline.bareEntries := by
  have hinitial : (State.initial options file (Lexer.lex options.nestedComments source)).Alike
      (State.initial options' file (Lexer.lex options'.nestedComments source')) :=
    State.alike_initial h file
  have hfinished := (hinitial.makeRoot file).run.finish
  exact Builder.finish_congr hfinished.outline _ _

/-- A comment that nests under one option and a line comment that documents
    under both leave different traces in documentation and locations only. -/
theorem bareEntries_scan_eq_of_comments :
    let source := "var x: T;"
    let source' := "var\x7ba\x7bb\x7dc\x7dx:\nT; // more"
    Token.SameCode (Token.ofLexemes (Lexer.lex false source))
        (Token.ofLexemes (Lexer.lex true source')) ∧
      (scan {} "u.pas" source).outline.entries
        ≠ (scan { nestedComments := true } "u.pas" source').outline.entries ∧
      (scan {} "u.pas" source).outline.bareEntries
        = (scan { nestedComments := true } "u.pas" source').outline.bareEntries := by
  intro source source'
  have hcode : Token.SameCode (Token.ofLexemes (Lexer.lex false source))
      (Token.ofLexemes (Lexer.lex true source')) := by decide +kernel
  refine ⟨hcode, by decide +kernel, ?_⟩
  exact bareEntries_scan_eq_of_sameCode {} { nestedComments := true } "u.pas" source source' hcode

end PascalOutline
