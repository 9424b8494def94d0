import PascalOutline.Recognizer.Run

/-! # Scanning a source

  The outline of a source and the problems found in it. Every text is a
  source; a malformed one has a poorer outline.
-/

namespace PascalOutline

/-- What is known about a source after it was read. -/
structure Report where
  /-- Its declarations. -/
  outline : Outline
  /-- Its problems, in source order. -/
  diagnostics : List Diagnostic
deriving DecidableEq, Repr

namespace Report

/-- The report on a source whose lexemes went through the recognizer. -/
def ofState (lexemes : List Lexeme) (s : State) : Report :=
  { outline := s.outline
    diagnostics :=
      (Diagnostic.ofLexemes lexemes ++ s.diagnostics.toList).mergeSort Diagnostic.atOrBefore }

end Report

/-- Scans a source. The file name stands in every entry, and names the root
    of a source without a module header. -/
def scan (options : Options) (file source : String) : Report :=
  let lexemes := Lexer.lex options.nestedComments source
  Report.ofState lexemes (State.ofSource options file lexemes)

/-- The events of a scan, in the order in which they happen. -/
def scanEvents (options : Options) (file source : String) : List Event :=
  let lexemes := Lexer.lex options.nestedComments source
  let s := State.ofSource options file lexemes
  let report := Report.ofState lexemes s
  Event.ofLexemes lexemes ++ s.draft.events.toList
    ++ [.sourceScanned file lexemes.length report.outline.size report.diagnostics.length]

end PascalOutline
