import Mathlib.Data.List.Infix
import PascalOutline.Proofs.DocOptions
import PascalOutline.Proofs.Lexeme.Extent

/-! # Where no comment nests

  Whether comments nest matters only for sources in which they do. If the text
  of no block comment, from the end of its opener to the end of its closer, has
  an opener of its style in it, then it makes no difference to the lexemes, to
  the problems or to the outline whether nesting is switched on.

  The closer belongs to that text: in `(*(*)` the second opener shares its star
  with the closer. It is enough to look at the comments as they are read without
  nesting.
-/

namespace PascalOutline

/-! ### One comment -/

/-- The text after the opener of a block comment has no opener of its style. -/
def Comment.IsFlat (k : Comment) : Prop :=
  match k.style with
  | .block style => ¬ style.opener <:+: k.body ++ k.closing
  | .line => True

instance : DecidablePred Comment.IsFlat
  | ⟨.block style, body, closed⟩ =>
    inferInstanceAs (Decidable
      (¬ style.opener <:+: body ++ (Comment.mk (.block style) body closed).closing))
  | ⟨.line, _, _⟩ => .isTrue trivial

/-- A lexeme is no block comment or directive with an opener of its style in it. -/
def Lexeme.IsFlat (l : Lexeme) : Prop :=
  ∀ k ∈ l.comment?, k.IsFlat

instance : DecidablePred Lexeme.IsFlat :=
  fun l => inferInstanceAs (Decidable (∀ k ∈ l.comment?, k.IsFlat))

namespace BlockStyle

variable {style : BlockStyle} {cs : List Char}

/-- A closer that is found without nesting, with no opener before it or across
    it, is found with nesting too. -/
theorem closerFrom_true_of_some {n : Nat} (h : style.closerFrom false 0 0 0 cs = some n)
    (hflat : ¬ style.opener <:+: cs.take n ++ style.closer) :
    style.closerFrom true 0 0 0 cs = some n := by
  induction cs generalizing n with
  | nil => cases h
  | cons c cs ih =>
    by_cases hcloser : style.closer <+: c :: cs
    · obtain ⟨rest, hrest⟩ := hcloser
      rw [← hrest, closerFrom_zero_closer_append] at h ⊢
      exact h
    · -- An opener at the first character lies within what is read of the text.
      have hopener : ¬ style.opener <+: c :: cs := by
        intro hp
        refine hflat (List.prefix_of_prefix_length_le hp
          (style.take_append_closer_prefix h) ?_).isInfix
        rw [List.length_append, style.length_closer]
        omega
      rw [closerFrom_cons style hcloser (absurd · Bool.false_ne_true)] at h
      rw [closerFrom_cons style hcloser fun _ => hopener]
      obtain ⟨m, hm, rfl⟩ := Option.map_eq_some_iff.mp h
      rw [ih hm, Option.map_some]
      intro hopens
      exact hflat (hopens.trans (List.suffix_cons c _).isInfix)

theorem closerFrom_true_of_none (h : style.closerFrom false 0 0 0 cs = none)
    (hflat : ¬ style.opener <:+: cs) : style.closerFrom true 0 0 0 cs = none := by
  induction cs with
  | nil => rfl
  | cons c cs ih =>
    by_cases hcloser : style.closer <+: c :: cs
    · obtain ⟨rest, hrest⟩ := hcloser
      rw [← hrest, closerFrom_zero_closer_append] at h
      cases h
    · have hopener : ¬ style.opener <+: c :: cs := fun hp => hflat hp.isInfix
      rw [closerFrom_cons style hcloser (absurd · Bool.false_ne_true), Option.map_eq_none_iff] at h
      rw [closerFrom_cons style hcloser fun _ => hopener, Option.map_eq_none_iff]
      exact ih h fun hopens => hflat (hopens.trans (List.suffix_cons c cs).isInfix)

end BlockStyle

namespace Lexer

theorem blockComment_true_of_isFlat {style : BlockStyle} {cs : List Char}
    (h : (blockComment style false cs).IsFlat) :
    blockComment style true cs = blockComment style false cs := by
  have hclosers : style.closerAt true cs = style.closerAt false cs := by
    cases hcloser : style.closerAt false cs with
    | none =>
      rw [blockComment, hcloser] at h
      have hflat : ¬ style.opener <:+: cs ++ [] := h
      rw [List.append_nil] at hflat
      exact BlockStyle.closerFrom_true_of_none hcloser hflat
    | some n =>
      rw [blockComment, hcloser] at h
      have hflat : ¬ style.opener <:+: cs.take n ++ style.closer := h
      exact BlockStyle.closerFrom_true_of_some hcloser hflat
  rw [blockComment, blockComment, hclosers]

/-! ### All lexemes -/

/-- Where no block comment begins, nesting makes no difference. -/
theorem cut_of_not_opener {c : Char} {cs : List Char}
    (h : ¬ ∃ (style : BlockStyle) (inner : List Char), c :: cs = style.opener ++ inner) :
    cut true c cs = cut false c cs := by
  have hbrace : c ≠ '\x7b' := by
    rintro rfl
    exact h ⟨.brace, cs, rfl⟩
  have hparen : ¬ (c = '(' ∧ cs.head? = some '*') := by
    rintro ⟨rfl, hstar⟩
    obtain ⟨inner, rfl⟩ := List.head?_eq_some_iff.mp hstar
    exact h ⟨.parenStar, inner, rfl⟩
  simp only [cut, if_neg hbrace, if_neg hparen]

theorem cut_true_of_isFlat {c : Char} {cs : List Char}
    (h : ∀ k, (cut false c cs).1 = commentKind k → k.IsFlat) :
    cut true c cs = cut false c cs := by
  by_cases hopener : ∃ (style : BlockStyle) (inner : List Char), c :: cs = style.opener ++ inner
  · obtain ⟨style, inner, hinner⟩ := hopener
    have hcut : cut false c cs = commentCut (blockComment style false inner) :=
      cut_of_opener hinner
    rw [cut_of_opener hinner, hcut, blockComment_true_of_isFlat]
    exact h _ (by rw [hcut]; rfl)
  · exact cut_of_not_opener hopener

theorem lexFrom_true_of_isFlat {start : Location} {cs : List Char}
    (h : ∀ l ∈ lexFrom false start cs, l.IsFlat) :
    lexFrom true start cs = lexFrom false start cs := by
  fun_induction lexFrom false start cs with
  | case1 start => rw [lexFrom]
  | case2 start c cs kind n hcut chars stop ih =>
    have hsame : cut true c cs = (kind, n) := by
      rw [cut_true_of_isFlat, hcut]
      intro k hk
      rw [hcut] at hk
      exact h _ List.mem_cons_self k (commentKind_comment? hk)
    rw [lexFrom, hsame]
    dsimp only
    rw [ih fun l hl => h l (List.mem_cons_of_mem _ hl)]

end Lexer

/-! ### Scans -/

namespace Correspondence

/-- Two readings of one text, of which the documentation is compared too. -/
def same : Correspondence :=
  { sameText with
    docs := True
    line_eq := fun _ _ _ h => by rw [h] }

end Correspondence

open Correspondence

theorem Token.corresponds_same (t : Token) : t.Corresponds same t :=
  ⟨rfl, rfl, fun _ => rfl, rfl, rfl, fun _ => rfl⟩

theorem DocComment.corresponds_same (doc : DocComment) : doc.Corresponds same doc :=
  ⟨rfl, rfl, rfl, rfl⟩

theorem Lexeme.docCorresponds_same (l : Lexeme) : l.DocCorresponds same l := by
  refine ⟨rfl, fun options => ?_⟩
  cases DocComment.ofLexeme? options l with
  | none => exact .none
  | some doc => exact .some doc.corresponds_same

theorem Entry.eq_of_corresponds {e e' : Entry} (h : e.Corresponds same e') : e' = e := by
  obtain ⟨doc, start, stop, rfl⟩ := h.exists_eq
  have hdoc : doc = e.doc := h.doc trivial
  have hstart : e.start = start := h.start
  have hstop : e.stop = stop := h.stop
  subst hdoc hstart hstop
  simp [respell, same, sameText]

/-- Options under which the same comments document make the same of the same
    lexemes. -/
theorem ofState_eq_of_documentAlike {options options' : Options}
    (h : options.DocumentAlike options') (file : String) (lexemes : List Lexeme) :
    Report.ofState lexemes (State.ofSource options' file lexemes)
      = Report.ofState lexemes (State.ofSource options file lexemes) := by
  have htokens : Token.CodeCorresponds same (Token.ofLexemes lexemes) (Token.ofLexemes lexemes) :=
    ⟨List.forall₂_same.mpr fun t _ => t.corresponds_same, rfl⟩
  have hlexemes : List.Forall₂ (Lexeme.DocCorresponds same) lexemes lexemes :=
    List.forall₂_same.mpr fun l _ => l.docCorresponds_same
  have hstates : (State.ofSource options file lexemes).Corresponds same
      (State.ofSource options' file lexemes) :=
    State.corresponds_ofSource htokens rfl (fun _ => ⟨h, hlexemes⟩) file
  have hreports := hstates.report (f := id) (g := id) keepsPositions_sameText
    (rfl : Diagnostic.ofLexemes lexemes = _) Entry.eq_of_corresponds
  rwa [Report.mapEntries_id, Report.mapEntries_id] at hreports

/-- Nesting makes no difference to a source. -/
structure ReadsWithoutNesting (source : String) : Prop where
  /-- The lexemes are the same. -/
  lexemes : Lexer.lex true source = Lexer.lex false source
  /-- So are the problems that show in lexemes. -/
  diagnostics : Diagnostic.ofLexemes (Lexer.lex true source)
    = Diagnostic.ofLexemes (Lexer.lex false source)
  /-- And so are all reports, whatever the other options are. -/
  scan : ∀ (options : Options) (file : String),
    scan { options with nestedComments := true } file source
      = scan { options with nestedComments := false } file source

/-- **Where no comment nests, nesting makes no difference**: a source in which no
    block comment or directive has an opener of its style in it is read in the same
    way whether comments nest or not. -/
theorem readsWithoutNesting_of_isFlat {source : String}
    (h : ∀ l ∈ Lexer.lex false source, l.IsFlat) : ReadsWithoutNesting source := by
  have hlexemes : Lexer.lex true source = Lexer.lex false source :=
    Lexer.lexFrom_true_of_isFlat h
  constructor
  case lexemes => exact hlexemes
  case diagnostics => rw [hlexemes]
  case scan =>
    intro options file
    have halike : Options.DocumentAlike { options with nestedComments := false }
        { options with nestedComments := true } := ⟨rfl, rfl⟩
    show Report.ofState (Lexer.lex true source) (State.ofSource _ file (Lexer.lex true source))
      = Report.ofState (Lexer.lex false source) (State.ofSource _ file (Lexer.lex false source))
    rw [hlexemes]
    exact ofState_eq_of_documentAlike halike file _

/-- Marks of the other style, and an opener of its own after the closer. -/
theorem readsWithoutNesting_of_other_marks :
    let source := "\x7b (* \x7d var a: T; (* \x7b *) (**) var b: T; \x7b"
    (∀ l ∈ Lexer.lex false source, l.IsFlat) ∧ ReadsWithoutNesting source := by
  intro source
  have hflat : ∀ l ∈ Lexer.lex false source, l.IsFlat := by decide +kernel
  exact ⟨hflat, readsWithoutNesting_of_isFlat hflat⟩

end PascalOutline
