import PascalOutline.Proofs.Lexeme.Modes
import PascalOutline.Proofs.Lexeme.Tiling

/-! # Strings and comments are opaque

  Nothing inside of a string or comment is read as code. A string is over at its
  closing quote or with its line, a line comment with its line, and a block
  comment at its own closer; the marks of other strings and comments inside of
  it do not count. `hasExtent_lex` says where each of them ends, for every
  lexeme of every source.
-/

namespace PascalOutline.Lexer

/-- The text of some lexemes. -/
def textOf (lexemes : List Lexeme) : List Char :=
  lexemes.flatMap fun l => l.text.toList

/-- A lexeme with the text `rest` after it ends where it has to, if it is a
    string or a comment. -/
structure HasExtent (nested : Bool) (l : Lexeme) (rest : List Char) : Prop where
  /-- At a quote there is a string. It goes to the first quote that is not one of
      a pair, or up to the end of its line. -/
  string : ∀ cs, l.text.toList ++ rest = '\'' :: cs → ∃ taken terminated,
    l.kind = .str terminated ∧ l.text.toList = '\'' :: taken ∧ StringExtent taken rest terminated
  /-- At two slashes there is a comment up to the end of its line. -/
  line : ∀ cs, l.text.toList ++ rest = '/' :: '/' :: cs → ∃ body,
    l.kind = .comment ⟨.line, body, false⟩ ∧ l.text.toList = '/' :: '/' :: body ∧
      (∀ c ∈ body, isLineEnd c = false) ∧ rest.head?.all isLineEnd = true
  /-- Where comments do not nest, a block comment goes to its first closer. -/
  flat : nested = false → ∀ (style : BlockStyle) (cs : List Char),
    l.text.toList ++ rest = style.opener ++ cs → ∃ k, l.comment? = some k ∧
      k.style = .block style ∧ l.text.toList = k.chars ∧ FlatExtent style k cs rest
  /-- Where comments nest, a block comment goes to the closer that closes it. -/
  nesting : nested = true → ∀ (style : BlockStyle) (cs : List Char),
    l.text.toList ++ rest = style.opener ++ cs → ∃ k, l.comment? = some k ∧
      k.style = .block style ∧ l.text.toList = k.chars ∧ NestedExtent style k cs rest
  /-- The automaton is back in code right after it, and the marks of the other
      style that it has counted make no difference. -/
  modes : ∀ c cs, l.text.toList ++ rest = c :: cs → ∀ quoted stray,
    let w := ({ Walk.enter nested c cs with quoted, stray } : Walk).run nested
    w.mode = .code ∧ w.ahead = rest

/-! ### One cut -/

section Cut

variable {nested : Bool} {c : Char} {cs : List Char} {l : Lexeme}

/-- The comment that is read from the text after its opener has its characters
    and the rest of the text. -/
theorem exists_comment {k : Comment} {inner rest : List Char}
    (hopener : c :: cs = k.style.opener ++ inner) (hreads : Reads k inner rest)
    (hcut : cut nested c cs = commentCut k) (hkind : l.kind = (cut nested c cs).1)
    (htext : l.text.toList = c :: cs.take (cut nested c cs).2) :
    l.kind = commentKind k ∧ l.text.toList = k.chars ∧ cs.drop (cut nested c cs).2 = rest := by
  rw [hcut] at hkind htext ⊢
  obtain ⟨htake, hdrop⟩ := split_commentCut hopener hreads
  exact ⟨hkind, htext.trans htake, hdrop⟩

/-- A lexeme that is cut off a text ends where it has to. -/
theorem hasExtent_of_cut (hkind : l.kind = (cut nested c cs).1)
    (htext : l.text.toList = c :: cs.take (cut nested c cs).2) :
    HasExtent nested l (cs.drop (cut nested c cs).2) := by
  have hsplit : l.text.toList ++ cs.drop (cut nested c cs).2 = c :: cs := by
    rw [htext, List.cons_append, List.take_append_drop]
  constructor
  case string =>
    intro ds hds
    obtain ⟨rfl, rfl⟩ := List.cons.inj (hsplit.symm.trans hds)
    have hextent := StringExtent.of_stringFrom 0 cs
    exact ⟨_, _, hkind, htext, hextent⟩
  case line =>
    intro ds hds
    obtain ⟨rfl, rfl⟩ := List.cons.inj (hsplit.symm.trans hds)
    have hreads := reads_lineComment ds
    obtain ⟨hkind, htext, hrest⟩ := exists_comment rfl hreads rfl hkind htext
    rw [hrest]
    refine ⟨(lineComment ds).body, hkind, ?_, hreads.line rfl, ?_⟩
    · rw [htext, Comment.chars]
      exact List.append_nil _
    · have hhead := List.head?_dropWhile_not (fun c => !isLineEnd c) ds
      cases hnext : (ds.dropWhile fun c => !isLineEnd c).head? with
      | none => rfl
      | some d =>
        rw [hnext] at hhead
        simpa using hhead
  case flat =>
    rintro rfl style inner hinner
    have hopener : c :: cs = style.opener ++ inner := hsplit.symm.trans hinner
    obtain ⟨rest, hreads⟩ := reads_blockComment style false inner
    have hstyle := blockComment_style style false inner
    obtain ⟨hkind, htext, hrest⟩ := exists_comment (hstyle ▸ hopener) hreads
      (cut_of_opener hopener) hkind htext
    rw [hrest]
    exact ⟨_, commentKind_comment? hkind, hstyle, htext, .of_blockComment rfl hreads⟩
  case nesting =>
    rintro rfl style inner hinner
    have hopener : c :: cs = style.opener ++ inner := hsplit.symm.trans hinner
    obtain ⟨rest, hreads⟩ := reads_blockComment style true inner
    have hstyle := blockComment_style style true inner
    obtain ⟨hkind, htext, hrest⟩ := exists_comment (hstyle ▸ hopener) hreads
      (cut_of_opener hopener) hkind htext
    rw [hrest]
    exact ⟨_, commentKind_comment? hkind, hstyle, htext, .of_blockComment rfl hreads⟩
  case modes =>
    intro d ds hds quoted stray
    obtain ⟨rfl, rfl⟩ := List.cons.inj (hsplit.symm.trans hds)
    exact ⟨Walk.mode_run _ _, Walk.ahead_run_enter _ _ _ quoted stray⟩

end Cut

/-! ### The whole source -/

theorem hasExtent_lexFrom (nested : Bool) (start : Location) (cs : List Char) {i : Nat}
    {l : Lexeme} (h : (lexFrom nested start cs)[i]? = some l) :
    HasExtent nested l (textOf ((lexFrom nested start cs).drop (i + 1))) := by
  fun_induction lexFrom nested start cs generalizing i with
  | case1 => cases h
  | case2 start c cs kind n hcut chars stop =>
    rename_i ih
    cases i with
    | succ i => exact ih h
    | zero =>
      obtain rfl := Option.some.inj h
      rw [List.drop_succ_cons, List.drop_zero, textOf, flatMap_text_lexFrom]
      have htext : (String.ofList chars).toList = c :: cs.take (cut nested c cs).2 := by
        rw [hcut, String.toList_ofList]
      have hextent := hasExtent_of_cut (l := ⟨kind, String.ofList chars, start, stop⟩)
        (congrArg Prod.fst hcut).symm htext
      rwa [hcut] at hextent

/-- **Strings and comments have exactly their extent**, at every place of every
    source at which a lexeme begins, whether comments nest or not. -/
theorem hasExtent_lex (nested : Bool) (source : String)
    (i : Fin (lex nested source).length) :
    HasExtent nested (lex nested source)[i] (textOf ((lex nested source).drop (i + 1))) :=
  hasExtent_lexFrom nested .start source.toList (List.getElem?_eq_getElem i.isLt)

end PascalOutline.Lexer
