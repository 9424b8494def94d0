import PascalOutline.Proofs.Cursor.Order
import PascalOutline.Proofs.Correspondence.Token

/-! # Keywords that no phrase of a header passes

  A header whose semicolon or bracket is missing must not swallow the code
  that follows it. Four keywords begin such code: `begin`, `implementation`,
  `initialization` and `finalization`. A phrase *spares* them when none is
  among the tokens that it takes.

  Groups in brackets, types, accessors, directives and the rest of a header
  spare all four. Type parameters spare two of them: their reader has a list
  of its own of the keywords it stops at, and `initialization` and
  `finalization` are not on it.

  Some phrases begin with a word and not with a keyword. A word like
  `forward` is none of the four because a keyword is spelled as it is, which
  is so in every lexed source.
-/

namespace PascalOutline

/-! ### Keywords that begin code -/

/-- The keywords that begin code that is no part of any declaration. -/
def Keyword.codeOpeners : List Keyword :=
  [.begin, .implementation, .initialization, .finalization]

/-- Whether a keyword begins code that is no part of any declaration. -/
def Keyword.beginsCode (kw : Keyword) : Bool :=
  codeOpeners.contains kw

/-- Whether a token is a keyword that begins code. -/
def Token.beginsCode (t : Token) : Bool :=
  t.isKeywordThat Keyword.beginsCode

namespace Keyword

theorem beginsCode_cases {kw : Keyword} (h : kw.beginsCode = true) :
    kw = .begin ∨ kw = .implementation ∨ kw = .initialization ∨ kw = .finalization := by
  simpa [beginsCode, codeOpeners] using h

theorem isHardStop_of_beginsCode {kw : Keyword} (h : kw.beginsCode = true) :
    kw.isHardStop = true := by
  rcases beginsCode_cases h with rfl | rfl | rfl | rfl <;> rfl

theorem endsHeader_of_beginsCode {kw : Keyword} (h : kw.beginsCode = true) :
    kw.endsHeader = true := by
  simp [endsHeader, isHardStop_of_beginsCode h]

theorem isContextual_of_beginsCode {kw : Keyword} (h : kw.beginsCode = true) :
    kw.isContextual = false := by
  rcases beginsCode_cases h with rfl | rfl | rfl | rfl <;> rfl

end Keyword

namespace Token

theorem exists_keyword?_of_beginsCode {t : Token} (h : t.beginsCode = true) :
    ∃ kw, t.keyword? = some kw ∧ kw.beginsCode = true :=
  (Option.any_eq_true _ _).mp h

theorem beginsCode_of_keyword?_eq_none {t : Token} (h : t.keyword? = none) :
    t.beginsCode = false := by
  simp [beginsCode, isKeywordThat, h]

theorem beginsCode_of_isSymbol {t : Token} {symbol : String} (h : t.isSymbol symbol = true) :
    t.beginsCode = false :=
  beginsCode_of_keyword?_eq_none (Cursor.keyword?_of_isSymbol h)

theorem beginsCode_of_isName {t : Token} (h : t.isName = true) : t.beginsCode = false := by
  rw [← Bool.not_eq_true]
  intro hbegins
  obtain ⟨kw, hkw, hcode⟩ := exists_keyword?_of_beginsCode hbegins
  have hcontextual := Keyword.isContextual_of_beginsCode hcode
  simp only [isName, Lexeme.isName] at h
  simp only [keyword?, Lexeme.keyword?] at hkw
  split at h
  · simp_all
  · cases h

/-- What does not end a header does not begin code. -/
theorem beginsCode_of_endsHeader {t : Token} (h : t.isKeywordThat Keyword.endsHeader = false) :
    t.beginsCode = false := by
  rw [← Bool.not_eq_true]
  intro hbegins
  obtain ⟨kw, hkw, hcode⟩ := exists_keyword?_of_beginsCode hbegins
  simp [isKeywordThat, hkw, Keyword.endsHeader_of_beginsCode hcode] at h

/-! ### Spelling -/

/-- A token that is a keyword has the spelling of it. -/
def Spelled (t : Token) : Prop :=
  ∀ kw, t.keyword? = some kw → sameWord t.text kw.spelling = true

/-- A word in a list without keywords that begin code begins none. -/
theorem Spelled.beginsCode_of_isWordIn {t : Token} (h : t.Spelled) {words : List String}
    (hwords : ∀ word ∈ words, ∀ kw ∈ Keyword.codeOpeners, sameWord word kw.spelling = false)
    (hword : t.isWordIn words = true) : t.beginsCode = false := by
  rw [← Bool.not_eq_true]
  intro hbegins
  obtain ⟨kw, hkw, hcode⟩ := exists_keyword?_of_beginsCode hbegins
  obtain ⟨word, hmem, hsame⟩ := List.any_eq_true.mp hword
  have hlowered : lowered t.text = lowered word := by
    simp only [isWord, Lexeme.isWord, Bool.and_eq_true] at hsame
    exact sameWord_iff.mp hsame.2
  -- The text of the token is spelled like the word and like the keyword.
  have hspelling : sameWord word kw.spelling = true := by
    rw [sameWord_iff, ← hlowered]
    exact sameWord_iff.mp (h kw hkw)
  rw [hwords word hmem kw (List.contains_iff_mem.mp hcode)] at hspelling
  cases hspelling

end Token

namespace Lexer

/-- What is cut off a text that begins with `c` has the spelling of the
    keyword that it is. -/
def CutsSpelled (c : Char) (cs : List Char) (found : LexemeKind × Nat) : Prop :=
  ∀ kw escaped, found.1 = .ident (some kw) escaped →
    sameWord (String.ofList (c :: cs.take found.2)) kw.spelling = true

theorem cutsSpelled_ite {c : Char} {cs : List Char} {p : Prop} [Decidable p]
    {a b : LexemeKind × Nat} (ha : CutsSpelled c cs a) (hb : CutsSpelled c cs b) :
    CutsSpelled c cs (if p then a else b) := by
  split
  · exact ha
  · exact hb

theorem cutsSpelled_cut (nested : Bool) (c : Char) (cs : List Char) :
    CutsSpelled c cs (cut nested c cs) := by
  have hcomment (k : Comment) : CutsSpelled c cs (commentCut k) := by
    intro kw escaped hkind
    rcases commentKind_eq k with h | h <;> simp [commentCut, h] at hkind
  have hname : CutsSpelled c cs (nameCut c cs) := by
    intro kw escaped hkind
    simp only [nameCut, LexemeKind.ident.injEq] at hkind
    have hfound := List.find?_some hkind.1
    exact hfound
  unfold cut
  repeat' apply cutsSpelled_ite
  all_goals first
    | exact hcomment _
    | exact hname
    | intro kw escaped hkind; cases hkind

theorem spelled_of_mem_lexFrom {nested : Bool} {start : Location} {cs : List Char} {l : Lexeme}
    (hl : l ∈ lexFrom nested start cs) {kw : Keyword} (hkw : l.keyword? = some kw) :
    sameWord l.text kw.spelling = true := by
  fun_induction lexFrom nested start cs with
  | case1 => cases hl
  | case2 start c cs kind n hcut chars stop ih =>
    rcases List.mem_cons.mp hl with rfl | hl
    · have hspelled := cutsSpelled_cut nested c cs
      rw [hcut] at hspelled
      cases kind with
      | ident keyword escaped => exact hspelled kw escaped (by rw [show keyword = some kw from hkw])
      | _ => cases hkw
    · exact ih hl

end Lexer

/-- In a lexed source every keyword is spelled as it is. -/
theorem spelled_of_mem_tokens {nested : Bool} {source : String} {t : Token}
    (h : t ∈ (Cursor.ofLexemes (Lexer.lex nested source)).tokens) : t.Spelled :=
  fun _ hkw => Lexer.spelled_of_mem_lexFrom (mem_lexemes_of_mem_tokens h) hkw

/-! ### Phrases that spare code -/

namespace Extent

/-- None of the first `n` tokens begins code. -/
def Spares (ts : List Token) (n : Nat) : Prop :=
  ∀ t ∈ ts.take n, t.beginsCode = false

theorem spares_zero (ts : List Token) : Spares ts 0 := by
  intro t ht
  simp at ht

theorem Spares.cons {t : Token} {ts : List Token} {n : Nat} (ht : t.beginsCode = false)
    (h : Spares ts n) : Spares (t :: ts) (1 + n) := by
  intro u hu
  rw [Nat.add_comm, List.take_succ_cons] at hu
  rcases List.mem_cons.mp hu with rfl | hu
  · exact ht
  · exact h u hu

theorem Spares.add {ts : List Token} {m n : Nat} (hm : Spares ts m) (hn : Spares (ts.drop m) n) :
    Spares ts (m + n) := by
  intro t ht
  rw [List.take_add] at ht
  rcases List.mem_append.mp ht with ht | ht
  · exact hm t ht
  · exact hn t ht

/-- A keyword that begins code and stands behind the place where the tokens
    begin to be spared stands behind all of them. -/
theorem Spares.add_le_of_getElem? {ts : List Token} {m n i : Nat} {t : Token}
    (h : Spares (ts.drop m) n) (hi : m ≤ i) (ht : ts[i]? = some t) (hcode : t.beginsCode = true) :
    m + n ≤ i := by
  by_contra hlt
  have hdrop : (ts.drop m)[i - m]? = some t := by
    rwa [List.getElem?_drop, Nat.add_sub_cancel' hi]
  have hmem : t ∈ (ts.drop m).take n := by
    apply List.mem_of_getElem? (i := i - m)
    rwa [List.getElem?_take_of_lt (by omega)]
  rw [h t hmem] at hcode
  cases hcode

theorem spares_groupFrom (opening closing : String) (depth : Nat) (ts : List Token) :
    Spares ts (groupFrom opening closing depth ts) := by
  fun_induction groupFrom opening closing depth ts with
  | case1 => exact spares_zero _
  | case2 => exact spares_zero _
  | case3 depth t ts hends _ ih =>
    exact .cons (Token.beginsCode_of_endsHeader (by simpa using hends)) ih
  | case4 depth t ts hends _ _ _ =>
    exact .cons (n := 0) (Token.beginsCode_of_endsHeader (by simpa using hends)) (spares_zero _)
  | case5 depth t ts hends _ _ _ ih =>
    exact .cons (Token.beginsCode_of_endsHeader (by simpa using hends)) ih
  | case6 depth t ts hends _ _ ih =>
    exact .cons (Token.beginsCode_of_endsHeader (by simpa using hends)) ih

/-- A type expression goes on at no keyword that begins code, whatever is open
    in it. -/
theorem Nesting.token_of_beginsCode {t : Token} (h : t.beginsCode = true) (n : Nesting)
    (stops : List String) (afterOf : Bool) : n.token stops afterOf t = none := by
  obtain ⟨kw, hkw, hcode⟩ := Token.exists_keyword?_of_beginsCode h
  rw [Nesting.token, hkw]
  split
  · rfl
  · rcases Keyword.beginsCode_cases hcode with rfl | rfl | rfl | rfl <;> rfl

theorem spares_typeExprFrom (stops : List String) (n : Nesting) (afterOf : Bool)
    (ts : List Token) : Spares ts (typeExprFrom stops n afterOf ts) := by
  fun_induction typeExprFrom stops n afterOf ts with
  | case1 => exact spares_zero _
  | case2 => exact spares_zero _
  | case3 n afterOf t ts next hnext ih =>
    refine .cons ?_ ih
    rw [← Bool.not_eq_true]
    intro hbegins
    rw [Nesting.token_of_beginsCode hbegins] at hnext
    cases hnext

theorem spares_headerRest (ts : List Token) : Spares ts (headerRest ts) := by
  intro t ht
  rw [headerRest, (List.prefix_iff_eq_take.mp (List.takeWhile_prefix _)).symm] at ht
  have hends := List.all_eq_true.mp List.all_takeWhile t ht
  simp only [endsHeader, Bool.not_or, Bool.and_eq_true, Bool.not_eq_true'] at hends
  exact Token.beginsCode_of_endsHeader hends.2

theorem spares_directiveArgs (ts : List Token) : Spares ts (directiveArgs ts) := by
  fun_induction directiveArgs ts with
  | case1 => exact spares_zero _
  | case2 => exact spares_zero _
  | case3 t ts hstop ih =>
    simp only [endsHeader, Bool.or_eq_true, not_or, Bool.not_eq_true] at hstop
    exact .cons (Token.beginsCode_of_endsHeader hstop.1.2) ih

/-! ### Phrases that begin with a word -/

/-- A semicolon that comes next may be passed. -/
theorem spares_semicolon {ts : List Token} (h : ts.head?.any (Token.isSymbol · ";") = true) :
    Spares ts 1 := by
  obtain ⟨t, ht, hsymbol⟩ := (Option.any_eq_true _ _).mp h
  obtain ⟨us, rfl⟩ := List.head?_eq_some_iff.mp ht
  exact .cons (n := 0) (Token.beginsCode_of_isSymbol hsymbol) (spares_zero _)

theorem spares_directives {ts : List Token} (h : ∀ t ∈ ts, t.Spelled) :
    Spares ts (directives ts).length := by
  have hwords : ∀ word ∈ directiveWords, ∀ kw ∈ Keyword.codeOpeners,
      sameWord word kw.spelling = false := by
    decide +kernel
  fun_induction directives ts with
  | case1 => exact spares_zero _
  | case2 t ts hstarts n passed others ih =>
    have hword : t.isWordIn directiveWords = true := by
      simp only [startsDirective, Bool.and_eq_true] at hstarts
      exact hstarts.1
    have hpassed : Spares ts passed := by
      show Spares ts (if (ts.drop n).head?.any (Token.isSymbol · ";") then n + 1 else n)
      split
      next hsemi => exact (spares_directiveArgs ts).add (spares_semicolon hsemi)
      next => exact spares_directiveArgs ts
    have hothers : Spares (ts.drop passed) others.length :=
      ih fun u hu => h u (List.mem_cons_of_mem _ (List.mem_of_mem_drop hu))
    rw [Nat.add_assoc]
    exact .cons ((h t List.mem_cons_self).beginsCode_of_isWordIn hwords hword)
      (hpassed.add hothers)
  | case3 => exact spares_zero _

theorem spares_accessors {ts : List Token} (h : ∀ t ∈ ts, t.Spelled) :
    Spares ts (accessors ts).length := by
  have hwords : ∀ word ∈ accessorWords, ∀ kw ∈ Keyword.codeOpeners,
      sameWord word kw.spelling = false := by
    decide +kernel
  fun_induction accessors ts with
  | case1 => exact spares_zero _
  | case2 t ts hword n others ih =>
    have hothers : Spares (ts.drop n) others.length :=
      ih fun u hu => h u (List.mem_cons_of_mem _ (List.mem_of_mem_drop hu))
    rw [Nat.add_assoc]
    exact .cons ((h t List.mem_cons_self).beginsCode_of_isWordIn hwords hword)
      ((spares_typeExprFrom _ _ _ ts).add hothers)
  | case3 => exact spares_zero _

theorem spares_defaultMarks {ts : List Token} (h : ∀ t ∈ ts, t.Spelled) :
    Spares ts (2 * defaultMarks ts) := by
  have hwords : ∀ word ∈ ["default"], ∀ kw ∈ Keyword.codeOpeners,
      sameWord word kw.spelling = false := by
    decide +kernel
  fun_induction defaultMarks ts with
  | case1 t s ts hmark ih =>
    simp only [Bool.and_eq_true] at hmark
    have hdefault : t.beginsCode = false := by
      apply (h t List.mem_cons_self).beginsCode_of_isWordIn hwords
      simpa [Token.isWordIn] using hmark.1
    have hothers := ih fun u hu => h u (List.mem_cons_of_mem _ (List.mem_cons_of_mem _ hu))
    have hlength : 2 * (1 + defaultMarks ts) = 1 + (1 + 2 * defaultMarks ts) := by omega
    rw [hlength]
    exact .cons hdefault (.cons (Token.beginsCode_of_isSymbol hmark.2) hothers)
  | case2 => exact spares_zero _
  | case3 => exact spares_zero _

/-! ### Type parameters -/

/-- Whether a token is one of the two keywords that type parameters do not
    stop at. -/
def isUnguarded (t : Token) : Bool :=
  t.isKeyword .initialization || t.isKeyword .finalization

/-- A keyword among type parameters that begins code is one of two. -/
theorem isUnguarded_of_getElem?_genericsFrom {depth : Nat} {ts : List Token} {i : Nat} {t : Token}
    (hi : i < (genericsFrom depth ts).length) (ht : ts[i]? = some t)
    (hcode : t.beginsCode = true) : isUnguarded t = true := by
  have hsymbol {symbol : String} (h : t.isSymbol symbol = true) : isUnguarded t = true := by
    rw [Token.beginsCode_of_isSymbol h] at hcode
    cases hcode
  induction ts generalizing depth i with
  | nil => simp at ht
  | cons u us ih =>
    cases i with
    | zero =>
      obtain rfl : u = t := by simpa using ht
      obtain ⟨kw, hkw, hbegins⟩ := Token.exists_keyword?_of_beginsCode hcode
      -- Of the four keywords `begin` and `implementation` are stopped at.
      rw [genericsFrom] at hi
      split_ifs at hi with hopen hclose hdepth hother hstop
      · exact hsymbol hopen
      · rcases (Bool.or_eq_true _ _).mp hclose with h | h
        · exact hsymbol h
        · exact hsymbol h
      · rcases (Bool.or_eq_true _ _).mp hclose with h | h
        · exact hsymbol h
        · exact hsymbol h
      · simp at hi
      · simp at hi
      · simp only [Token.isKeywordThat, hkw, Option.any_some] at hstop
        simp only [isUnguarded, Token.isKeyword, hkw]
        rcases Keyword.beginsCode_cases hbegins with rfl | rfl | rfl | rfl
        · exact absurd rfl hstop
        · exact absurd rfl hstop
        · rfl
        · rfl
    | succ i =>
      have ht : us[i]? = some t := by simpa using ht
      rw [genericsFrom] at hi
      split_ifs at hi with hopen hclose hdepth hother hstop <;>
        simp only [Generics.succ, Nat.add_lt_add_iff_right, Nat.not_lt_zero] at hi
      · exact ih hi ht
      · simp at hi
      · exact ih hi ht
      · exact ih hi ht

/-- The token with number `i` stands among type parameters. -/
def InTypeParameters (ts : List Token) (i : Nat) : Prop :=
  ∃ j, ts[j]?.any (Token.isSymbol · "<") = true ∧ j ≤ i ∧ i < j + (generics (ts.drop j)).length

theorem InTypeParameters.of_drop {ts : List Token} {k i : Nat}
    (h : InTypeParameters (ts.drop k) i) : InTypeParameters ts (k + i) := by
  obtain ⟨j, hopen, hle, hlt⟩ := h
  refine ⟨k + j, ?_, by omega, ?_⟩
  · rwa [List.getElem?_drop] at hopen
  · rw [List.drop_drop] at hlt
    omega

/-- A keyword that begins code and stands in a dotted name stands among the
    type parameters of one of its parts. -/
theorem inTypeParameters_of_segments {before : Nat} {ts : List Token} {part : Segment}
    (hpart : part ∈ segments before ts) {i : Nat} (hi : before + i < part.stop) {t : Token}
    (ht : ts[i]? = some t) (hcode : t.beginsCode = true) :
    InTypeParameters ts i ∧ isUnguarded t = true := by
  fun_induction segments before ts generalizing i with
  | case1 => cases hpart
  | case3 => cases hpart
  | case2 before u us hname n rest stop more =>
    rename_i ih
    -- The name itself does not begin code.
    obtain ⟨i, rfl⟩ : ∃ k, i = k + 1 := by
      cases i with
      | succ i => exact ⟨i, rfl⟩
      | zero =>
        obtain rfl : u = t := by simpa using ht
        rw [Token.beginsCode_of_isName hname] at hcode
        cases hcode
    have ht : us[i]? = some t := by simpa using ht
    by_cases hgeneric : i < n
    · -- Its type parameters come next.
      have hgeneric : i < if us.head?.any (Token.isSymbol · "<") then (generics us).length else 0 :=
        hgeneric
      have hopen : us.head?.any (Token.isSymbol · "<") = true := by
        by_contra hnone
        rw [if_neg hnone] at hgeneric
        omega
      rw [if_pos hopen] at hgeneric
      refine ⟨⟨1, ?_, by omega, ?_⟩, isUnguarded_of_getElem?_genericsFrom hgeneric ht hcode⟩
      · rw [List.getElem?_cons_succ, ← List.head?_eq_getElem?]
        exact hopen
      · rw [List.drop_succ_cons, List.drop_zero]
        omega
    · rcases List.mem_cons.mp hpart with rfl | hpart
      · have hi : before + (i + 1) < before + 1 + n := hi
        omega
      · split at hpart
        next hmore =>
          obtain ⟨hdot, _⟩ := Bool.and_eq_true_iff.mp hmore
          by_cases hat : i = n
          · -- After them stands a dot.
            subst hat
            obtain ⟨dot, hhead, hsymbol⟩ := (Option.any_eq_true _ _).mp hdot
            rw [List.head?_drop] at hhead
            obtain rfl : dot = t := Option.some.inj (hhead.symm.trans ht)
            rw [Token.beginsCode_of_isSymbol hsymbol] at hcode
            cases hcode
          · obtain ⟨k, rfl⟩ : ∃ k, i = n + 1 + k := ⟨i - (n + 1), by omega⟩
            have hstop : stop + 1 + k < part.stop := by
              show before + 1 + n + 1 + k < part.stop
              omega
            have hlater : (us.drop (n + 1))[k]? = some t := by rwa [List.getElem?_drop]
            obtain ⟨hin, hunguarded⟩ := ih hpart hstop hlater
            refine ⟨?_, hunguarded⟩
            have hshift : n + 1 + k + 1 = n + 2 + k := by omega
            rw [hshift]
            have hdrop : InTypeParameters ((u :: us).drop (n + 2)) k := hin
            exact hdrop.of_drop
        next => cases hpart

theorem inTypeParameters_of_qualifiedName {ts : List Token} {i : Nat}
    (hi : i < (qualifiedName ts).length) {t : Token} (ht : ts[i]? = some t)
    (hcode : t.beginsCode = true) : InTypeParameters ts i ∧ isUnguarded t = true := by
  unfold qualifiedName at hi
  dsimp only at hi
  split at hi
  next => simp at hi
  next part hlast =>
    have hi : 0 + i < part.stop := by rwa [Nat.zero_add]
    exact inTypeParameters_of_segments (List.mem_of_getLast? hlast) hi ht hcode

end Extent

end PascalOutline
