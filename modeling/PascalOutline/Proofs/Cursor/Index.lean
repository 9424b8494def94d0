import PascalOutline.Proofs.Cursor.Order

/-! # The place of a cursor among all lexemes

  Tokens are numbered by their place among all lexemes, in source order. So a
  cursor that moves on never gets to an earlier lexeme, and the last token that
  it passed lies before the next one.
-/

namespace PascalOutline

theorem index_of_mem_ofLexemesFrom {index : Nat} {spaced : Bool} {lexemes : List Lexeme}
    {t : Token} (h : t ∈ Token.ofLexemesFrom index spaced lexemes) :
    index ≤ t.index ∧ t.index < index + lexemes.length := by
  fun_induction Token.ofLexemesFrom index spaced lexemes with
  | case1 => cases h
  | case2 index spaced l ls _ ih =>
    have hrest := ih h
    rw [List.length_cons]
    omega
  | case3 index spaced l ls _ ih =>
    rw [List.length_cons]
    rcases List.mem_cons.mp h with rfl | h
    · exact ⟨Nat.le_refl index, by show index < _; omega⟩
    · have hrest := ih h
      omega

theorem pairwise_index_ofLexemesFrom (index : Nat) (spaced : Bool) (lexemes : List Lexeme) :
    (Token.ofLexemesFrom index spaced lexemes).Pairwise (·.index < ·.index) := by
  fun_induction Token.ofLexemesFrom index spaced lexemes with
  | case1 => exact .nil
  | case2 _ _ _ _ _ ih => exact ih
  | case3 index spaced l ls _ ih =>
    refine .cons ?_ ih
    intro t ht
    exact (index_of_mem_ofLexemesFrom ht).1

theorem getElem?_of_mem_ofLexemesFrom {index : Nat} {spaced : Bool} {lexemes : List Lexeme}
    {t : Token} (h : t ∈ Token.ofLexemesFrom index spaced lexemes) :
    lexemes[t.index - index]? = some t.lexeme := by
  fun_induction Token.ofLexemesFrom index spaced lexemes with
  | case1 => cases h
  | case2 index spaced l ls _ ih =>
    have hindex := index_of_mem_ofLexemesFrom h
    rw [show t.index - index = t.index - (index + 1) + 1 by omega, List.getElem?_cons_succ]
    exact ih h
  | case3 index spaced l ls _ ih =>
    rcases List.mem_cons.mp h with rfl | h
    · show (l :: ls)[index - index]? = some l
      rw [Nat.sub_self]
      rfl
    · have hindex := index_of_mem_ofLexemesFrom h
      rw [show t.index - index = t.index - (index + 1) + 1 by omega, List.getElem?_cons_succ]
      exact ih h

/-- All code becomes tokens. -/
theorem exists_mem_ofLexemesFrom {index : Nat} {spaced : Bool} {lexemes : List Lexeme} {k : Nat}
    {l : Lexeme} (hl : lexemes[k]? = some l) (hcode : l.isTrivia = false) :
    ∃ t ∈ Token.ofLexemesFrom index spaced lexemes, t.index = index + k := by
  fun_induction Token.ofLexemesFrom index spaced lexemes generalizing k with
  | case1 => cases hl
  | case2 index spaced m ls htrivia ih =>
    cases k with
    | zero =>
      obtain rfl := Option.some.inj hl
      rw [hcode] at htrivia
      cases htrivia
    | succ k =>
      obtain ⟨t, ht, hindex⟩ := ih hl
      exact ⟨t, ht, by omega⟩
  | case3 index spaced m ls _ ih =>
    cases k with
    | zero => exact ⟨_, List.mem_cons_self, rfl⟩
    | succ k =>
      obtain ⟨t, ht, hindex⟩ := ih hl
      exact ⟨t, List.mem_cons_of_mem _ ht, by omega⟩

namespace Cursor

/-- A token is a lexeme that is code. -/
theorem Reaches.getElem?_index {lexemes : List Lexeme} {c : Cursor}
    (h : (ofLexemes lexemes).Reaches c) {t : Token} (ht : t ∈ c.tokens) :
    lexemes[t.index]? = some t.lexeme ∧ t.lexeme.isTrivia = false := by
  rw [h.tokens_eq] at ht
  have ht : t ∈ Token.ofLexemesFrom 0 false lexemes := ht
  have hcode := List.mem_map_of_mem (f := Token.lexeme) ht
  rw [map_lexeme_ofLexemesFrom] at hcode
  refine ⟨getElem?_of_mem_ofLexemesFrom ht, ?_⟩
  simpa using (List.mem_filter.mp hcode).2

/-- Behind the beginning of the text a token was passed. -/
theorem indexAfterPrev_pos {c : Cursor} (h : 0 < c.prevStop.offset) : 0 < c.indexAfterPrev := by
  unfold indexAfterPrev
  cases hprev : c.prev? with
  | none =>
    rw [prevStop_of_prev?_eq_none hprev] at h
    exact absurd h (Nat.lt_irrefl 0)
  | some t => exact Nat.succ_pos t.index

/-- The tokens of a cursor are numbered by their places among `count`
    lexemes. -/
structure Numbered (count : Nat) (c : Cursor) : Prop where
  /-- The lexemes are counted right. -/
  lexemeCount : c.lexemeCount = count
  /-- Tokens are numbered in their order. -/
  sorted : c.tokens.Pairwise (·.index < ·.index)
  /-- No number is too large. -/
  bounded : ∀ t ∈ c.tokens, t.index < count

theorem numbered_ofLexemes (lexemes : List Lexeme) :
    (ofLexemes lexemes).Numbered lexemes.length := by
  refine ⟨rfl, pairwise_index_ofLexemesFrom 0 false lexemes, ?_⟩
  intro t ht
  have hindex := index_of_mem_ofLexemesFrom (show t ∈ Token.ofLexemesFrom 0 false lexemes from ht)
  omega

variable {count : Nat} {c d : Cursor}

namespace Numbered

theorem of_reaches (h : c.Numbered count) (hcd : c.Reaches d) : d.Numbered count := by
  have htokens := hcd.tokens_eq
  obtain ⟨n, rfl⟩ := hcd
  refine ⟨h.lexemeCount, ?_, ?_⟩
  · rw [htokens]
    exact h.sorted
  · rw [htokens]
    exact h.bounded

theorem lexemeIndex_le (h : c.Numbered count) : c.lexemeIndex ≤ count := by
  unfold lexemeIndex
  cases hpeek : c.peek? with
  | none => exact Nat.le_of_eq h.lexemeCount
  | some t => exact Nat.le_of_lt (h.bounded t (mem_tokens_of_peek? hpeek))

theorem index_lt_indexAfterPrev (h : c.Numbered count) {t : Token} (ht : t ∈ c.past) :
    t.index < c.indexAfterPrev := by
  obtain ⟨u, us, hpast⟩ := List.exists_cons_of_ne_nil (List.ne_nil_of_mem ht)
  have hindex : c.indexAfterPrev = u.index + 1 := by
    rw [indexAfterPrev, prev?, hpast]
    rfl
  have hsorted := List.pairwise_reverse.mp (List.pairwise_append.mp h.sorted).1
  rw [hpast] at ht hsorted
  rw [hindex]
  rcases List.mem_cons.mp ht with rfl | hrest
  · exact Nat.lt_succ_self _
  · exact Nat.lt_succ_of_lt (List.rel_of_pairwise_cons hsorted hrest)

theorem lexemeIndex_le_index (h : c.Numbered count) {t : Token} (ht : t ∈ c.ahead) :
    c.lexemeIndex ≤ t.index := by
  obtain ⟨u, us, hahead⟩ := List.exists_cons_of_ne_nil (List.ne_nil_of_mem ht)
  have hindex : c.lexemeIndex = u.index := by
    rw [lexemeIndex, peek?_eq_some_iff.mpr ⟨us, hahead⟩]
    rfl
  have hsorted := (List.pairwise_append.mp h.sorted).2.1
  rw [hahead] at ht hsorted
  rw [hindex]
  rcases List.mem_cons.mp ht with rfl | hrest
  · exact Nat.le_refl _
  · exact Nat.le_of_lt (List.rel_of_pairwise_cons hsorted hrest)

/-- The last token that was passed lies before the next one. -/
theorem indexAfterPrev_le (h : c.Numbered count) : c.indexAfterPrev ≤ c.lexemeIndex := by
  unfold indexAfterPrev
  cases hprev : c.prev? with
  | none => exact Nat.zero_le _
  | some t =>
    show t.index + 1 ≤ c.lexemeIndex
    unfold lexemeIndex
    cases hpeek : c.peek? with
    | none =>
      show t.index + 1 ≤ c.lexemeCount
      rw [h.lexemeCount]
      exact h.bounded t (mem_tokens_of_prev? hprev)
    | some u =>
      have hpast : t ∈ c.past.reverse := List.mem_reverse.mpr (List.mem_of_mem_head? hprev)
      have hahead : u ∈ c.ahead := List.mem_of_getElem? hpeek
      exact (List.pairwise_append.mp h.sorted).2.2 t hpast u hahead

/-- What is passed lies behind the next token. -/
theorem lexemeIndex_lt_indexAfterPrev (h : c.Numbered count) (hcd : c.Passes d) :
    c.lexemeIndex < d.indexAfterPrev := by
  obtain ⟨t, u, ts, hahead, hprev, hu⟩ := hcd.prev?
  have hsorted := (List.pairwise_append.mp h.sorted).2.1
  rw [hahead] at hsorted
  have hle : t.index ≤ u.index := by
    rcases hu with rfl | hu
    · exact Nat.le_refl _
    · exact Nat.le_of_lt (List.rel_of_pairwise_cons hsorted hu)
  have hfirst : c.lexemeIndex = t.index := by
    rw [lexemeIndex, peek?_eq_some_iff.mpr ⟨ts, hahead⟩]
    rfl
  have hlast : d.indexAfterPrev = u.index + 1 := by
    rw [indexAfterPrev, hprev]
    rfl
  rw [hfirst, hlast]
  exact Nat.lt_succ_of_le hle

theorem indexAfterPrev_mono (h : c.Numbered count) (hcd : c.Reaches d) :
    c.indexAfterPrev ≤ d.indexAfterPrev := by
  rcases hcd.passes_or_still with hpasses | hstill
  · exact Nat.le_of_lt (Nat.lt_of_le_of_lt h.indexAfterPrev_le
      (h.lexemeIndex_lt_indexAfterPrev hpasses))
  · exact Nat.le_of_eq (congrArg (fun t => (t.map fun u => u.index + 1).getD 0) hstill.symm)

/-- A cursor that moves on does not get to an earlier lexeme. -/
theorem lexemeIndex_mono (h : c.Numbered count) (hcd : c.Reaches d) :
    c.lexemeIndex ≤ d.lexemeIndex := by
  have hd := h.of_reaches hcd
  obtain ⟨n, rfl⟩ := hcd
  cases hpeek : (c.advance n).peek? with
  | none =>
    -- A cursor at the end has the index behind all lexemes.
    have hend : (c.advance n).lexemeIndex = count := by
      rw [lexemeIndex, hpeek]
      exact hd.lexemeCount
    rw [hend]
    exact h.lexemeIndex_le
  | some u =>
    have hu : c.ahead[n]? = some u := by
      have hget : (c.ahead.drop n)[0]? = some u := hpeek
      rwa [List.getElem?_drop, Nat.add_zero] at hget
    have hindex : (c.advance n).lexemeIndex = u.index := by
      rw [lexemeIndex, hpeek]
      rfl
    rw [hindex]
    exact h.lexemeIndex_le_index (List.mem_of_getElem? hu)

end Numbered

/-- Only trivia stands between two tokens. -/
theorem Reaches.isTrivia_of_between {lexemes : List Lexeme} (h : (ofLexemes lexemes).Reaches c)
    {k : Nat} {l : Lexeme} (hl : lexemes[k]? = some l) (hfirst : c.indexAfterPrev ≤ k)
    (hlast : k < c.lexemeIndex) : l.isTrivia = true := by
  by_contra hcode
  have hnumbered := (numbered_ofLexemes lexemes).of_reaches h
  have htoken : ∃ t ∈ (ofLexemes lexemes).tokens, t.index = 0 + k :=
    exists_mem_ofLexemesFrom hl (Bool.not_eq_true _ ▸ hcode)
  obtain ⟨t, ht, hindex⟩ := htoken
  rw [← h.tokens_eq] at ht
  rcases List.mem_append.mp ht with hpast | hahead
  · have hlt := hnumbered.index_lt_indexAfterPrev (List.mem_reverse.mp hpast)
    omega
  · have hle := hnumbered.lexemeIndex_le_index hahead
    omega

/-- Only trivia stands before the first token. -/
theorem isTrivia_of_lt_lexemeIndex {lexemes : List Lexeme} {k : Nat} {l : Lexeme}
    (hl : lexemes[k]? = some l) (hk : k < (ofLexemes lexemes).lexemeIndex) : l.isTrivia = true :=
  (Reaches.refl (ofLexemes lexemes)).isTrivia_of_between hl (Nat.zero_le k) hk

end Cursor

end PascalOutline
