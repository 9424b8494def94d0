import PascalOutline.Proofs.Cursor.Movement
import PascalOutline.Proofs.Lexeme.Tiling

/-! # The places that a cursor passes

  The tokens of a source stand in source order, so the places that a cursor
  gives away (the end of the last token behind it, the start of the next one)
  grow as it moves. `Cursor.Ordered` collects what holds of the tokens of a
  lexed source; it is a fact about the source and not about the place of the
  cursor, hence kept by every move.
-/

namespace PascalOutline

open Lexer

/-! ### Lexemes in order -/

theorem precedes_start_of_mem_lexFrom {nested : Bool} {start : Location} {cs : List Char}
    {l : Lexeme} (hl : l ∈ lexFrom nested start cs) : start.Precedes l.start := by
  fun_induction lexFrom nested start cs with
  | case1 => cases hl
  | case2 start c cs kind n _ chars stop ih =>
    rcases List.mem_cons.mp hl with rfl | hl
    · exact .refl start
    · exact (start.precedes_after chars).trans (ih hl)

theorem pairwise_lexFrom (nested : Bool) (start : Location) (cs : List Char) :
    (lexFrom nested start cs).Pairwise fun l next => l.stop.Precedes next.start := by
  fun_induction lexFrom nested start cs with
  | case1 => exact .nil
  | case2 start c cs kind n _ chars stop ih =>
    refine List.pairwise_cons.mpr ⟨?_, ih⟩
    intro next hnext
    exact precedes_start_of_mem_lexFrom hnext

theorem precedes_endFrom_lexFrom (nested : Bool) (start : Location) (cs : List Char) :
    start.Precedes (endFrom start (lexFrom nested start cs)) ∧
      ∀ l ∈ lexFrom nested start cs, l.stop.Precedes (endFrom start (lexFrom nested start cs)) := by
  fun_induction lexFrom nested start cs with
  | case1 start =>
    refine ⟨.refl start, ?_⟩
    intro l hl
    cases hl
  | case2 start c cs kind n _ chars stop ih =>
    obtain ⟨hfirst, hothers⟩ := ih
    rw [endFrom_cons]
    refine ⟨(start.precedes_after chars).trans hfirst, ?_⟩
    intro l hl
    rcases List.mem_cons.mp hl with rfl | hl
    · exact hfirst
    · exact hothers l hl

/-! ### Tokens in order -/

theorem map_lexeme_ofLexemesFrom (index : Nat) (spaced : Bool) (lexemes : List Lexeme) :
    (Token.ofLexemesFrom index spaced lexemes).map Token.lexeme
      = lexemes.filter fun l => !l.isTrivia := by
  fun_induction Token.ofLexemesFrom index spaced lexemes with
  | case1 => rfl
  | case2 index spaced l ls htrivia ih => simp [htrivia, ih]
  | case3 index spaced l ls htrivia ih => simp [htrivia, ih]

/-- The tokens of a cursor stand in a source, in order. -/
structure Cursor.Ordered (source : String) (c : Cursor) : Prop where
  /-- A token is not empty. -/
  token : ∀ t ∈ c.tokens, t.start.Precedes t.stop ∧ t.start.offset < t.stop.offset
  /-- A token begins and ends between characters. -/
  boundary : ∀ t ∈ c.tokens, IsBoundary source t.start.offset ∧ IsBoundary source t.stop.offset
  /-- Each token ends before the next ones begin. -/
  sorted : c.tokens.Pairwise fun t next => t.stop.Precedes next.start
  /-- All tokens begin after the beginning of the text. -/
  after_start : ∀ t ∈ c.tokens, Location.start.Precedes t.start
  /-- All tokens end before the end of the text. -/
  before_eof : ∀ t ∈ c.tokens, t.stop.Precedes c.eof
  /-- The text ends after its beginning. -/
  start_eof : Location.start.Precedes c.eof
  /-- The end of the text is the end of the source. -/
  eof : c.eof.offset = source.utf8ByteSize

theorem mem_lexemes_of_mem_tokens {lexemes : List Lexeme} {t : Token}
    (ht : t ∈ (Cursor.ofLexemes lexemes).tokens) : t.lexeme ∈ lexemes := by
  have ht : t ∈ Token.ofLexemesFrom 0 false lexemes := ht
  have hmem := List.mem_map_of_mem (f := Token.lexeme) ht
  rw [map_lexeme_ofLexemesFrom] at hmem
  exact (List.mem_filter.mp hmem).1

theorem ordered_ofLexemes (nested : Bool) (source : String) :
    (Cursor.ofLexemes (lex nested source)).Ordered source := by
  have hplace (t : Token) (ht : t ∈ (Cursor.ofLexemes (lex nested source)).tokens) :=
    standsAt_of_mem_lex (mem_lexemes_of_mem_tokens ht)
  constructor
  case token =>
    intro t ht
    obtain ⟨pre, post, h⟩ := hplace t ht
    refine ⟨?_, h.offset_lt⟩
    show t.lexeme.start.Precedes t.lexeme.stop
    rw [h.stop]
    exact t.lexeme.start.precedes_after _
  case boundary =>
    intro t ht
    obtain ⟨pre, post, h⟩ := hplace t ht
    exact ⟨h.isBoundary_start, h.isBoundary_stop⟩
  case sorted =>
    -- The tokens are the lexemes that are no trivia, in the same order.
    show (Token.ofLexemesFrom 0 false (lex nested source)).Pairwise _
    have hlexemes := (pairwise_lexFrom nested .start source.toList).filter fun l => !l.isTrivia
    rw [← map_lexeme_ofLexemesFrom 0 false] at hlexemes
    exact List.pairwise_map.mp hlexemes
  case after_start =>
    intro t ht
    exact precedes_start_of_mem_lexFrom (mem_lexemes_of_mem_tokens ht)
  case before_eof =>
    intro t ht
    exact (precedes_endFrom_lexFrom nested .start source.toList).2 _ (mem_lexemes_of_mem_tokens ht)
  case start_eof => exact (precedes_endFrom_lexFrom nested .start source.toList).1
  case eof => exact offset_endOf_lex nested source

namespace Cursor

variable {source : String} {c d : Cursor}

theorem Ordered.of_reaches (h : c.Ordered source) (hcd : c.Reaches d) : d.Ordered source := by
  have htokens := hcd.tokens_eq
  have heof := hcd.eof_eq
  constructor
  case token => exact htokens ▸ h.token
  case boundary => exact htokens ▸ h.boundary
  case sorted => exact htokens ▸ h.sorted
  case after_start => exact htokens ▸ h.after_start
  case before_eof =>
    rw [htokens, heof]
    exact h.before_eof
  case start_eof => exact heof ▸ h.start_eof
  case eof => exact heof ▸ h.eof

/-! ### The last token and the next one -/

theorem mem_tokens_of_prev? {t : Token} (h : c.prev? = some t) : t ∈ c.tokens := by
  have hpast : t ∈ c.past := List.mem_of_mem_head? h
  exact List.mem_append_left _ (List.mem_reverse.mpr hpast)

theorem mem_tokens_of_peek? {t : Token} (h : c.peek? = some t) : t ∈ c.tokens :=
  List.mem_append_right _ (List.mem_of_getElem? h)

theorem prevStop_eq_of_prev? {t : Token} (h : c.prev? = some t) : c.prevStop = t.stop := by
  rw [prevStop, h]
  rfl

theorem prevStop_of_prev?_eq_none (h : c.prev? = none) : c.prevStop = .start := by
  rw [prevStop, h]
  rfl

theorem location_eq_of_peek? {t : Token} (h : c.peek? = some t) : c.location = t.start := by
  rw [location, h]
  rfl

theorem location_of_peek?_eq_none (h : c.peek? = none) : c.location = c.eof := by
  rw [location, h]
  rfl

theorem prevStop_next_of_peek? {t : Token} (h : c.peek? = some t) : c.next.prevStop = t.stop := by
  obtain ⟨ts, hts⟩ := peek?_eq_some_iff.mp h
  apply prevStop_eq_of_prev?
  show ((c.ahead.take 1).reverse ++ c.past).head? = some t
  rw [hts]
  rfl

theorem Ordered.prevStop_precedes_location (h : c.Ordered source) :
    c.prevStop.Precedes c.location := by
  -- Where there is no token behind the cursor or ahead of it, an end of the
  -- text takes its place.
  cases hprev : c.prev? with
  | none =>
    rw [prevStop_of_prev?_eq_none hprev]
    cases hpeek : c.peek? with
    | none =>
      rw [location_of_peek?_eq_none hpeek]
      exact h.start_eof
    | some u =>
      rw [location_eq_of_peek? hpeek]
      exact h.after_start u (mem_tokens_of_peek? hpeek)
  | some t =>
    rw [prevStop_eq_of_prev? hprev]
    cases hpeek : c.peek? with
    | none =>
      rw [location_of_peek?_eq_none hpeek]
      exact h.before_eof t (mem_tokens_of_prev? hprev)
    | some u =>
      rw [location_eq_of_peek? hpeek]
      have ht : t ∈ c.past.reverse := List.mem_reverse.mpr (List.mem_of_mem_head? hprev)
      have hu : u ∈ c.ahead := List.mem_of_getElem? hpeek
      exact (List.pairwise_append.mp h.sorted).2.2 t ht u hu

theorem Ordered.prevStop_precedes_eof (h : c.Ordered source) : c.prevStop.Precedes c.eof := by
  cases hprev : c.prev? with
  | none =>
    rw [prevStop_of_prev?_eq_none hprev]
    exact h.start_eof
  | some t =>
    rw [prevStop_eq_of_prev? hprev]
    exact h.before_eof t (mem_tokens_of_prev? hprev)

/-- The last token that was passed on the way from `c` is the next one of `c`
    or one after it. -/
theorem Passes.prev? (h : c.Passes d) :
    ∃ t u ts, c.ahead = t :: ts ∧ d.prev? = some u ∧ (u = t ∨ u ∈ ts) := by
  obtain ⟨hahead, n, rfl⟩ := h
  obtain ⟨t, ts, hts⟩ := List.exists_cons_of_ne_nil hahead
  -- What lies behind `d` are the tokens that were passed, the last one first.
  have hpast : (c.advance (n + 1)).past = (t :: ts.take n).reverse ++ c.past := by
    show (c.ahead.take (n + 1)).reverse ++ c.past = _
    rw [hts]
    rfl
  have hne : (t :: ts.take n).reverse ≠ [] := by simp
  refine ⟨t, (t :: ts.take n).getLast (by simp), ts, hts, ?_, ?_⟩
  · rw [Cursor.prev?, hpast, List.head?_append_of_ne_nil _ hne, List.head?_reverse]
    exact List.getLast?_eq_some_getLast _
  · rcases List.mem_cons.mp (List.getLast_mem (l := t :: ts.take n) (by simp)) with hu | hu
    · exact Or.inl hu
    · exact Or.inr (List.mem_of_mem_take hu)

/-- What is passed has some extent. -/
theorem Ordered.location_precedes_prevStop (h : c.Ordered source) (hcd : c.Passes d) :
    c.location.Precedes d.prevStop ∧ c.location.offset < d.prevStop.offset := by
  obtain ⟨t, u, ts, hahead, hprev, hu⟩ := hcd.prev?
  rw [location_eq_of_peek? (peek?_eq_some_iff.mpr ⟨ts, hahead⟩), prevStop_eq_of_prev? hprev]
  have ht : t ∈ c.tokens := mem_tokens_of_peek? (peek?_eq_some_iff.mpr ⟨ts, hahead⟩)
  obtain ⟨htt, htlt⟩ := h.token t ht
  rcases hu with rfl | hu
  · exact ⟨htt, htlt⟩
  · -- A later token begins where the first one ends or after it.
    have htu : t.stop.Precedes u.start := by
      have hsorted := (List.pairwise_append.mp h.sorted).2.1
      rw [hahead] at hsorted
      exact (List.pairwise_cons.mp hsorted).1 u hu
    have hutokens : u ∈ c.tokens :=
      List.mem_append_right _ (by rw [hahead]; exact List.mem_cons_of_mem t hu)
    obtain ⟨huu, _⟩ := h.token u hutokens
    have htu := htu.trans huu
    exact ⟨htt.trans htu, Nat.lt_of_lt_of_le htlt htu.offset⟩

/-- A cursor that moves on passes a token, or stays where it is. -/
theorem Reaches.passes_or_still (h : c.Reaches d) : c.Passes d ∨ d.prev? = c.prev? := by
  obtain ⟨n, rfl⟩ := h
  by_cases hmove : c.ahead ≠ [] ∧ 0 < n
  · exact .inl (passes_advance hmove.1 hmove.2)
  · have hnone : c.ahead.take n = [] := by
      rw [List.take_eq_nil_iff]
      by_cases hn : n = 0
      · exact Or.inl hn
      · exact Or.inr (Classical.byContradiction fun hahead =>
          hmove ⟨hahead, Nat.pos_of_ne_zero hn⟩)
    refine .inr ?_
    rw [Cursor.prev?, Cursor.advance, hnone]
    rfl

theorem Ordered.prevStop_precedes (h : c.Ordered source) (hcd : c.Reaches d) :
    c.prevStop.Precedes d.prevStop := by
  rcases hcd.passes_or_still with hpasses | hstill
  · exact h.prevStop_precedes_location.trans (h.location_precedes_prevStop hpasses).1
  · rw [prevStop, prevStop, hstill]
    exact .refl _

theorem Ordered.isBoundary_eof (h : c.Ordered source) : IsBoundary source c.eof.offset := by
  rw [h.eof, utf8ByteSize_eq_byteLength]
  exact isBoundary_byteLength (List.append_nil _).symm

theorem isBoundary_zero (source : String) : IsBoundary source 0 :=
  isBoundary_byteLength (List.nil_append _).symm

theorem Ordered.isBoundary_location (h : c.Ordered source) :
    IsBoundary source c.location.offset := by
  cases hpeek : c.peek? with
  | none =>
    rw [location_of_peek?_eq_none hpeek]
    exact h.isBoundary_eof
  | some t =>
    rw [location_eq_of_peek? hpeek]
    exact (h.boundary t (mem_tokens_of_peek? hpeek)).1

theorem Ordered.isBoundary_prevStop (h : c.Ordered source) :
    IsBoundary source c.prevStop.offset := by
  cases hprev : c.prev? with
  | none =>
    rw [prevStop_of_prev?_eq_none hprev]
    exact isBoundary_zero source
  | some t =>
    rw [prevStop_eq_of_prev? hprev]
    exact (h.boundary t (mem_tokens_of_prev? hprev)).2

end Cursor

end PascalOutline
