import PascalOutline.Proofs.Prototype

/-! # Where a name is expected

  The name of a routine, a property or a module follows the keyword of its
  declaration. `namePlace` says this of the tokens of a source alone: it is
  where the second token of the declaration stands, or the third one if the
  first is the word `class`. A cursor before the declaration gets there by
  passing its introduction (`namePlace_location`), which is where a header
  looks for its name, and later declarations have their names later
  (`precedes_namePlace`).
-/

namespace PascalOutline

/-- The tokens from a location on. -/
def tokensFrom (lexemes : List Lexeme) (start : Location) : List Token :=
  (Token.ofLexemes lexemes).dropWhile fun t => t.start.offset < start.offset

/-- Where the name of a declaration that begins at a location is expected: at
    the token that follows its keyword, or at the end of the text. The word
    `class` may stand before the keyword. -/
def namePlace (lexemes : List Lexeme) (start : Location) : Location :=
  let header := tokensFrom lexemes start
  let introduction := if header.head?.any (Token.isKeyword · .class_) then 2 else 1
  (header[introduction]?.map Token.start).getD (Lexer.endOf lexemes)

namespace Cursor

variable {c d : Cursor} {source : String}

/-- Passes the keyword of a declaration, and `class` before it. -/
def passIntroduction (c : Cursor) : Cursor :=
  (c.passKeyword .class_).next

theorem passIntroduction_eq (c : Cursor) :
    c.passIntroduction
      = c.advance (if c.ahead.head?.any (Token.isKeyword · .class_) then 2 else 1) := by
  have hclass : c.atKeyword .class_ = c.ahead.head?.any (Token.isKeyword · .class_) := by
    rw [atKeyword, keyword?, nthKeyword?, nth?, ← List.head?_eq_getElem?]
    cases c.ahead.head? <;> rfl
  unfold passIntroduction passKeyword nextIf
  rw [hclass]
  split
  · exact c.advance_advance 1 1
  · rfl

theorem location_advance (c : Cursor) (n : Nat) :
    (c.advance n).location = (c.ahead[n]?.map Token.start).getD c.eof := by
  rw [location, peek?, nth?, ahead_advance, List.getElem?_drop]
  rfl

/-- A later declaration has its name later. -/
theorem reaches_passIntroduction (c : Cursor) (n : Nat) :
    c.passIntroduction.Reaches (c.advance n).passIntroduction := by
  have hadvance : ∀ {i j : Nat}, i ≤ j → (c.advance i).Reaches (c.advance j) := by
    intro i j hij
    exact ⟨j - i, by rw [advance_advance, Nat.add_sub_cancel' hij]⟩
  cases n with
  | zero =>
    rw [advance_zero]
    exact .refl _
  | succ n =>
    rw [passIntroduction_eq, passIntroduction_eq, advance_advance]
    apply hadvance
    -- At most two tokens introduce the first one, at least two the other.
    split <;> split <;> omega

theorem Ordered.location_precedes (h : c.Ordered source) (hcd : c.Reaches d) :
    c.location.Precedes d.location := by
  obtain ⟨n, rfl⟩ := hcd
  cases hahead : c.ahead with
  | nil =>
    -- Nothing is passed any more.
    have hpeek : ∀ n, (c.advance n).location = c.eof := by
      intro n
      rw [location_advance, hahead]
      rfl
    rw [← c.advance_zero, advance_advance, hpeek, hpeek]
    exact .refl _
  | cons t ts =>
    cases n with
    | zero =>
      rw [advance_zero]
      exact .refl _
    | succ n =>
      have hne : c.ahead ≠ [] := hahead ▸ List.cons_ne_nil t ts
      have hpasses := passes_advance hne n.succ_pos
      exact (h.location_precedes_prevStop hpasses).1.trans
        (h.of_reaches hpasses.reaches).prevStop_precedes_location

theorem namePlace_eq {lexemes : List Lexeme} {start : Location}
    (hc : (ofLexemes lexemes).Reaches c) (h : tokensFrom lexemes start = c.ahead) :
    namePlace lexemes start = c.passIntroduction.location := by
  have heof : c.eof = Lexer.endOf lexemes := hc.eof_eq
  rw [passIntroduction_eq, location_advance, heof, ← h]
  rfl

end Cursor

section Place

variable {nested : Bool} {source : String} {c : Cursor}

/-- The tokens from a cursor on are those ahead of it. -/
theorem tokensFrom_location (hc : (Cursor.ofLexemes (Lexer.lex nested source)).Reaches c)
    (hahead : c.ahead ≠ []) : tokensFrom (Lexer.lex nested source) c.location = c.ahead := by
  obtain ⟨t, ts, hts⟩ := List.exists_cons_of_ne_nil hahead
  have htokens : Token.ofLexemes (Lexer.lex nested source) = c.past.reverse ++ c.ahead :=
    hc.tokens_eq.symm
  have hsorted := pairwise_offset_lt nested source
  rw [htokens, hts] at hsorted
  have hbefore : ∀ u ∈ c.past.reverse, decide (u.start.offset < t.start.offset) = true := by
    intro u hu
    exact decide_eq_true ((List.pairwise_append.mp hsorted).2.2 u hu t List.mem_cons_self)
  rw [tokensFrom, Cursor.location_eq_of_peek? (peek?_eq_some_iff.mpr ⟨ts, hts⟩), htokens, hts,
    List.dropWhile_append_of_pos hbefore, List.dropWhile_cons_of_neg (by simp)]

theorem namePlace_location (hc : (Cursor.ofLexemes (Lexer.lex nested source)).Reaches c)
    (hahead : c.ahead ≠ []) :
    namePlace (Lexer.lex nested source) c.location = c.passIntroduction.location :=
  Cursor.namePlace_eq hc (tokensFrom_location hc hahead)

theorem namePlace_start (nested : Bool) (source : String) :
    namePlace (Lexer.lex nested source) .start
      = (Cursor.ofLexemes (Lexer.lex nested source)).passIntroduction.location := by
  refine Cursor.namePlace_eq (.refl _) ?_
  show (Token.ofLexemes _).dropWhile _ = Token.ofLexemes _
  cases Token.ofLexemes (Lexer.lex nested source) with
  | nil => rfl
  | cons t ts => exact List.dropWhile_cons_of_neg (by simp [Location.start])

theorem exists_dropWhile_eq_drop {α : Type} (p : α → Bool) (l : List α) :
    ∃ n, l.dropWhile p = l.drop n := by
  obtain ⟨passed, hpassed⟩ := List.dropWhile_suffix (l := l) p
  refine ⟨passed.length, ?_⟩
  conv => rhs; rw [← hpassed]
  exact List.drop_left.symm

theorem tokensFrom_of_le {lexemes : List Lexeme} {start start' : Location}
    (h : start.offset ≤ start'.offset) :
    tokensFrom lexemes start'
      = (tokensFrom lexemes start).dropWhile fun t => t.start.offset < start'.offset := by
  unfold tokensFrom
  conv => lhs; rw [← List.takeWhile_append_dropWhile (l := Token.ofLexemes lexemes)
    (p := fun t => decide (t.start.offset < start.offset))]
  refine List.dropWhile_append_of_pos fun t ht => decide_eq_true ?_
  have hbefore := of_decide_eq_true (List.all_eq_true.mp List.all_takeWhile t ht)
  exact Nat.lt_of_lt_of_le hbefore h

/-- Where declarations begin in order, their names are expected in order. -/
theorem precedes_namePlace {start start' : Location} (h : start.offset ≤ start'.offset) :
    (namePlace (Lexer.lex nested source) start).Precedes
      (namePlace (Lexer.lex nested source) start') := by
  obtain ⟨n, hn⟩ := exists_dropWhile_eq_drop (fun t => decide (t.start.offset < start.offset))
    (Token.ofLexemes (Lexer.lex nested source))
  obtain ⟨m, hm⟩ := exists_dropWhile_eq_drop (fun t => decide (t.start.offset < start'.offset))
    (tokensFrom (Lexer.lex nested source) start)
  rw [← tokensFrom_of_le h] at hm
  -- Cursors before the two declarations.
  have hfirst := (Cursor.ofLexemes (Lexer.lex nested source)).reaches_advance n
  generalize hc : (Cursor.ofLexemes (Lexer.lex nested source)).advance n = c at hfirst
  have hahead : tokensFrom (Lexer.lex nested source) start = c.ahead := by
    rw [← hc]
    exact hn
  rw [hahead] at hm
  have hordered := (ordered_ofLexemes nested source).of_reaches hfirst
  have hname := c.reaches_passIntroduction m
  rw [Cursor.namePlace_eq hfirst hahead, Cursor.namePlace_eq (hfirst.advance m) hm]
  refine (hordered.of_reaches ?_).location_precedes hname
  exact ((Cursor.Reaches.refl c).passKeyword .class_).next

end Place

/-! ### Headers -/

theorem Header.nameAt_routine? {c d : Cursor} {h : Header} (hr : routine? c = some (h, d)) :
    h.nameAt = c.passIntroduction.location ∧ h.kind ≠ .other := by
  simp only [routine?, Option.bind_eq_bind, Option.bind_eq_some_iff] at hr
  obtain ⟨kind, ⟨kw, _, hkind⟩, hr⟩ := hr
  obtain ⟨rfl, rfl⟩ := Prod.mk.inj (Option.some.inj hr)
  refine ⟨rfl, ?_⟩
  show kind ≠ .other
  rintro rfl
  cases kw <;> cases hkind

theorem Header.nameAt_property? {c d : Cursor} {h : Header} (hp : property? c = some (h, d)) :
    h.nameAt = c.passIntroduction.location ∧ h.kind ≠ .other := by
  simp only [property?] at hp
  split at hp
  next =>
    obtain ⟨rfl, rfl⟩ := Prod.mk.inj (Option.some.inj hp)
    refine ⟨rfl, ?_⟩
    show EntryKind.property ≠ .other
    decide
  next => cases hp

/-- A header looks for its name where it is expected. -/
theorem Header.ReadAt.namePlace_eq {nested : Bool} {source : String} {c : Cursor} {h : Header}
    (hread : h.ReadAt c) (hc : (Cursor.ofLexemes (Lexer.lex nested source)).Reaches c) :
    namePlace (Lexer.lex nested source) h.start = h.nameAt := by
  obtain ⟨kw, hkw⟩ := Option.ne_none_iff_exists'.mp hread.keyword?_ne_none
  have hname : h.nameAt = c.passIntroduction.location := by
    obtain ⟨d, hr | hp⟩ := hread
    · exact (nameAt_routine? hr).1
    · exact (nameAt_property? hp).1
  rw [hread.start, hname]
  exact namePlace_location hc (Cursor.ahead_of_keyword? hkw)

theorem Cursor.passIntroduction_of_keyword? {c : Cursor} {kw : Keyword} (h : c.keyword? = some kw)
    (hkw : kw ≠ .class_) : c.passIntroduction = c.next := by
  have hclass : c.atKeyword .class_ = false := by
    rw [atKeyword, h]
    exact decide_eq_false fun heq => hkw (Option.some.inj heq)
  rw [passIntroduction, passKeyword, hclass]
  rfl

end PascalOutline
