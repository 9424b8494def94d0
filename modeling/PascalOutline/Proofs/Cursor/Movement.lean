import PascalOutline.Token.Clause

/-! # Where a cursor can get to

  Everything that reads tokens moves its cursor forward. A cursor *reaches*
  another one of the same source that stands at the same place or further on,
  and *passes* to it when there is at least one token in between. The readers
  of phrases, headers and lists only reach; the headers and the values of an
  enumeration pass.

  The two relations are stated through `advance`, so whatever `advance` keeps
  (the tokens of the source and its end) is kept by every reader.
-/

namespace PascalOutline.Cursor

/-! ### Advancing -/

theorem eq_of_parts {c d : Cursor} (hpast : c.past = d.past) (hahead : c.ahead = d.ahead)
    (heof : c.eof = d.eof) (hcount : c.lexemeCount = d.lexemeCount) : c = d := by
  obtain ⟨cpast, cahead, ceof, ccount, cleft, hcleft⟩ := c
  obtain ⟨dpast, dahead, deof, dcount, dleft, hdleft⟩ := d
  -- The number of tokens left follows from the tokens ahead.
  simp only at hpast hahead heof hcount
  subst hpast hahead heof hcount hcleft hdleft
  rfl

theorem advance_zero (c : Cursor) : c.advance 0 = c :=
  eq_of_parts rfl rfl rfl rfl

theorem advance_advance (c : Cursor) (m n : Nat) : (c.advance m).advance n = c.advance (m + n) := by
  apply eq_of_parts
  · show ((c.ahead.drop m).take n).reverse ++ ((c.ahead.take m).reverse ++ c.past)
      = (c.ahead.take (m + n)).reverse ++ c.past
    rw [← List.append_assoc, ← List.reverse_append, List.take_add]
  · show (c.ahead.drop m).drop n = c.ahead.drop (m + n)
    rw [List.drop_drop]
  · rfl
  · rfl

@[simp] theorem ahead_advance (c : Cursor) (n : Nat) : (c.advance n).ahead = c.ahead.drop n := rfl

@[simp] theorem left_advance (c : Cursor) (n : Nat) : (c.advance n).left = c.left - n := rfl

theorem tokens_advance (c : Cursor) (n : Nat) : (c.advance n).tokens = c.tokens := by
  show ((c.ahead.take n).reverse ++ c.past).reverse ++ c.ahead.drop n = c.past.reverse ++ c.ahead
  rw [List.reverse_append, List.reverse_reverse, List.append_assoc, List.take_append_drop]

theorem pos_advance (c : Cursor) (n : Nat) : (c.advance n).pos = c.pos + min n c.ahead.length := by
  show ((c.ahead.take n).reverse ++ c.past).length = c.past.length + min n c.ahead.length
  rw [List.length_append, List.length_reverse, List.length_take, Nat.add_comm]

/-! ### Reaching and passing -/

/-- `d` stands where `c` stands or further on. -/
def Reaches (c d : Cursor) : Prop :=
  ∃ n, d = c.advance n

/-- `d` stands at least one token further on than `c`. -/
def Passes (c d : Cursor) : Prop :=
  c.ahead ≠ [] ∧ ∃ n, d = c.advance (n + 1)

variable {c d e : Cursor}

theorem Reaches.refl (c : Cursor) : c.Reaches c :=
  ⟨0, c.advance_zero.symm⟩

theorem Reaches.trans (hcd : c.Reaches d) (hde : d.Reaches e) : c.Reaches e := by
  obtain ⟨m, rfl⟩ := hcd
  obtain ⟨n, rfl⟩ := hde
  exact ⟨m + n, c.advance_advance m n⟩

theorem Passes.reaches (h : c.Passes d) : c.Reaches d := by
  obtain ⟨_, n, rfl⟩ := h
  exact ⟨n + 1, rfl⟩

theorem Passes.trans_reaches (hcd : c.Passes d) (hde : d.Reaches e) : c.Passes e := by
  obtain ⟨hahead, m, rfl⟩ := hcd
  obtain ⟨n, rfl⟩ := hde
  refine ⟨hahead, m + n, ?_⟩
  rw [advance_advance]
  congr 1
  omega

theorem Reaches.trans_passes (hcd : c.Reaches d) (hde : d.Passes e) : c.Passes e := by
  obtain ⟨m, rfl⟩ := hcd
  obtain ⟨hahead, n, rfl⟩ := hde
  refine ⟨?_, m + n, ?_⟩
  · -- Without tokens ahead of `c` there are none ahead of what it reaches.
    intro hnil
    exact hahead (by rw [ahead_advance, hnil, List.drop_nil])
  · rw [advance_advance]
    rfl

theorem reaches_advance (c : Cursor) (n : Nat) : c.Reaches (c.advance n) :=
  ⟨n, rfl⟩

theorem passes_advance (h : c.ahead ≠ []) {n : Nat} (hn : 0 < n) : c.Passes (c.advance n) := by
  refine ⟨h, n - 1, ?_⟩
  rw [Nat.sub_add_cancel hn]

theorem passes_next (h : c.ahead ≠ []) : c.Passes c.next :=
  passes_advance h Nat.zero_lt_one

theorem Reaches.passes_next (h : c.Reaches d) (hahead : c.ahead ≠ []) : c.Passes d.next := by
  obtain ⟨n, rfl⟩ := h
  exact ⟨hahead, n, c.advance_advance n 1⟩

theorem Passes.left_lt (h : c.Passes d) : d.left < c.left := by
  obtain ⟨hahead, n, rfl⟩ := h
  have hpos : 0 < c.left := by
    rw [c.left_eq]
    exact List.length_pos_iff.mpr hahead
  rw [left_advance]
  omega

theorem Passes.pos_lt (h : c.Passes d) : c.pos < d.pos := by
  obtain ⟨hahead, n, rfl⟩ := h
  have hpos : 0 < c.ahead.length := List.length_pos_iff.mpr hahead
  rw [pos_advance]
  omega

theorem Reaches.pos_le (h : c.Reaches d) : c.pos ≤ d.pos := by
  obtain ⟨n, rfl⟩ := h
  rw [pos_advance]
  exact Nat.le_add_right _ _

theorem Reaches.tokens_eq (h : c.Reaches d) : d.tokens = c.tokens := by
  obtain ⟨n, rfl⟩ := h
  exact c.tokens_advance n

theorem Reaches.eof_eq (h : c.Reaches d) : d.eof = c.eof := by
  obtain ⟨n, rfl⟩ := h
  rfl

/-! ### Readers of phrases -/

namespace Reaches

theorem advance (h : c.Reaches d) (n : Nat) : c.Reaches (d.advance n) :=
  h.trans (d.reaches_advance n)

theorem next (h : c.Reaches d) : c.Reaches d.next :=
  h.advance 1

theorem nextIf (h : c.Reaches d) (condition : Bool) : c.Reaches (d.nextIf condition) := by
  unfold Cursor.nextIf
  split
  · exact h.next
  · exact h

theorem passSymbol (h : c.Reaches d) (symbol : String) : c.Reaches (d.passSymbol symbol) :=
  h.nextIf _

theorem passKeyword (h : c.Reaches d) (kw : Keyword) : c.Reaches (d.passKeyword kw) :=
  h.nextIf _

theorem passWord (h : c.Reaches d) (word : String) : c.Reaches (d.passWord word) :=
  h.nextIf _

theorem passGroup (h : c.Reaches d) (opening closing : String) :
    c.Reaches (d.passGroup opening closing) := by
  unfold Cursor.passGroup
  split
  · exact h.advance _
  · exact h

theorem passTypeExpr (h : c.Reaches d) (stops : List String) : c.Reaches (d.passTypeExpr stops) :=
  h.advance _

theorem typeExprAfter (h : c.Reaches d) (marks stops : List String) :
    c.Reaches (d.typeExprAfter marks stops).2 := by
  unfold Cursor.typeExprAfter
  split
  · exact h.next.passTypeExpr stops
  · exact h

theorem passHeaderRest (h : c.Reaches d) : c.Reaches d.passHeaderRest :=
  h.advance _

theorem directives (h : c.Reaches d) : c.Reaches d.directives.2 :=
  h.advance _

theorem accessors (h : c.Reaches d) : c.Reaches d.accessors.2 :=
  h.advance _

end Reaches

/-! ### What stands at the cursor -/

theorem ahead_ne_nil_of_atEnd (h : c.atEnd = false) : c.ahead ≠ [] := by
  intro hnil
  rw [atEnd, hnil] at h
  cases h

theorem ahead_of_nth? {n : Nat} {t : Token} (h : c.nth? n = some t) : c.ahead ≠ [] := by
  intro hnil
  rw [nth?, hnil] at h
  cases h

theorem ahead_of_keyword? {kw : Keyword} (h : c.keyword? = some kw) : c.ahead ≠ [] := by
  obtain ⟨t, ht, _⟩ := Option.bind_eq_some_iff.mp h
  exact ahead_of_nth? ht

theorem ahead_of_atSymbol {symbol : String} (h : c.atSymbol symbol = true) : c.ahead ≠ [] := by
  obtain ⟨t, ht, _⟩ := (Option.any_eq_true _ _).mp h
  exact ahead_of_nth? ht

theorem ahead_of_atName (h : c.atName = true) : c.ahead ≠ [] := by
  obtain ⟨t, ht, _⟩ := (Option.any_eq_true _ _).mp h
  exact ahead_of_nth? ht

theorem ahead_next_of_nthIsName (h : c.nthIsName 1 = true) : c.next.ahead ≠ [] := by
  obtain ⟨t, ht, _⟩ := (Option.any_eq_true _ _).mp h
  have hnext : c.next.nth? 0 = some t := by
    rw [nth?, next, ahead_advance, List.getElem?_drop]
    exact ht
  exact ahead_of_nth? hnext

theorem keyword?_of_isSymbol {t : Token} {symbol : String} (h : t.isSymbol symbol = true) :
    t.keyword? = none := by
  have hkind : t.lexeme.kind = .symbol := by
    simp only [Token.isSymbol, Lexeme.isSymbol, Bool.and_eq_true, decide_eq_true_eq] at h
    exact h.1
  simp only [Token.keyword?, Lexeme.keyword?, hkind]

/-- A group that begins here is not empty: its opening bracket is no keyword. -/
theorem passes_passGroup {opening : String} (h : c.atSymbol opening = true) (closing : String) :
    c.Passes (c.passGroup opening closing) := by
  rw [passGroup, if_pos h]
  refine passes_advance (ahead_of_atSymbol h) ?_
  obtain ⟨t, ht, hsymbol⟩ := (Option.any_eq_true _ _).mp h
  -- A group is given up at a keyword that ends a header; a bracket is none.
  have hkeyword : t.isKeywordThat Keyword.endsHeader = false := by
    rw [Token.isKeywordThat, keyword?_of_isSymbol hsymbol]
    rfl
  rw [nth?, ← List.head?_eq_getElem?] at ht
  obtain ⟨ts, hts⟩ := List.head?_eq_some_iff.mp ht
  rw [hts, Extent.group, Extent.groupFrom, hkeyword, hsymbol]
  show 0 < 1 + Extent.groupFrom opening closing 1 ts
  omega

end PascalOutline.Cursor

namespace PascalOutline

/-! ### Headers -/

/-- A header begins where its cursor stands and ends with the last token that
    was passed, and at least one token was. -/
structure Header.Covers (h : Header) (c d : Cursor) : Prop where
  /-- There are tokens in it. -/
  passes : c.Passes d
  /-- It begins at the cursor. -/
  start : h.start = c.location
  /-- It ends with the last token. -/
  stop : h.stop = d.prevStop

theorem Header.covers_routine? {c d : Cursor} {h : Header} (hr : Header.routine? c = some (h, d)) :
    h.Covers c d := by
  simp only [Header.routine?, Option.bind_eq_bind, Option.bind_eq_some_iff] at hr
  obtain ⟨kind, ⟨kw, hkw, _⟩, hr⟩ := hr
  obtain ⟨rfl, rfl⟩ := Prod.mk.inj (Option.some.inj hr)
  refine ⟨?_, rfl, rfl⟩
  -- The keyword of the routine is passed; every reader after it only reaches.
  have hstart : c.Passes (c.passKeyword .class_).next :=
    ((Cursor.Reaches.refl c).passKeyword .class_).trans_passes
      (Cursor.passes_next (Cursor.ahead_of_keyword? hkw))
  refine hstart.trans_reaches (Cursor.Reaches.directives (Cursor.Reaches.passSymbol ?_ ";"))
  refine Cursor.Reaches.passHeaderRest (Cursor.Reaches.typeExprAfter ?_ [":"] [])
  exact (((Cursor.Reaches.refl _).advance _).passGroup "(" ")").nextIf _

theorem Header.covers_property? {c d : Cursor} {h : Header}
    (hp : Header.property? c = some (h, d)) : h.Covers c d := by
  simp only [Header.property?] at hp
  split at hp
  next hkw =>
    obtain ⟨rfl, rfl⟩ := Prod.mk.inj (Option.some.inj hp)
    refine ⟨?_, rfl, rfl⟩
    have hkw : (c.passKeyword .class_).keyword? = some .property := of_decide_eq_true hkw
    have hstart : c.Passes (c.passKeyword .class_).next :=
      ((Cursor.Reaches.refl c).passKeyword .class_).trans_passes
        (Cursor.passes_next (Cursor.ahead_of_keyword? hkw))
    refine hstart.trans_reaches (Cursor.Reaches.directives (Cursor.Reaches.advance ?_ _))
    refine Cursor.Reaches.passSymbol (Cursor.Reaches.passHeaderRest ?_) ";"
    refine Cursor.Reaches.accessors (Cursor.Reaches.typeExprAfter ?_ [":"] Extent.accessorWords)
    exact ((Cursor.Reaches.refl _).nextIf _).passGroup "[" "]"
  next => cases hp

/-! ### Lists -/

/-- The values of an enumeration follow each other from one cursor to
    another. -/
inductive ValuesBetween : Cursor → List Clause.EnumValue → Cursor → Prop where
  /-- No value. -/
  | nil {c d : Cursor} (rest : c.Reaches d) : ValuesBetween c [] d
  /-- A value of at least one token, and the values after it. -/
  | cons {c d : Cursor} {value : Clause.EnumValue} {others : List Clause.EnumValue}
      (before : c.Reaches value.before) (value_passes : value.before.Passes value.after)
      (after : ValuesBetween value.after others d) : ValuesBetween c (value :: others) d

theorem ValuesBetween.of_reaches {c c' d : Cursor} {values : List Clause.EnumValue}
    (hc : c.Reaches c') (h : ValuesBetween c' values d) : ValuesBetween c values d := by
  cases h with
  | nil rest => exact .nil (hc.trans rest)
  | cons before value_passes after => exact .cons (hc.trans before) value_passes after

theorem ValuesBetween.reaches {c d : Cursor} {values : List Clause.EnumValue}
    (h : ValuesBetween c values d) : c.Reaches d := by
  induction h with
  | nil rest => exact rest
  | cons before value_passes _ ih => exact before.trans (value_passes.reaches.trans ih)

theorem valuesBetween_enumValues (c : Cursor) :
    ValuesBetween c (Clause.enumValues c).1 (Clause.enumValues c).2 := by
  fun_induction Clause.enumValues c with
  | case1 c _ => exact .nil (.refl c)
  | case2 c _ _ _ _ => exact .nil (Cursor.Reaches.refl c).next
  | case3 c _ _ _ _ _ => exact .nil (.refl c)
  | case4 c t ts hahead _ _ _ value after others ih =>
    -- A value is a name and what follows it up to and with the comma.
    refine .cons (.refl c) ?_ ih
    have hne : c.ahead ≠ [] := by
      rw [hahead]
      exact List.cons_ne_nil t ts
    exact (Cursor.passes_next hne).trans_reaches
      (((Cursor.Reaches.refl c.next).typeExprAfter ["=", ":="] [","]).passSymbol ",")
  | case5 c t ts hahead _ _ _ ih => exact ih.of_reaches (Cursor.Reaches.refl c).next

/-- Single tokens that follow each other from one cursor to another. -/
inductive TokensBetween : Cursor → List Token → Cursor → Prop where
  /-- No token. -/
  | nil {c d : Cursor} (rest : c.Reaches d) : TokensBetween c [] d
  /-- A token, and those after it. -/
  | cons {c c' d : Cursor} {t : Token} {ts : List Token} (before : c.Reaches c')
      (here : c'.peek? = some t) (after : TokensBetween c'.next ts d) :
      TokensBetween c (t :: ts) d

theorem TokensBetween.of_reaches {c c' d : Cursor} {ts : List Token}
    (hc : c.Reaches c') (h : TokensBetween c' ts d) : TokensBetween c ts d := by
  cases h with
  | nil rest => exact .nil (hc.trans rest)
  | cons before here after => exact .cons (hc.trans before) here after

theorem TokensBetween.reaches {c d : Cursor} {ts : List Token} (h : TokensBetween c ts d) :
    c.Reaches d := by
  induction h with
  | nil rest => exact rest
  | cons before _ _ ih => exact before.next.trans ih

theorem TokensBetween.passes {c d : Cursor} {ts : List Token} (h : TokensBetween c ts d)
    (hne : ts ≠ []) : c.Passes d := by
  cases h with
  | nil _ => exact absurd rfl hne
  | cons before here after =>
    have hnext := Cursor.passes_next (Cursor.ahead_of_nth? here)
    exact (before.trans_passes hnext).trans_reaches after.reaches

theorem peek?_eq_some_iff {c : Cursor} {t : Token} :
    c.peek? = some t ↔ ∃ ts, c.ahead = t :: ts := by
  rw [Cursor.peek?, Cursor.nth?, ← List.head?_eq_getElem?]
  exact List.head?_eq_some_iff

theorem tokensBetween_declaredNames (c : Cursor) {ts : List Token} (h : c.ahead = ts) :
    TokensBetween c (Clause.declaredNames ts).1 (c.advance (Clause.declaredNames ts).2) := by
  fun_induction Clause.declaredNames ts generalizing c with
  | case1 => exact .nil (c.reaches_advance 0)
  | case2 t _ => exact .cons (.refl c) (peek?_eq_some_iff.mpr ⟨_, h⟩) (.nil (.refl c.next))
  | case3 t _ => exact .nil (c.reaches_advance 0)
  | case4 t s ts _ _ others n hothers ih =>
    -- A name and a comma; the others begin two tokens further on.
    have hahead : (c.advance 2).ahead = ts := by
      rw [Cursor.ahead_advance, h]
      rfl
    have hrest := ih (c.advance 2) hahead
    rw [hothers, Cursor.advance_advance] at hrest
    refine .cons (.refl c) (peek?_eq_some_iff.mpr ⟨_, h⟩) (hrest.of_reaches ?_)
    exact ⟨1, (c.advance_advance 1 1).symm⟩
  | case5 t s ts _ _ => exact .cons (.refl c) (peek?_eq_some_iff.mpr ⟨_, h⟩) (.nil (.refl c.next))
  | case6 t s ts _ => exact .nil (c.reaches_advance 0)

end PascalOutline
