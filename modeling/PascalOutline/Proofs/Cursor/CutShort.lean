import Mathlib.Tactic.Set
import PascalOutline.Proofs.Cursor.Movement

/-! # Readers at the end of a shorter text

  A header is over where its terminator stands: a semicolon, a word that
  cannot stand in it, or the end of the text. Here the tokens from the
  terminator on are taken away, so that the text ends there. Every reader of a
  phrase before the terminator then passes the same tokens as before and finds
  the same texts.

  The counts of tokens come first: a count over fewer tokens is the same count
  up to their number. Then the cursors, and last the headers.
-/

namespace PascalOutline

/-! ### Counts of tokens -/

namespace Extent

theorem groupFrom_take (opening closing : String) (depth : Nat) (ts : List Token) (k : Nat) :
    groupFrom opening closing depth (ts.take k) = min k (groupFrom opening closing depth ts) := by
  induction ts generalizing depth k with
  | nil => rw [List.take_nil, groupFrom, Nat.min_zero]
  | cons t ts ih =>
    cases k with
    | zero => rw [List.take_zero, groupFrom, Nat.zero_min]
    | succ k =>
      simp only [List.take_succ_cons, groupFrom, ih]
      grind

theorem typeExprFrom_take (stops : List String) (n : Nesting) (afterOf : Bool) (ts : List Token)
    (k : Nat) :
    typeExprFrom stops n afterOf (ts.take k) = min k (typeExprFrom stops n afterOf ts) := by
  induction ts generalizing n afterOf k with
  | nil => rw [List.take_nil, typeExprFrom, Nat.min_zero]
  | cons t ts ih =>
    cases k with
    | zero => rw [List.take_zero, typeExprFrom, Nat.zero_min]
    | succ k =>
      simp only [List.take_succ_cons, typeExprFrom]
      cases n.token stops afterOf t with
      | none => rfl
      | some n =>
        dsimp only
        rw [ih]
        omega

theorem length_genericsFrom_take (depth : Nat) (ts : List Token) (k : Nat) :
    (genericsFrom depth (ts.take k)).length = min k (genericsFrom depth ts).length := by
  induction ts generalizing depth k with
  | nil => rw [List.take_nil, genericsFrom, Nat.min_zero]
  | cons t ts ih =>
    cases k with
    | zero => rw [List.take_zero, genericsFrom, Nat.zero_min]
    | succ k =>
      simp only [List.take_succ_cons, genericsFrom, apply_ite Generics.length, Generics.succ, ih]
      grind

theorem headerRest_take (ts : List Token) (k : Nat) :
    headerRest (ts.take k) = min k (headerRest ts) := by
  induction ts generalizing k with
  | nil => rw [List.take_nil, headerRest, List.takeWhile_nil, List.length_nil, Nat.min_zero]
  | cons t ts ih =>
    cases k with
    | zero => rw [List.take_zero, Nat.zero_min]; rfl
    | succ k =>
      unfold headerRest at ih ⊢
      rw [List.take_succ_cons, List.takeWhile_cons, List.takeWhile_cons]
      split
      · rw [List.length_cons, List.length_cons, ih]
        omega
      · rfl

/-! ### Names and accessors -/

/-- Of the first tokens only those that are there pass a test. -/
theorem any_getElem?_take (p : Token → Bool) (ts : List Token) (k i : Nat) :
    (ts.take k)[i]?.any p = (decide (i < k) && ts[i]?.any p) := by
  rw [List.getElem?_take]
  by_cases h : i < k
  · rw [if_pos h, decide_eq_true h, Bool.true_and]
  · rw [if_neg h, decide_eq_false h, Bool.false_and]
    rfl

theorem any_head?_take (p : Token → Bool) (ts : List Token) (k : Nat) :
    (ts.take k).head?.any p = (decide (0 < k) && ts.head?.any p) := by
  rw [List.head?_eq_getElem?, List.head?_eq_getElem?, any_getElem?_take]

theorem lt_stop_of_mem_segments {before : Nat} {ts : List Token} {s : Segment}
    (h : s ∈ segments before ts) : before < s.stop := by
  fun_induction segments before ts with
  | case1 => cases h
  | case2 before t ts hname n rest stop more ih =>
    rcases List.mem_cons.mp h with rfl | h
    · show before < before + 1 + n
      omega
    · split at h
      · have hlater := ih h
        show before < s.stop
        omega
      · cases h
  | case3 => cases h

theorem exists_mem_segments {ts : List Token} (h : ts.head?.any Token.isName = true)
    (before : Nat) : ∃ s, s ∈ segments before ts := by
  obtain ⟨t, ht, hname⟩ := (Option.any_eq_true _ _).mp h
  obtain ⟨us, rfl⟩ := List.head?_eq_some_iff.mp ht
  rw [segments, if_pos hname]
  exact ⟨_, List.mem_cons_self⟩

/-- A dotted name is read as before when all of its parts are left. -/
theorem segments_take {before : Nat} {ts : List Token} {k : Nat}
    (h : ∀ s ∈ segments before ts, s.stop ≤ before + k) :
    segments before (ts.take k) = segments before ts := by
  fun_induction segments before ts generalizing k with
  | case1 => rw [List.take_nil, segments]
  | case2 before t ts hname n rest stop more =>
    rename_i ih
    have hstop : before + 1 + n ≤ before + k := h _ List.mem_cons_self
    obtain ⟨k, rfl⟩ : ∃ j, k = j + 1 := ⟨k - 1, by omega⟩
    have hn : (if (ts.take k).head?.any (Token.isSymbol · "<") then (generics (ts.take k)).length
        else 0) = n := by
      rw [any_head?_take, generics, length_genericsFrom_take]
      show _ = if ts.head?.any (Token.isSymbol · "<") then (genericsFrom 0 ts).length else 0
      have hle : (if ts.head?.any (Token.isSymbol · "<") then (genericsFrom 0 ts).length else 0)
        ≤ k := by
        show n ≤ k
        omega
      grind
    have hrest : (ts.take k).drop n = rest.take (k - n) := List.drop_take
    have hmore : (((ts.take k).drop n).head?.any (Token.isSymbol · ".")
        && ((ts.take k).drop n)[1]?.any Token.isName) = more := by
      rw [hrest, any_head?_take, any_getElem?_take]
      cases hvalue : more with
      | false =>
        -- What is not there with all tokens is not there with fewer.
        have hfalse := Bool.and_eq_false_iff.mp hvalue
        rcases hfalse with hdot | hname
        · rw [hdot, Bool.and_false, Bool.false_and]
        · rw [hname, Bool.and_false, Bool.and_false]
      | true =>
        -- The next part ends within the tokens that are left, and it begins
        -- after the dot.
        obtain ⟨hdot, hnext⟩ := Bool.and_eq_true_iff.mp hvalue
        have hhead : (ts.drop (n + 1)).head?.any Token.isName = true := by
          rw [List.head?_drop, ← hnext, List.getElem?_drop]
        obtain ⟨s, hs⟩ := exists_mem_segments hhead (stop + 1)
        have hlt := lt_stop_of_mem_segments hs
        have hle := h s (List.mem_cons_of_mem _ (by rw [if_pos hvalue]; exact hs))
        have hleft : 1 < k - n := by omega
        rw [hdot, hnext, decide_eq_true hleft, decide_eq_true (Nat.lt_of_succ_lt hleft)]
        rfl
    have hlater : (ts.take k).drop (n + 1) = (ts.drop (n + 1)).take (k - (n + 1)) := List.drop_take
    rw [List.take_succ_cons, segments, if_pos hname]
    simp only [hn, hmore, hlater]
    cases hvalue : more with
    | false => rfl
    | true =>
      rw [if_pos rfl]
      refine congrArg (List.cons _) (ih ?_)
      intro s hs
      have hlt := lt_stop_of_mem_segments hs
      have hle := h s (List.mem_cons_of_mem _ (by rw [if_pos hvalue]; exact hs))
      omega
  | case3 before t ts hname =>
    cases k with
    | zero => rw [List.take_zero, segments]
    | succ k => rw [List.take_succ_cons, segments, if_neg hname]

theorem stop_le_of_mem_segments {before : Nat} {ts : List Token} {s last : Segment}
    (hlast : (segments before ts).getLast? = some last) (hs : s ∈ segments before ts) :
    s.stop ≤ last.stop := by
  fun_induction segments before ts with
  | case1 => cases hs
  | case2 before t ts hname n rest stop more =>
    rename_i ih
    split at hlast
    · rename_i hmore
      rw [if_pos hmore] at hs
      rw [List.getLast?_cons] at hlast
      cases hothers : (segments (stop + 1) (ts.drop (n + 1))).getLast? with
      | none =>
        rw [List.getLast?_eq_none_iff.mp hothers] at hs
        rw [hothers] at hlast
        rw [List.mem_singleton.mp hs, ← Option.some.inj hlast]
        exact Nat.le_refl _
      | some part =>
        rw [hothers] at hlast
        obtain rfl : part = last := Option.some.inj hlast
        rcases List.mem_cons.mp hs with rfl | hs
        · -- Every later part ends later.
          have hlater := lt_stop_of_mem_segments (List.mem_of_getLast? hothers)
          show stop ≤ part.stop
          omega
        · exact ih hothers hs
    · rename_i hmore
      rw [if_neg hmore] at hs
      rw [List.mem_singleton.mp hs, ← Option.some.inj hlast]
      exact Nat.le_refl _
  | case3 => cases hs

theorem qualifiedName_take {ts : List Token} {k : Nat} (h : (qualifiedName ts).length ≤ k) :
    qualifiedName (ts.take k) = qualifiedName ts := by
  have hparts : ∀ last, (segments 0 ts).getLast? = some last →
      last.stop ≤ k ∧ segments 0 (ts.take k) = segments 0 ts := by
    intro last hlast
    have hstop : last.stop ≤ k := by
      simp only [qualifiedName, hlast] at h
      exact h
    refine ⟨hstop, segments_take fun s hs => ?_⟩
    have hle := stop_le_of_mem_segments hlast hs
    omega
  unfold qualifiedName
  dsimp only
  cases hlast : (segments 0 ts).getLast? with
  | none =>
    -- No name stands here, so none does with fewer tokens.
    have hnil := List.getLast?_eq_none_iff.mp hlast
    rw [segments_take (by rw [hnil]; exact List.forall_mem_nil _), hlast]
  | some last =>
    obtain ⟨hstop, htake⟩ := hparts last hlast
    rw [htake, hlast]
    dsimp only
    congr 1
    refine Option.map_congr fun owner howner => ?_
    have hmem : owner ∈ segments 0 ts :=
      List.dropLast_subset _ (List.mem_of_getLast? howner)
    have hle := stop_le_of_mem_segments hlast hmem
    rw [List.take_take, Nat.min_eq_left (Nat.le_trans hle hstop)]

theorem operatorName_take {ts : List Token} {k : Nat} (h : (operatorName ts).length ≤ k) :
    operatorName (ts.take k) = operatorName ts := by
  cases ts with
  | nil => rw [List.take_nil]
  | cons t ts =>
    cases k with
    | succ k => rfl
    | zero =>
      -- A name of no token is missing.
      unfold operatorName at h ⊢
      dsimp only at h ⊢
      split at h
      · cases h
      · rename_i hnone
        rw [if_neg hnone]
        rfl

theorem accessors_take {ts : List Token} {k : Nat} (h : (accessors ts).length ≤ k) :
    accessors (ts.take k) = accessors ts := by
  fun_induction accessors ts generalizing k with
  | case1 => rw [List.take_nil, accessors]
  | case2 t ts hword n others =>
    rename_i ih
    have hlength : 1 + n + others.length ≤ k := h
    obtain ⟨k, rfl⟩ : ∃ j, k = j + 1 := ⟨k - 1, by omega⟩
    have hn : typeExpr accessorWords (ts.take k) = n := by
      rw [typeExpr, typeExprFrom_take]
      show min k n = n
      omega
    have hrest : (ts.take k).drop n = (ts.drop n).take (k - n) := List.drop_take
    have hothers : accessors ((ts.take k).drop n) = others := by
      rw [hrest]
      exact ih (by show others.length ≤ k - n; omega)
    rw [List.take_succ_cons, accessors, if_pos hword]
    simp only [hn, hothers, List.take_take, Nat.min_eq_left (show n ≤ k by omega)]
  | case3 t ts hword =>
    cases k with
    | zero => rw [List.take_zero, accessors]
    | succ k => rw [List.take_succ_cons, accessors, if_neg hword]

end Extent

/-! ### Cursors -/

namespace Cursor

/-- What lies ahead of `c'` is what lies ahead of `c` up to `e`. -/
structure CutAt (c' c e : Cursor) : Prop where
  /-- The end lies ahead of `c`. -/
  reaches : c.Reaches e
  /-- The tokens before the end are left. -/
  ahead : c'.ahead = c.upTo e

theorem Reaches.left_le {c d : Cursor} (h : c.Reaches d) : d.left ≤ c.left := by
  obtain ⟨n, rfl⟩ := h
  exact Nat.sub_le _ _

theorem advance_min_left (c : Cursor) (n : Nat) : c.advance (min c.left n) = c.advance n := by
  rw [c.left_eq]
  rcases Nat.le_total c.ahead.length n with h | h
  · rw [Nat.min_eq_left h]
    apply eq_of_parts
    · show (c.ahead.take c.ahead.length).reverse ++ c.past = (c.ahead.take n).reverse ++ c.past
      rw [List.take_length, List.take_of_length_le h]
    · rw [ahead_advance, ahead_advance, List.drop_length, List.drop_eq_nil_of_le h]
    · rfl
    · rfl
  · rw [Nat.min_eq_right h]

namespace CutAt

variable {c' c d' d e : Cursor}

theorem left_eq (h : CutAt c' c e) : c'.left = c.left - e.left := by
  rw [c'.left_eq, h.ahead, upTo, List.length_take, ← c.left_eq]
  omega

theorem ahead_eq_take (h : CutAt c' c e) : c'.ahead = c.ahead.take c'.left := by
  rw [h.left_eq]
  exact h.ahead

/-- A place before the end is found after as many tokens. -/
theorem advance (h : CutAt c' c e) {n : Nat} (hr : (c.advance n).Reaches e) :
    CutAt (c'.advance n) (c.advance n) e := by
  refine ⟨hr, ?_⟩
  rw [upTo, ahead_advance, ahead_advance, left_advance, h.ahead, upTo, List.drop_take]
  congr 1
  omega

/-- A count that goes on to the end at most. -/
theorem advance_min (h : CutAt c' c e) {m n : Nat} (hr : (c.advance n).Reaches e)
    (hm : m = min c'.left n) : CutAt (c'.advance m) (c.advance n) e := by
  rw [hm, advance_min_left]
  exact h.advance hr

theorem next (h : CutAt c' c e) (hr : c.next.Reaches e) : CutAt c'.next c.next e :=
  h.advance hr

/-- The text between two places before the end. -/
theorem textUpTo (h : CutAt c' c e) (h' : CutAt d' d e) (hcd : c.Reaches d) :
    c'.textUpTo d' = c.textUpTo d := by
  have hd := h'.reaches.left_le
  have hc := hcd.left_le
  rw [Cursor.textUpTo, Cursor.textUpTo, upTo, upTo, h.ahead_eq_take, h'.left_eq, h.left_eq,
    List.take_take]
  congr 2
  omega

/-- At the end there is nothing left. -/
theorem ahead_eq_nil (h : CutAt c' e e) : c'.ahead = [] := by
  rw [h.ahead, upTo, Nat.sub_self, List.take_zero]

/-! ### Looking -/

theorem any_nth? (h : CutAt c' c e) (n : Nat) (p : Token → Bool) :
    (c'.nth? n).any p = (decide (n < c'.left) && (c.nth? n).any p) := by
  rw [nth?, h.ahead_eq_take, Extent.any_getElem?_take]
  rfl

/-- A token that is passed on the way to the end is left. -/
theorem left_pos (h : CutAt c' c e) (hcd : c.Passes d) (hde : d.Reaches e) : 0 < c'.left := by
  have hlt := hcd.left_lt
  have hle := hde.left_le
  rw [h.left_eq]
  omega

theorem peek?_eq (h : CutAt c' c e) (hpos : 0 < c'.left) : c'.peek? = c.peek? := by
  rw [peek?, peek?, nth?, nth?, h.ahead_eq_take, List.getElem?_take, if_pos hpos]

theorem atKeyword (h : CutAt c' c e) (kw : Keyword) :
    c'.atKeyword kw = (decide (0 < c'.left) && c.atKeyword kw) := by
  have hany : ∀ c : Cursor, c.atKeyword kw = (c.nth? 0).any fun t => t.isKeyword kw := by
    intro c
    rw [Cursor.atKeyword, Cursor.keyword?, nthKeyword?]
    cases c.nth? 0 with
    | none => rfl
    | some t => rfl
  rw [hany, hany, h.any_nth?]

theorem atName (h : CutAt c' c e) : c'.atName = (decide (0 < c'.left) && c.atName) :=
  h.any_nth? 0 Token.isName

/-! ### Moving -/

/-- A token is passed if a condition holds, which it does before the end if
    and only if it did. -/
theorem nextIf (h : CutAt c' c e) {p' p : Bool} (hp : p' = (decide (0 < c'.left) && p))
    (hahead : p = true → c.ahead ≠ []) (hr : (c.nextIf p).Reaches e) :
    CutAt (c'.nextIf p') (c.nextIf p) e := by
  cases p with
  | false =>
    rw [Bool.and_false] at hp
    rw [hp]
    exact h
  | true =>
    have hpos := h.left_pos (passes_next (hahead rfl)) hr
    rw [hp, decide_eq_true hpos]
    exact h.next hr

theorem passKeyword (h : CutAt c' c e) (kw : Keyword) (hr : (c.passKeyword kw).Reaches e) :
    CutAt (c'.passKeyword kw) (c.passKeyword kw) e :=
  h.nextIf (h.atKeyword kw) (fun hkw => ahead_of_keyword? (of_decide_eq_true hkw)) hr

theorem passGroup (h : CutAt c' c e) (opening closing : String)
    (hr : (c.passGroup opening closing).Reaches e) :
    CutAt (c'.passGroup opening closing) (c.passGroup opening closing) e := by
  have hsymbol : c'.atSymbol opening = (decide (0 < c'.left) && c.atSymbol opening) :=
    h.any_nth? 0 _
  cases hopening : c.atSymbol opening with
  | false =>
    rw [hopening, Bool.and_false] at hsymbol
    rw [Cursor.passGroup, Cursor.passGroup, hsymbol, hopening]
    exact h
  | true =>
    have hpos := h.left_pos (passes_passGroup hopening closing) hr
    rw [hopening, decide_eq_true hpos, Bool.and_true] at hsymbol
    rw [Cursor.passGroup, if_pos hopening] at hr
    rw [Cursor.passGroup, Cursor.passGroup, if_pos hsymbol, if_pos hopening]
    refine h.advance_min hr ?_
    rw [h.ahead_eq_take]
    exact Extent.groupFrom_take _ _ _ _ _

theorem passTypeExpr (h : CutAt c' c e) (stops : List String)
    (hr : (c.passTypeExpr stops).Reaches e) :
    CutAt (c'.passTypeExpr stops) (c.passTypeExpr stops) e := by
  refine h.advance_min hr ?_
  rw [h.ahead_eq_take]
  exact Extent.typeExprFrom_take _ _ _ _ _

theorem passHeaderRest (h : CutAt c' c e) (hr : c.passHeaderRest.Reaches e) :
    CutAt c'.passHeaderRest c.passHeaderRest e := by
  refine h.advance_min hr ?_
  rw [h.ahead_eq_take]
  exact Extent.headerRest_take _ _

theorem typeExprAfter (h : CutAt c' c e) (marks stops : List String)
    (hr : (c.typeExprAfter marks stops).2.Reaches e) :
    (c'.typeExprAfter marks stops).1 = (c.typeExprAfter marks stops).1 ∧
      CutAt (c'.typeExprAfter marks stops).2 (c.typeExprAfter marks stops).2 e := by
  have hmark : c'.nthIsSymbolIn 0 marks = (decide (0 < c'.left) && c.nthIsSymbolIn 0 marks) :=
    h.any_nth? 0 _
  cases hmarks : c.nthIsSymbolIn 0 marks with
  | false =>
    rw [hmarks, Bool.and_false] at hmark
    simp only [Cursor.typeExprAfter, hmark, hmarks]
    exact ⟨rfl, h⟩
  | true =>
    simp only [Cursor.typeExprAfter, hmarks] at hr
    have hahead : c.ahead ≠ [] := by
      obtain ⟨t, ht, _⟩ := (Option.any_eq_true _ _).mp hmarks
      exact ahead_of_nth? ht
    have hreaches := (Reaches.refl c.next).passTypeExpr stops
    have hpos := h.left_pos ((passes_next hahead).trans_reaches hreaches) hr
    rw [hmarks, decide_eq_true hpos, Bool.and_true] at hmark
    simp only [Cursor.typeExprAfter, hmark, hmarks]
    have hnext := h.next (hreaches.trans hr)
    have hexpr := hnext.passTypeExpr stops hr
    exact ⟨hnext.textUpTo hexpr hreaches, hexpr⟩

/-- A count of tokens before the end does not go past it; or nothing was taken
    away. -/
theorem le_left_or_ahead_eq (h : CutAt c' c e) {n : Nat} (hr : (c.advance n).Reaches e) :
    n ≤ c'.left ∨ c'.ahead = c.ahead := by
  have hle := hr.left_le
  rw [left_advance] at hle
  by_cases hzero : e.left = 0
  · right
    rw [h.ahead_eq_take, h.left_eq, hzero, c.left_eq]
    exact List.take_length
  · left
    rw [h.left_eq]
    omega

theorem accessors (h : CutAt c' c e) (hr : c.accessors.2.Reaches e) :
    c'.accessors.1 = c.accessors.1 ∧ CutAt c'.accessors.2 c.accessors.2 e := by
  have hsame : Extent.accessors c'.ahead = Extent.accessors c.ahead := by
    rcases h.le_left_or_ahead_eq hr with hle | hahead
    · rw [h.ahead_eq_take]
      exact Extent.accessors_take hle
    · rw [hahead]
  simp only [Cursor.accessors, hsame]
  exact ⟨trivial, h.advance hr⟩

end CutAt

end Cursor

/-! ### Headers -/

/-- `e'` says what `e` says of a header, perhaps without its last specifiers.
    Nothing is said of the places in the text. -/
structure Entry.Restates (e' e : Entry) : Prop where
  /-- They declare the same. -/
  kind : e'.kind = e.kind
  /-- Under the same name. -/
  name : e'.name = e.name
  /-- With the same owner. -/
  qualifier : e'.qualifier = e.qualifier
  /-- The header is the same. -/
  signature : e'.signature = e.signature
  /-- The parameters are the same. -/
  args : e'.args = e.args
  /-- The type is the same. -/
  typeText : e'.typeText = e.typeText
  /-- The last specifiers may be missing. -/
  specifiers : e'.specifiers <+: e.specifiers

theorem Entry.Restates.refl (e : Entry) : e.Restates e :=
  ⟨rfl, rfl, rfl, rfl, rfl, rfl, List.prefix_refl _⟩

theorem Entry.Restates.trans {e e' e'' : Entry} (h : e''.Restates e') (h' : e'.Restates e) :
    e''.Restates e := by
  constructor
  case kind => rw [h.kind, h'.kind]
  case name => rw [h.name, h'.name]
  case qualifier => rw [h.qualifier, h'.qualifier]
  case signature => rw [h.signature, h'.signature]
  case args => rw [h.args, h'.args]
  case typeText => rw [h.typeText, h'.typeText]
  case specifiers => exact h.specifiers.trans h'.specifiers

namespace Header

open Cursor

/-- The header of a routine or a property begins at a cursor. -/
def ReadAt (h : Header) (c : Cursor) : Prop :=
  ∃ d, routine? c = some (h, d) ∨ property? c = some (h, d)

variable {c' c e : Cursor}

theorem routineName_of_cutAt (h : CutAt c' c e) (kind : EntryKind)
    (hr : (c.advance (routineName kind c.ahead).length).Reaches e) :
    routineName kind c'.ahead = routineName kind c.ahead := by
  rcases h.le_left_or_ahead_eq hr with hle | hahead
  · rw [h.ahead_eq_take]
    unfold routineName at hle ⊢
    split at hle
    · rw [if_pos ‹_›, if_pos ‹_›]
      exact Extent.operatorName_take hle
    · rw [if_neg ‹_›, if_neg ‹_›]
      exact Extent.qualifiedName_take hle
  · rw [hahead]

/-- The name of a result is passed as before, since the colon after it is left
    with it. -/
theorem nextIf_namesResult_of_cutAt (h : CutAt c' c e) (kind : EntryKind)
    (hr : ((c.nextIf (namesResult kind c)).typeExprAfter [":"] []).2.Reaches e) :
    CutAt (c'.nextIf (namesResult kind c')) (c.nextIf (namesResult kind c)) e := by
  have hident := h.any_nth? 0 Token.isIdent
  have hcolon := h.any_nth? 1 fun t => t.isSymbol ":"
  have hnamed : namesResult kind c' = (decide (1 < c'.left) && namesResult kind c) := by
    unfold namesResult nthIsIdent nthIsSymbol
    rw [hident, hcolon]
    by_cases hleft : 1 < c'.left
    · rw [decide_eq_true hleft, decide_eq_true (Nat.lt_of_succ_lt hleft)]
      simp only [Bool.true_and]
    · rw [decide_eq_false hleft]
      simp only [Bool.false_and, Bool.and_false]
  cases hresult : namesResult kind c with
  | false =>
    rw [hnamed, hresult, Bool.and_false]
    exact h
  | true =>
    rw [hresult] at hr
    have hnext := h.next (((Reaches.refl c.next).typeExprAfter [":"] []).trans hr)
    -- The colon stands after the name.
    have hmark : c.next.nthIsSymbolIn 0 [":"] = true := by
      have hsymbol := (Bool.and_eq_true_iff.mp hresult).2
      rw [nthIsSymbol, nth?] at hsymbol
      rw [nthIsSymbolIn, nth?, Cursor.next, ahead_advance, List.getElem?_drop]
      simpa only [Token.isSymbolIn, List.any_cons, List.any_nil, Bool.or_false] using hsymbol
    have hpos : 0 < c'.next.left := by
      obtain ⟨t, ht, _⟩ := (Option.any_eq_true _ _).mp hmark
      refine hnext.left_pos (passes_next (ahead_of_nth? ht)) ?_
      rw [nextIf, if_pos rfl, typeExprAfter, if_pos hmark] at hr
      exact ((Reaches.refl _).passTypeExpr []).trans hr
    have hleft : 1 < c'.left := by
      rw [Cursor.next, left_advance] at hpos
      omega
    rw [hnamed, hresult, decide_eq_true hleft]
    exact hnext

theorem classSpecifier_of_cutAt (h : CutAt c' c e) (hpos : 0 < c'.left) :
    classSpecifier c' = classSpecifier c := by
  rw [classSpecifier, classSpecifier, h.atKeyword, decide_eq_true hpos, Bool.true_and]

theorem keyword?_of_cutAt (h : CutAt c' c e) (hpos : 0 < c'.left) : c'.keyword? = c.keyword? := by
  have hpeek := h.peek?_eq hpos
  rw [keyword?, nthKeyword?, keyword?, nthKeyword?]
  rw [peek?, peek?] at hpeek
  rw [hpeek]

theorem passSymbol_of_ahead_nil (h : c.ahead = []) (symbol : String) : c.passSymbol symbol = c := by
  have hsymbol : c.atSymbol symbol = false := by
    rw [atSymbol, nthIsSymbol, nth?, h]
    rfl
  rw [passSymbol, hsymbol, nextIf, if_neg Bool.false_ne_true]

theorem directives_of_ahead_nil (h : c.ahead = []) : c.directives.1 = [] := by
  rw [directives, h, Extent.directives]

/-- A routine header is read the same when the text ends with its signature. -/
theorem exists_routine?_of_cutAt {h : Header} {d : Cursor} (hr : routine? c = some (h, d)) :
    ∃ e, c.Passes e ∧ h.signature = c.textUpTo e ∧
      ∀ c', CutAt c' c e →
        ∃ h' d', routine? c' = some (h', d') ∧ h'.toEntry.Restates h.toEntry := by
  simp only [routine?, Option.bind_eq_bind, Option.bind_eq_some_iff] at hr
  obtain ⟨kind, ⟨kw, hkw, hkind⟩, hr⟩ := hr
  obtain ⟨rfl, rfl⟩ := Prod.mk.inj (Option.some.inj hr)
  -- The cursors between the phrases, each of which reaches the terminator.
  set introduced := c.passKeyword .class_ with hintroduced
  set name := routineName kind introduced.next.ahead with hname
  set atArgs := introduced.next.advance name.length with hatArgs
  set afterArgs := atArgs.passGroup "(" ")" with hafterArgs
  set typed := (afterArgs.nextIf (namesResult kind afterArgs)).typeExprAfter [":"] [] with htyped
  set e := typed.2.passHeaderRest with he
  have rtyped : typed.2.Reaches e := (Reaches.refl _).passHeaderRest
  have rresult : (afterArgs.nextIf (namesResult kind afterArgs)).Reaches e :=
    ((Reaches.refl _).typeExprAfter [":"] []).trans rtyped
  have rafterArgs : afterArgs.Reaches e := ((Reaches.refl _).nextIf _).trans rresult
  have ratArgs : atArgs.Reaches e := ((Reaches.refl _).passGroup "(" ")").trans rafterArgs
  have ratName : introduced.next.Reaches e := ((Reaches.refl _).advance _).trans ratArgs
  have hpasses : introduced.Passes e :=
    (passes_next (ahead_of_keyword? hkw)).trans_reaches ratName
  have hstart : c.Reaches introduced := (Reaches.refl c).passKeyword .class_
  refine ⟨e, hstart.trans_passes hpasses, rfl, ?_⟩
  intro c' h
  have h₁ := h.passKeyword .class_ hpasses.reaches
  have hpos := h₁.left_pos hpasses (.refl e)
  have h₂ := h₁.next ratName
  have hsame := routineName_of_cutAt h₂ kind ratArgs
  have h₃ := h₂.advance ratArgs
  have h₄ := h₃.passGroup "(" ")" rafterArgs
  have h₅ := nextIf_namesResult_of_cutAt h₄ kind rtyped
  obtain ⟨htext, h₆⟩ := h₅.typeExprAfter [":"] [] rtyped
  have h₇ := h₆.passHeaderRest (.refl e)
  have hkind' : (c'.passKeyword .class_).keyword?.bind routineKind? = some kind := by
    rw [keyword?_of_cutAt h₁ hpos, hkw]
    exact hkind
  have hclass := classSpecifier_of_cutAt h (h.left_pos (hstart.trans_passes hpasses) (.refl e))
  simp only [routine?, hkind', Option.bind_eq_bind, Option.bind_some]
  refine ⟨_, _, rfl, ?_⟩
  rw [hsame]
  constructor
  case kind | name | qualifier => rfl
  case signature => exact h.textUpTo h₇ (hstart.trans hpasses.reaches)
  case args => exact h₃.textUpTo h₄ ((Reaches.refl _).passGroup "(" ")")
  case typeText => exact htext
  case specifiers =>
    -- Nothing comes after the signature any more.
    have hnil := h₇.ahead_eq_nil
    rw [passSymbol_of_ahead_nil hnil, directives_of_ahead_nil hnil, List.append_nil, hclass]
    exact List.prefix_append _ _

/-- A property header is read the same when the text ends with its signature. -/
theorem exists_property?_of_cutAt {h : Header} {d : Cursor} (hp : property? c = some (h, d)) :
    ∃ e, c.Passes e ∧ h.signature = c.textUpTo e ∧
      ∀ c', CutAt c' c e →
        ∃ h' d', property? c' = some (h', d') ∧ h'.toEntry.Restates h.toEntry := by
  simp only [property?] at hp
  split at hp
  case isFalse => cases hp
  case isTrue hproperty =>
  obtain ⟨rfl, rfl⟩ := Prod.mk.inj (Option.some.inj hp)
  have hkw : (c.passKeyword .class_).keyword? = some .property := of_decide_eq_true hproperty
  set introduced := c.passKeyword .class_ with hintroduced
  set atArgs := introduced.next.nextIf introduced.next.atName with hatArgs
  set afterArgs := atArgs.passGroup "[" "]" with hafterArgs
  set typed := afterArgs.typeExprAfter [":"] Extent.accessorWords with htyped
  set read := typed.2.accessors with hread
  set e := read.2.passHeaderRest with he
  have rread : read.2.Reaches e := (Reaches.refl _).passHeaderRest
  have rtyped : typed.2.Reaches e := (Reaches.refl _).accessors.trans rread
  have rafterArgs : afterArgs.Reaches e :=
    ((Reaches.refl _).typeExprAfter [":"] Extent.accessorWords).trans rtyped
  have ratArgs : atArgs.Reaches e := ((Reaches.refl _).passGroup "[" "]").trans rafterArgs
  have ratName : introduced.next.Reaches e := ((Reaches.refl _).nextIf _).trans ratArgs
  have hpasses : introduced.Passes e :=
    (passes_next (ahead_of_keyword? hkw)).trans_reaches ratName
  have hstart : c.Reaches introduced := (Reaches.refl c).passKeyword .class_
  refine ⟨e, hstart.trans_passes hpasses, rfl, ?_⟩
  intro c' h
  have h₁ := h.passKeyword .class_ hpasses.reaches
  have hpos := h₁.left_pos hpasses (.refl e)
  have h₂ := h₁.next ratName
  have h₃ := h₂.nextIf h₂.atName ahead_of_atName ratArgs
  have h₄ := h₃.passGroup "[" "]" rafterArgs
  obtain ⟨htext, h₅⟩ := h₄.typeExprAfter [":"] Extent.accessorWords rtyped
  obtain ⟨hspecifiers, h₆⟩ := h₅.accessors rread
  have h₇ := h₆.passHeaderRest (.refl e)
  have hkw' : (c'.passKeyword .class_).keyword? = some .property := by
    rw [keyword?_of_cutAt h₁ hpos]
    exact hkw
  have hproperty' : (c'.passKeyword .class_).atKeyword .property = true := decide_eq_true hkw'
  have hclass := classSpecifier_of_cutAt h (h.left_pos (hstart.trans_passes hpasses) (.refl e))
  simp only [property?, hproperty', if_true]
  refine ⟨_, _, rfl, ?_⟩
  constructor
  case kind | qualifier => rfl
  case name => exact h₂.textUpTo h₃ ((Reaches.refl _).nextIf _)
  case signature => exact h.textUpTo h₇ (hstart.trans hpasses.reaches)
  case args => exact h₃.textUpTo h₄ ((Reaches.refl _).passGroup "[" "]")
  case typeText => exact htext
  case specifiers =>
    have hnil := h₇.ahead_eq_nil
    have hmarks : Extent.defaultMarks [] = 0 := rfl
    dsimp only [toEntry]
    rw [passSymbol_of_ahead_nil hnil, hnil, hmarks, Nat.mul_zero, advance_zero,
      directives_of_ahead_nil hnil, List.append_nil, List.replicate_zero, List.append_nil, hclass,
      hspecifiers, List.append_assoc _ (List.replicate _ _)]
    exact List.prefix_append _ _

/-- A header is read the same when the text ends with its signature. -/
theorem ReadAt.exists_cutAt {h : Header} (hread : h.ReadAt c) :
    ∃ e, c.Passes e ∧ h.signature = c.textUpTo e ∧
      ∀ c', CutAt c' c e → ∃ h' : Header, h'.ReadAt c' ∧ h'.toEntry.Restates h.toEntry := by
  obtain ⟨d, hroutine | hproperty⟩ := hread
  · obtain ⟨e, hpasses, hsignature, hcut⟩ := exists_routine?_of_cutAt hroutine
    refine ⟨e, hpasses, hsignature, ?_⟩
    intro c' hc'
    obtain ⟨h', d', hread', hrestates⟩ := hcut c' hc'
    exact ⟨h', ⟨d', Or.inl hread'⟩, hrestates⟩
  · obtain ⟨e, hpasses, hsignature, hcut⟩ := exists_property?_of_cutAt hproperty
    refine ⟨e, hpasses, hsignature, ?_⟩
    intro c' hc'
    obtain ⟨h', d', hread', hrestates⟩ := hcut c' hc'
    exact ⟨h', ⟨d', Or.inr hread'⟩, hrestates⟩

end Header

end PascalOutline
