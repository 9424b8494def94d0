import PascalOutline.Proofs.Bounds.Text
import PascalOutline.Prototype
import PascalOutline.Token.Clause

/-! # Counting brackets

  The readers of phrases count open brackets and blocks in numbers of 32 bits.
  Each token opens or closes at most one of them, so no count exceeds the number
  of tokens, and none is taken below zero.
-/

namespace PascalOutline

/-! ### Groups in brackets -/

namespace Extent

/-- The length of a group in brackets, with a checked count of open brackets. -/
def checkedGroupFrom (opening closing : String) (depth : Nat) : List Token → Option Nat
  | [] => some 0
  | t :: ts =>
    if t.isKeywordThat Keyword.endsHeader then some 0
    else if t.isSymbol opening then
      (Word32.add? depth 1).bind fun inner =>
        (checkedGroupFrom opening closing inner ts).map (1 + ·)
    else if t.isSymbol closing then
      if depth ≤ 1 then some 1
      else (Word32.sub? depth 1).bind fun outer =>
        (checkedGroupFrom opening closing outer ts).map (1 + ·)
    else (checkedGroupFrom opening closing depth ts).map (1 + ·)

theorem checkedGroupFrom_eq (opening closing : String) {depth : Nat} {ts : List Token}
    (h : depth + ts.length ≤ Word32.max) :
    checkedGroupFrom opening closing depth ts = some (groupFrom opening closing depth ts) := by
  fun_induction groupFrom opening closing depth ts with
  | case1 => rfl
  | case2 depth t ts hend => rw [checkedGroupFrom, if_pos hend]
  | case3 depth t ts hend hopen ih =>
    rw [List.length_cons] at h
    rw [checkedGroupFrom, if_neg hend, if_pos hopen, Word32.add?_of_le (by omega), Option.bind_some,
      ih (by omega), Option.map_some]
  | case4 depth t ts hend hopen hclose hlast =>
    rw [checkedGroupFrom, if_neg hend, if_neg hopen, if_pos hclose, if_pos hlast]
  | case5 depth t ts hend hopen hclose hmore ih =>
    rw [List.length_cons] at h
    rw [checkedGroupFrom, if_neg hend, if_neg hopen, if_pos hclose, if_neg hmore,
      Word32.sub?_of_le (by omega), Option.bind_some, ih (by omega), Option.map_some]
  | case6 depth t ts hend hopen hclose ih =>
    rw [List.length_cons] at h
    rw [checkedGroupFrom, if_neg hend, if_neg hopen, if_neg hclose, ih (by omega), Option.map_some]

/-! ### Type expressions -/

namespace Nesting

/-- The nesting after a symbol, with checked counts. -/
def checkedSymbol (n : Nesting) (t : Token) : Option (Option Nesting) :=
  if t.isSymbolIn openBrackets then
    (Word32.add? n.brackets 1).map fun brackets => some { n with brackets }
  else if t.isSymbolIn closeBrackets then
    if n.brackets = 0 then some none
    else (Word32.sub? n.brackets 1).map fun brackets => some { n with brackets }
  else if t.isSymbol ";" && n.isOuter then some none
  else some (some n)

/-- The nesting after a keyword, with checked counts. Most keywords count
    nothing. -/
def checkedKeyword (n : Nesting) (afterOf : Bool) : Keyword → Option (Option Nesting)
  | .record => (Word32.add? n.blocks 1).map fun blocks => some { n with blocks }
  | .object =>
    if afterOf then some (some n)
    else (Word32.add? n.blocks 1).map fun blocks => some { n with blocks }
  | .end_ =>
    if n.blocks = 0 then some none
    else (Word32.sub? n.blocks 1).map fun blocks => some { n with blocks }
  | kw => some (n.keyword afterOf kw)

/-- The nesting after a token, with checked counts. -/
def checkedToken (n : Nesting) (stops : List String) (afterOf : Bool) (t : Token) :
    Option (Option Nesting) :=
  if n.isOuter && isOneOf t.text stops then some none
  else match t.keyword? with
    | some kw => n.checkedKeyword afterOf kw
    | none => n.checkedSymbol t

/-- Both counts are below a bound. -/
structure Below (bound : Nat) (n : Nesting) : Prop where
  /-- The brackets. -/
  brackets : n.brackets < bound
  /-- The blocks. -/
  blocks : n.blocks < bound

variable {n n' : Nesting} {bound : Nat}

theorem Below.mono (h : n.Below bound) {bound' : Nat} (hle : bound ≤ bound') : n.Below bound' :=
  ⟨Nat.lt_of_lt_of_le h.brackets hle, Nat.lt_of_lt_of_le h.blocks hle⟩

theorem checkedSymbol_eq (h : n.Below Word32.max) (t : Token) :
    n.checkedSymbol t = some (n.symbol t) := by
  unfold checkedSymbol symbol
  split
  · rw [Word32.add?_of_le h.brackets]
    rfl
  · split
    · split
      · rfl
      · rw [Word32.sub?_of_le (by omega)]
        rfl
    · split <;> rfl

theorem checkedKeyword_eq (h : n.Below Word32.max) (afterOf : Bool) (kw : Keyword) :
    n.checkedKeyword afterOf kw = some (n.keyword afterOf kw) := by
  unfold checkedKeyword
  split
  · rw [Word32.add?_of_le h.blocks]
    rfl
  · unfold keyword
    split
    · rfl
    · rw [Word32.add?_of_le h.blocks]
      rfl
  · unfold keyword
    split
    · rfl
    · rw [Word32.sub?_of_le (by omega)]
      rfl
  · rfl

theorem checkedToken_eq (h : n.Below Word32.max) (stops : List String) (afterOf : Bool)
    (t : Token) : n.checkedToken stops afterOf t = some (n.token stops afterOf t) := by
  unfold checkedToken token
  split
  · rfl
  · cases t.keyword? with
    | some kw => exact checkedKeyword_eq h afterOf kw
    | none => exact checkedSymbol_eq h t

theorem Below.symbol (h : n.Below bound) {t : Token} (hn : n.symbol t = some n') :
    n'.Below (bound + 1) := by
  have hbrackets := h.brackets
  have hblocks := h.blocks
  unfold Nesting.symbol at hn
  split at hn
  · cases hn
    exact ⟨Nat.succ_lt_succ hbrackets, Nat.lt_succ_of_lt hblocks⟩
  · split at hn
    · split at hn
      · cases hn
      · cases hn
        exact ⟨show n.brackets - 1 < bound + 1 by omega, Nat.lt_succ_of_lt hblocks⟩
    · split at hn
      · cases hn
      · cases hn
        exact h.mono (Nat.le_succ bound)

theorem Below.keyword (h : n.Below bound) {afterOf : Bool} {kw : Keyword}
    (hn : n.keyword afterOf kw = some n') : n'.Below (bound + 1) := by
  have hbrackets := h.brackets
  have hblocks := h.blocks
  have hsame : n.Below (bound + 1) := h.mono (Nat.le_succ bound)
  unfold Nesting.keyword at hn
  split at hn
  · cases hn
    exact ⟨Nat.lt_succ_of_lt hbrackets, Nat.succ_lt_succ hblocks⟩
  · split at hn
    · cases hn
      exact hsame
    · cases hn
      exact ⟨Nat.lt_succ_of_lt hbrackets, Nat.succ_lt_succ hblocks⟩
  · split at hn
    · cases hn
    · cases hn
      exact ⟨Nat.lt_succ_of_lt hbrackets, show n.blocks - 1 < bound + 1 by omega⟩
  all_goals
    split at hn
    · cases hn
    · cases hn
      exact hsame

theorem Below.token (h : n.Below bound) {stops : List String} {afterOf : Bool} {t : Token}
    (hn : n.token stops afterOf t = some n') : n'.Below (bound + 1) := by
  unfold Nesting.token at hn
  split at hn
  · cases hn
  · split at hn
    · exact h.keyword hn
    · exact h.symbol hn

end Nesting

/-- The length of a type expression or value, with checked counts. -/
def checkedTypeExprFrom (stops : List String) (n : Nesting) (afterOf : Bool) :
    List Token → Option Nat
  | [] => some 0
  | t :: ts =>
    (n.checkedToken stops afterOf t).bind fun
      | none => some 0
      | some n => (checkedTypeExprFrom stops n (t.isKeyword .of_) ts).map (1 + ·)

theorem checkedTypeExprFrom_eq (stops : List String) {n : Nesting} (afterOf : Bool)
    {ts : List Token} {bound : Nat} (hn : n.Below bound) (h : bound + ts.length ≤ Word32.max) :
    checkedTypeExprFrom stops n afterOf ts = some (typeExprFrom stops n afterOf ts) := by
  fun_induction typeExprFrom stops n afterOf ts generalizing bound with
  | case1 => rfl
  | case2 n afterOf t ts hend =>
    rw [checkedTypeExprFrom, Nesting.checkedToken_eq (hn.mono (by omega)), hend]
    rfl
  | case3 n afterOf t ts n' hnext ih =>
    rw [List.length_cons] at h
    rw [checkedTypeExprFrom, Nesting.checkedToken_eq (hn.mono (by omega)), hnext]
    show (checkedTypeExprFrom stops n' (t.isKeyword .of_) ts).map (1 + ·) = _
    rw [ih (hn.token hnext) (by omega), Option.map_some]

/-! ### Type parameters -/

/-- Type parameters, with a checked count of open brackets. -/
def checkedGenericsFrom (depth : Nat) : List Token → Option Generics
  | [] => some ⟨0, false⟩
  | t :: ts =>
    if t.isSymbol "<" then
      (Word32.add? depth 1).bind fun inner => (checkedGenericsFrom inner ts).map Generics.succ
    else if t.isSymbol ">" || t.isSymbol ">=" then
      if depth ≤ 1 then some ⟨1, t.isSymbol ">="⟩
      else (Word32.sub? depth 1).bind fun outer => (checkedGenericsFrom outer ts).map Generics.succ
    else if t.isSymbolIn [";", "=", "(", ")", ":="] then some ⟨0, false⟩
    else if t.isKeywordThat fun kw => kw = .begin || kw = .end_ || kw = .implementation then
      some ⟨0, false⟩
    else (checkedGenericsFrom depth ts).map Generics.succ

theorem checkedGenericsFrom_eq {depth : Nat} {ts : List Token}
    (h : depth + ts.length ≤ Word32.max) :
    checkedGenericsFrom depth ts = some (genericsFrom depth ts) := by
  fun_induction genericsFrom depth ts with
  | case1 => rfl
  | case2 depth t ts hopen ih =>
    rw [List.length_cons] at h
    rw [checkedGenericsFrom, if_pos hopen, Word32.add?_of_le (by omega), Option.bind_some,
      ih (by omega), Option.map_some]
  | case3 depth t ts hopen hclose hlast =>
    rw [checkedGenericsFrom, if_neg hopen, if_pos hclose, if_pos hlast]
  | case4 depth t ts hopen hclose hmore ih =>
    rw [List.length_cons] at h
    rw [checkedGenericsFrom, if_neg hopen, if_pos hclose, if_neg hmore,
      Word32.sub?_of_le (by omega), Option.bind_some, ih (by omega), Option.map_some]
  | case5 depth t ts hopen hclose hstop =>
    rw [checkedGenericsFrom, if_neg hopen, if_neg hclose, if_pos hstop]
  | case6 depth t ts hopen hclose hstop hword =>
    rw [checkedGenericsFrom, if_neg hopen, if_neg hclose, if_neg hstop, if_pos hword]
  | case7 depth t ts hopen hclose hstop hword ih =>
    rw [List.length_cons] at h
    rw [checkedGenericsFrom, if_neg hopen, if_neg hclose, if_neg hstop, if_neg hword,
      ih (by omega), Option.map_some]

end Extent

/-! ### Ancestors -/

namespace Clause

/-- The number of open angle brackets after a token, checked. A closing one that
    nothing opened is passed over. -/
def checkedAngleAfter (angle : Nat) (t : Token) : Option Nat :=
  if t.isSymbol "<" then Word32.add? angle 1
  else if t.isSymbol ">" then some (angle - 1) else some angle

/-- The ancestors in a list, with a checked count of open angle brackets. -/
def checkedBasesFrom (angle : Nat) (current : List Token) :
    List Token → Option (List (List Token) × Nat)
  | [] => some ([current.reverse], 0)
  | t :: ts =>
    if Extent.endsHeader t then some ([current.reverse], 0)
    else if t.isSymbol ")" then some ([current.reverse], 1)
    else if t.isSymbol "," && angle == 0 then
      (checkedBasesFrom 0 [] ts).map fun found => (current.reverse :: found.1, found.2 + 1)
    else
      (checkedAngleAfter angle t).bind fun next =>
        (checkedBasesFrom next (t :: current) ts).map fun found => (found.1, found.2 + 1)

theorem checkedAngleAfter_eq {angle : Nat} (h : angle < Word32.max) (t : Token) :
    checkedAngleAfter angle t = some (angleAfter angle t) := by
  unfold checkedAngleAfter angleAfter
  split
  · exact Word32.add?_of_le h
  · split <;> rfl

theorem angleAfter_le (angle : Nat) (t : Token) : angleAfter angle t ≤ angle + 1 := by
  unfold angleAfter
  split
  · exact Nat.le_refl _
  · split <;> omega

theorem checkedBasesFrom_eq {angle : Nat} (current : List Token) {ts : List Token}
    (h : angle + ts.length ≤ Word32.max) :
    checkedBasesFrom angle current ts = some (basesFrom angle current ts) := by
  fun_induction basesFrom angle current ts with
  | case1 => rfl
  | case2 angle current t ts hend => rw [checkedBasesFrom, if_pos hend]
  | case3 angle current t ts hend hclose =>
    rw [checkedBasesFrom, if_neg hend, if_pos hclose]
  | case4 angle current t ts hend hclose hcomma others n hothers ih =>
    rw [List.length_cons] at h
    rw [checkedBasesFrom, if_neg hend, if_neg hclose, if_pos hcomma, ih (by omega), hothers]
    rfl
  | case5 angle current t ts hend hclose hcomma others n hothers ih =>
    rw [List.length_cons] at h
    have hangle := angleAfter_le angle t
    rw [checkedBasesFrom, if_neg hend, if_neg hclose, if_neg hcomma,
      checkedAngleAfter_eq (by omega), Option.bind_some, ih (by omega), hothers]
    rfl

/-- Where the entries of names that share a declaration end: the last one with the
    declaration, the others with their names. It is numbered from the count of the
    names. -/
def checkedStops (stop : Location) (names : List Token) : Option (List Location) :=
  if names.isEmpty then some []
  else (Word32.sub? names.length 1).map fun last =>
    names.mapIdx fun i t => if i = last then stop else t.stop

theorem checkedStops_eq (stop : Location) (names : List Token) :
    checkedStops stop names
      = some (names.dropLast.map Token.stop ++ names.getLast?.toList.map fun _ => stop) := by
  cases names using List.reverseRecOn with
  | nil => rfl
  | append_singleton names last =>
    have hothers : (names.mapIdx fun i t => if i = names.length then stop else t.stop)
        = names.map Token.stop := by
      apply List.ext_getElem
      · rw [List.length_mapIdx, List.length_map]
      · intro i hi _
        rw [List.length_mapIdx] at hi
        rw [List.getElem_mapIdx, List.getElem_map, if_neg (Nat.ne_of_lt hi)]
    rw [checkedStops, if_neg (by simp), Word32.sub?_of_le (by simp), Option.map_some,
      List.length_append, List.length_singleton, Nat.add_sub_cancel, List.mapIdx_concat, hothers,
      if_pos rfl, List.dropLast_concat, List.getLast?_concat]
    rfl

end Clause

/-! ### Attributes -/

namespace Prototype

/-- The length of an attribute, with a checked count of open brackets. -/
def checkedAttributeFrom (depth : Nat) : List Token → Option Nat
  | [] => some 0
  | t :: ts =>
    if t.text = "[" then
      (Word32.add? depth 1).bind fun inner => (checkedAttributeFrom inner ts).map (1 + ·)
    else if t.text = "]" then
      if depth ≤ 1 then some 1
      else (Word32.sub? depth 1).bind fun outer => (checkedAttributeFrom outer ts).map (1 + ·)
    else (checkedAttributeFrom depth ts).map (1 + ·)

theorem checkedAttributeFrom_eq {depth : Nat} {ts : List Token}
    (h : depth + ts.length ≤ Word32.max) :
    checkedAttributeFrom depth ts = some (attributeFrom depth ts) := by
  fun_induction attributeFrom depth ts with
  | case1 => rfl
  | case2 depth t ts hopen ih =>
    rw [List.length_cons] at h
    rw [checkedAttributeFrom, if_pos hopen, Word32.add?_of_le (by omega), Option.bind_some,
      ih (by omega), Option.map_some]
  | case3 depth t ts hopen hclose hlast =>
    rw [checkedAttributeFrom, if_neg hopen, if_pos hclose, if_pos hlast]
  | case4 depth t ts hopen hclose hmore ih =>
    rw [List.length_cons] at h
    rw [checkedAttributeFrom, if_neg hopen, if_pos hclose, if_neg hmore,
      Word32.sub?_of_le (by omega), Option.bind_some, ih (by omega), Option.map_some]
  | case5 depth t ts hopen hclose ih =>
    rw [List.length_cons] at h
    rw [checkedAttributeFrom, if_neg hopen, if_neg hclose, ih (by omega), Option.map_some]

end Prototype

/-! ### All readers -/

/-- At some tokens every reader of a phrase stays within its bounds. -/
structure ReadsInBounds (ts : List Token) : Prop where
  /-- Groups in brackets. -/
  group : ∀ opening closing,
    Extent.checkedGroupFrom opening closing 0 ts = some (Extent.group opening closing ts)
  /-- Type expressions and values. -/
  typeExpr : ∀ stops,
    Extent.checkedTypeExprFrom stops ⟨0, 0⟩ false ts = some (Extent.typeExpr stops ts)
  /-- Type parameters. -/
  generics : Extent.checkedGenericsFrom 0 ts = some (Extent.generics ts)
  /-- Ancestors. -/
  bases : Clause.checkedBasesFrom 0 [] ts = some (Clause.basesFrom 0 [] ts)
  /-- Attributes before a signature. -/
  attributes : Prototype.checkedAttributeFrom 1 ts = some (Prototype.attributeFrom 1 ts)
  /-- Names that share a declaration. -/
  names : ∀ stop, Clause.checkedStops stop (Clause.declaredNames ts).1
    = some ((Clause.declaredNames ts).1.dropLast.map Token.stop
        ++ (Clause.declaredNames ts).1.getLast?.toList.map fun _ => stop)

theorem readsInBounds {ts : List Token} (h : ts.length < Word32.max) : ReadsInBounds ts := by
  constructor
  case group =>
    intro opening closing
    exact Extent.checkedGroupFrom_eq opening closing (by omega)
  case typeExpr =>
    intro stops
    have hnone : Extent.Nesting.Below 1 ⟨0, 0⟩ := ⟨Nat.one_pos, Nat.one_pos⟩
    exact Extent.checkedTypeExprFrom_eq stops false hnone (by omega)
  case generics => exact Extent.checkedGenericsFrom_eq (by omega)
  case bases => exact Clause.checkedBasesFrom_eq [] (by omega)
  case attributes => exact Prototype.checkedAttributeFrom_eq (by omega)
  case names => exact fun stop => Clause.checkedStops_eq stop _

end PascalOutline
