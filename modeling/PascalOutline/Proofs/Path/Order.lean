import PascalOutline.Path
import Mathlib.Data.List.Nodup
import Mathlib.Data.List.Perm.Basic

/-! # The order of paths

  Paths are ordered totally, and two paths that stand before each other have
  the same components. Sorting therefore leaves a list in which every path
  stands strictly before the next one, and such a list is determined by its
  members.
-/

namespace PascalOutline.Path

/-! ### Components -/

section Parts

variable {a b c : PathPart} {as bs cs : List PathPart}

theorem partLt_name {x y : String} : partLt (.name x) (.name y) = true ↔ x < y :=
  decide_eq_true_iff

/-- Components are ordered by their ranks, and names among themselves. -/
theorem partLt_iff : partLt a b = true ↔
    rank a < rank b ∨ ∃ x y, a = .name x ∧ b = .name y ∧ x < y := by
  cases a with
  | name x =>
    cases b with
    | name y => rw [partLt_name]; simp [rank]
    | _ => simp [partLt, rank]
  | _ => cases b <;> simp [partLt, rank]

/-- Only names share a rank. -/
theorem eq_or_names_of_rank_eq (h : rank a = rank b) :
    a = b ∨ ∃ x y, a = .name x ∧ b = .name y := by
  cases a <;> cases b <;> simp [rank] at h ⊢

theorem rank_le_of_partLt (h : partLt a b = true) : rank a ≤ rank b := by
  obtain h | ⟨x, y, rfl, rfl, -⟩ := partLt_iff.mp h
  · exact Nat.le_of_lt h
  · exact Nat.le_refl _

theorem partLt_trichotomy (a b : PathPart) : partLt a b = true ∨ a = b ∨ partLt b a = true := by
  obtain hlt | heq | hgt := Nat.lt_trichotomy (rank a) (rank b)
  · exact Or.inl (partLt_iff.mpr (Or.inl hlt))
  · obtain rfl | ⟨x, y, rfl, rfl⟩ := eq_or_names_of_rank_eq heq
    · exact Or.inr (Or.inl rfl)
    · rw [partLt_name, partLt_name]
      by_cases hxy : x < y
      · exact Or.inl hxy
      · by_cases hyx : y < x
        · exact Or.inr (Or.inr hyx)
        · exact Or.inr (Or.inl (congrArg PathPart.name (String.le_antisymm hyx hxy)))
  · exact Or.inr (Or.inr (partLt_iff.mpr (Or.inl hgt)))

theorem partLt_trans (hab : partLt a b = true) (hbc : partLt b c = true) : partLt a c = true := by
  have hranks := rank_le_of_partLt hbc
  obtain hlt | ⟨x, y, rfl, rfl, hxy⟩ := partLt_iff.mp hab
  · exact partLt_iff.mpr (Or.inl (Nat.lt_of_lt_of_le hlt hranks))
  · obtain hlt | ⟨y, z, hy, rfl, hyz⟩ := partLt_iff.mp hbc
    · exact partLt_iff.mpr (Or.inl hlt)
    · cases hy
      exact partLt_name.mpr (String.lt_trans hxy hyz)

theorem partLt_irrefl (a : PathPart) : partLt a a = false := by
  rw [Bool.eq_false_iff]
  intro h
  obtain h | ⟨x, y, rfl, hy, hxy⟩ := partLt_iff.mp h
  · exact Nat.lt_irrefl _ h
  · cases hy
    exact String.lt_irrefl _ hxy

theorem partLt_asymm (hab : partLt a b = true) : partLt b a = false := by
  rw [Bool.eq_false_iff]
  intro hba
  have h := partLt_trans hab hba
  rw [partLt_irrefl] at h
  cases h

theorem partsLe_cons :
    partsLe (a :: as) (b :: bs) = true ↔ partLt a b = true ∨ a = b ∧ partsLe as bs = true := by
  simp [partsLe]

theorem partsLe_total (as bs : List PathPart) : partsLe as bs = true ∨ partsLe bs as = true := by
  induction as generalizing bs with
  | nil => exact Or.inl rfl
  | cons a as ih =>
    cases bs with
    | nil => exact Or.inr rfl
    | cons b bs =>
      rw [partsLe_cons, partsLe_cons]
      obtain hlt | rfl | hgt := partLt_trichotomy a b
      · exact Or.inl (Or.inl hlt)
      · obtain h | h := ih bs
        · exact Or.inl (Or.inr ⟨rfl, h⟩)
        · exact Or.inr (Or.inr ⟨rfl, h⟩)
      · exact Or.inr (Or.inl hgt)

theorem partsLe_trans (hab : partsLe as bs = true) (hbc : partsLe bs cs = true) :
    partsLe as cs = true := by
  induction as generalizing bs cs with
  | nil => rfl
  | cons a as ih =>
    cases bs with
    | nil => cases hab
    | cons b bs =>
      cases cs with
      | nil => cases hbc
      | cons c cs =>
        rw [partsLe_cons] at hab hbc ⊢
        obtain hab | ⟨rfl, hab⟩ := hab
        · obtain hbc | ⟨rfl, -⟩ := hbc
          · exact Or.inl (partLt_trans hab hbc)
          · exact Or.inl hab
        · obtain hbc | ⟨rfl, hbc⟩ := hbc
          · exact Or.inl hbc
          · exact Or.inr ⟨rfl, ih hab hbc⟩

theorem partsLe_antisymm (hab : partsLe as bs = true) (hba : partsLe bs as = true) : as = bs := by
  induction as generalizing bs with
  | nil =>
    cases bs with
    | nil => rfl
    | cons => cases hba
  | cons a as ih =>
    cases bs with
    | nil => cases hab
    | cons b bs =>
      rw [partsLe_cons] at hab hba
      obtain hab | ⟨rfl, hab⟩ := hab
      · obtain hba | ⟨rfl, -⟩ := hba
        · rw [partLt_asymm hab] at hba
          cases hba
        · rw [partLt_irrefl] at hab
          cases hab
      · obtain hba | ⟨-, hba⟩ := hba
        · rw [partLt_irrefl] at hba
          cases hba
        · rw [ih hab hba]

end Parts

/-! ### Paths -/

section Paths

variable {a b c : String} {xs ys : List String}

theorem le_total (a b : String) : (le a b || le b a) = true := by
  rw [Bool.or_eq_true]
  exact partsLe_total _ _

theorem le_trans (a b c : String) (hab : le a b = true) (hbc : le b c = true) : le a c = true :=
  partsLe_trans hab hbc

theorem same_of_le_of_le (hab : le a b = true) (hba : le b a = true) : same a b = true :=
  beq_iff_eq.mpr (partsLe_antisymm hab hba)

theorem same_symm (h : same a b = true) : same b a = true :=
  beq_iff_eq.mpr (beq_iff_eq.mp h).symm

theorem same_trans (hab : same a b = true) (hbc : same b c = true) : same a c = true :=
  beq_iff_eq.mpr ((beq_iff_eq.mp hab).trans (beq_iff_eq.mp hbc))

theorem le_of_same (h : same a b = true) : le a b = true := by
  rw [le, beq_iff_eq.mp h]
  obtain h | h := partsLe_total (parts b) (parts b) <;> exact h

/-- Whether every path of a list stands strictly before the ones behind it. -/
def Ascending (paths : List String) : Prop :=
  paths.Pairwise fun a b => le a b = true ∧ same a b = false

instance (paths : List String) : Decidable (Ascending paths) :=
  inferInstanceAs (Decidable (List.Pairwise _ _))

/-- The paths of a list that are the same path have the same spelling. -/
def SpelledAlike (paths : List String) : Prop :=
  ∀ a ∈ paths, ∀ b ∈ paths, same a b = true → a = b

instance (paths : List String) : Decidable (SpelledAlike paths) :=
  inferInstanceAs (Decidable (∀ a ∈ paths, ∀ b ∈ paths, same a b = true → a = b))

theorem dedup_sublist (xs : List String) : (dedup xs).Sublist xs := by
  induction xs using dedup.induct with
  | case1 => simp [dedup]
  | case2 path => simp [dedup]
  | case3 a b rest hsame ih =>
    rw [dedup, if_pos hsame]
    exact ih.trans ((List.sublist_cons_self b rest).cons_cons a)
  | case4 a b rest hsame ih =>
    rw [dedup, if_neg hsame]
    exact ih.cons_cons a

/-- Dropping repetitions drops no path, only spellings. -/
theorem exists_mem_dedup (h : a ∈ xs) : ∃ b ∈ dedup xs, same b a = true := by
  induction xs using dedup.induct generalizing a with
  | case1 => cases h
  | case2 path => exact ⟨a, by rwa [dedup], beq_self_eq_true _⟩
  | case3 first b rest hsame ih =>
    rw [dedup, if_pos hsame]
    rw [List.mem_cons, List.mem_cons] at h
    obtain rfl | rfl | h := h
    · exact ih List.mem_cons_self
    · obtain ⟨c, hc, hfirst⟩ := ih List.mem_cons_self
      exact ⟨c, hc, same_trans hfirst hsame⟩
    · exact ih (List.mem_cons_of_mem _ h)
  | case4 first b rest hsame ih =>
    rw [dedup, if_neg hsame]
    obtain rfl | h := List.mem_cons.mp h
    · exact ⟨a, List.mem_cons_self, beq_self_eq_true _⟩
    · obtain ⟨c, hc, hca⟩ := ih h
      exact ⟨c, List.mem_cons_of_mem _ hc, hca⟩

theorem ascending_dedup (h : xs.Pairwise fun a b => le a b = true) : Ascending (dedup xs) := by
  induction xs using dedup.induct with
  | case1 => simp [dedup, Ascending]
  | case2 path => simp [dedup, Ascending]
  | case3 a b rest hsame ih =>
    rw [dedup, if_pos hsame]
    exact ih (h.sublist ((List.sublist_cons_self b rest).cons_cons a))
  | case4 a b rest hsame ih =>
    rw [dedup, if_neg hsame]
    obtain ⟨hfirst, hrest⟩ := List.pairwise_cons.mp h
    refine List.pairwise_cons.mpr ⟨?_, ih hrest⟩
    intro c hc
    have hmem := (dedup_sublist (b :: rest)).subset hc
    refine ⟨hfirst c hmem, ?_⟩
    -- A path that is the same as the first would make the one between the same.
    rw [Bool.eq_false_iff]
    intro hac
    have hbc : le b c = true := by
      obtain rfl | hc := List.mem_cons.mp hmem
      · exact le_of_same (beq_self_eq_true _)
      · exact (List.pairwise_cons.mp hrest).1 c hc
    have hba : le b a = true := le_trans b c a hbc (le_of_same (same_symm hac))
    exact hsame (same_of_le_of_le (hfirst b List.mem_cons_self) hba)

theorem ascending_sorted (xs : List String) : Ascending (sorted xs) :=
  ascending_dedup (List.pairwise_mergeSort le_trans le_total xs)

theorem dedup_eq_self (h : Ascending xs) : dedup xs = xs := by
  induction xs using dedup.induct with
  | case1 => rw [dedup]
  | case2 path => rw [dedup]
  | case3 a b rest hsame ih =>
    have hab := ((List.pairwise_cons.mp h).1 b List.mem_cons_self).2
    rw [hsame] at hab
    cases hab
  | case4 a b rest hsame ih =>
    rw [dedup, if_neg hsame, ih (List.pairwise_cons.mp h).2]

/-- Sorting leaves alone what is in order. -/
theorem sorted_eq_self (h : Ascending xs) : sorted xs = xs := by
  rw [sorted, List.mergeSort_of_pairwise (h.imp And.left), dedup_eq_self h]

theorem mem_of_mem_sorted (h : a ∈ sorted xs) : a ∈ xs :=
  List.mem_mergeSort.mp ((dedup_sublist _).subset h)

theorem mem_sorted (h : SpelledAlike xs) : a ∈ sorted xs ↔ a ∈ xs := by
  constructor
  · exact mem_of_mem_sorted
  · intro ha
    have hsort : a ∈ xs.mergeSort le := List.mem_mergeSort.mpr ha
    obtain ⟨b, hb, hba⟩ := exists_mem_dedup hsort
    rwa [← h b (mem_of_mem_sorted hb) a ha hba]

/-- A list in order is determined by its members. -/
theorem Ascending.eq_of_mem_iff (hxs : Ascending xs) (hys : Ascending ys)
    (hmem : ∀ a, a ∈ xs ↔ a ∈ ys) : xs = ys := by
  have hnodup : ∀ {zs}, Ascending zs → zs.Nodup := by
    intro zs hzs
    refine hzs.imp ?_
    rintro a _ ⟨-, hne⟩ rfl
    rw [same, beq_self_eq_true] at hne
    cases hne
  have hperm : xs.Perm ys := (List.perm_ext_iff_of_nodup (hnodup hxs) (hnodup hys)).mpr hmem
  refine hperm.eq_of_pairwise ?_ hxs hys
  rintro a b - - ⟨hab, hne⟩ ⟨hba, -⟩
  rw [same_of_le_of_le hab hba] at hne
  cases hne

/-- Lists with the same members are the same once they are sorted. -/
theorem sorted_congr (hxs : SpelledAlike xs) (hmem : ∀ a, a ∈ xs ↔ a ∈ ys) :
    sorted xs = sorted ys := by
  have hys : SpelledAlike ys := by
    intro a ha b hb
    exact hxs a ((hmem a).mpr ha) b ((hmem b).mpr hb)
  apply (ascending_sorted xs).eq_of_mem_iff (ascending_sorted ys)
  intro a
  rw [mem_sorted hxs, mem_sorted hys, hmem]

end Paths

end PascalOutline.Path
