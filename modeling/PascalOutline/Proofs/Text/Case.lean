import PascalOutline.Text.Blank
import PascalOutline.Text.Case

/-! # What does not depend on letter case

  Lower case changes the 26 capital letters of the ASCII table and nothing
  else. So a property of characters does not see case as soon as it agrees on
  each capital and its small letter, which can be computed.
-/

namespace PascalOutline

/-- A character outside of the capital letters is its own lower case. -/
theorem toLower_eq_self {c : Char} (h : ¬(65 ≤ c.toNat ∧ c.toNat ≤ 90)) : c.toLower = c := by
  unfold Char.toLower
  rw [dif_neg]
  rintro ⟨hlow, hhigh⟩
  exact h ⟨UInt32.le_iff_toNat_le.mp hlow, UInt32.le_iff_toNat_le.mp hhigh⟩

theorem toLower_of_isAlpha_eq_false {c : Char} (h : c.isAlpha = false) : c.toLower = c := by
  apply toLower_eq_self
  rintro ⟨hlow, hhigh⟩
  have hcapital : c.isUpper = true :=
    decide_eq_true ⟨UInt32.le_iff_toNat_le.mpr hlow, UInt32.le_iff_toNat_le.mpr hhigh⟩
  have hletter : (c.isUpper || c.isLower) = false := h
  rw [hcapital] at hletter
  cases hletter

/-- What agrees on each capital letter and its small letter agrees on every
    character and its lower case. -/
theorem apply_toLower {α : Type} {f : Char → α}
    (h : ∀ i < 26, f (Char.ofNat (65 + i)).toLower = f (Char.ofNat (65 + i))) (c : Char) :
    f c.toLower = f c := by
  by_cases hcapital : 65 ≤ c.toNat ∧ c.toNat ≤ 90
  · have hc : c = Char.ofNat (65 + (c.toNat - 65)) := by
      rw [Nat.add_sub_cancel' hcapital.1, Char.ofNat_toNat]
    rw [hc]
    exact h _ (by omega)
  · rw [toLower_eq_self hcapital]

theorem toLower_toLower (c : Char) : c.toLower.toLower = c.toLower :=
  apply_toLower (by decide) c

theorem utf8Size_toLower (c : Char) : c.toLower.utf8Size = c.utf8Size :=
  apply_toLower (by decide) c

@[simp] theorem lowered_lowered (s : String) : lowered (lowered s) = lowered s := by
  rw [← String.toList_inj, toList_lowered, toList_lowered, List.map_map]
  exact List.map_congr_left fun c _ => toLower_toLower c

/-! ### White space -/

theorem isSpace_toLower (c : Char) : isSpace c.toLower = isSpace c :=
  apply_toLower (by decide) c

theorem firstWord_map_toLower (cs : List Char) :
    firstWord (cs.map Char.toLower) = (firstWord cs).map Char.toLower := by
  simp [firstWord, List.dropWhile_map, List.takeWhile_map, Function.comp_def, isSpace_toLower]

end PascalOutline
