import Mathlib.Data.Nat.Find
import PascalOutline.Proofs.Outline.Handles
import PascalOutline.Proofs.Scan

/-! # Paths of names

  A list of names leads downwards from the root, from an entry to a child with
  the next name. Several children may have that name: a class that is announced
  and then defined, overloaded routines. So a list may lead to many entries.
  Following it takes the first such child each time and never turns back.

  What is found is therefore the entry to which the first children lead
  (`Outline.FollowsNames.exact`). It lies at the end of a path
  (`Outline.FollowsNames.found`), but some path may exist and none be found,
  when the way forks before the last name (`Outline.FollowsNames.complete`).
-/

namespace PascalOutline

namespace Outline

/-! ### Paths -/

/-- The entry `j` is a child of the entry `i` and has a name, in any case. -/
def Holds (o : Outline) (i : EntryId) (name : String) (j : EntryId) : Prop :=
  ∃ parent child, o.get? i = some parent ∧ j ∈ parent.children.toList ∧ o.get? j = some child ∧
    sameWord child.name name = true

instance (o : Outline) (i : EntryId) (name : String) (j : EntryId) : Decidable (o.Holds i name j) :=
  decidable_of_iff (((o.get? i).any fun parent => parent.children.toList.contains j) = true ∧
      ((o.get? j).any fun child => sameWord child.name name) = true) <| by
    simp only [Holds, Option.any_eq_true, List.contains_iff_mem]
    constructor
    · rintro ⟨⟨parent, hparent, hj⟩, child, hchild, hname⟩
      exact ⟨parent, child, hparent, hj, hchild, hname⟩
    · rintro ⟨parent, child, hparent, hj, hchild, hname⟩
      exact ⟨⟨parent, hparent, hj⟩, child, hchild, hname⟩

/-- It is the first child with this name. -/
def HoldsFirst (o : Outline) (i : EntryId) (name : String) (j : EntryId) : Prop :=
  o.Holds i name j ∧ ∀ k, o.Holds i name k → j ≤ k

/-- Names lead from one entry to another, with a step for each name. -/
inductive Leads (step : EntryId → String → EntryId → Prop) :
    EntryId → List String → EntryId → Prop where
  /-- No name is left. -/
  | here (i : EntryId) : Leads step i [] i
  /-- A step for the next name, and further from there. -/
  | down {i j k : EntryId} {name : String} {names : List String} (hstep : step i name j)
      (hrest : Leads step j names k) : Leads step i (name :: names) k

/-- The way does not fork before the last name: no entry on it has two children
    with the next name. -/
def Unforked (o : Outline) (i : EntryId) (names : List String) : Prop :=
  ∀ before name after k, names = before ++ name :: after → after ≠ [] →
    Leads o.Holds i before k → ∀ j j', o.Holds k name j → o.Holds k name j' → j = j'

/-- What is found when names are followed in an outline. -/
structure FollowsNames (o : Outline) : Prop where
  /-- It is an entry of the outline to which the names lead. -/
  found : ∀ names e, o.findPath? names = some e →
    o.get? e.id = some e ∧ Leads o.Holds 0 names e.id
  /-- It is the entry to which they lead when the first child is taken each
      time. -/
  exact : ∀ names e, o.findPath? names = some e ↔
    o.get? e.id = some e ∧ Leads o.HoldsFirst 0 names e.id
  /-- Where the way does not fork, something is found if they lead anywhere. -/
  complete : ∀ names, o.Unforked 0 names →
    ((o.findPath? names).isSome = true ↔ ∃ i, Leads o.Holds 0 names i)

theorem Leads.mono {step step' : EntryId → String → EntryId → Prop}
    (hstep : ∀ i name j, step i name j → step' i name j) {i k : EntryId} {names : List String}
    (h : Leads step i names k) : Leads step' i names k := by
  induction h with
  | here i => exact .here i
  | down hfirst _ ih => exact .down (hstep _ _ _ hfirst) ih

variable {o : Outline}

/-! ### Children with a name -/

theorem mem_children_of_linked (h : o.Linked) {i : EntryId} {e x : Entry} (he : o.get? i = some e) :
    x ∈ o.children i ↔ o.get? x.id = some x ∧ x.id ∈ e.children.toList := by
  rw [mem_children_iff he]
  constructor
  · rintro ⟨k, hk, hx⟩
    rw [h.own k x hx]
    exact ⟨hx, Array.mem_toList_iff.mpr hk⟩
  · rintro ⟨hx, hk⟩
    exact ⟨x.id, Array.mem_toList_iff.mp hk, hx⟩

theorem Linked.pairwise_children (h : o.Linked) (i : EntryId) :
    (o.children i).Pairwise fun x y => x.id < y.id := by
  unfold children
  cases he : o.get? i with
  | none => exact .nil
  | some e =>
    show (e.children.toList.filterMap o.get?).Pairwise _
    rw [List.pairwise_filterMap]
    apply (h.sorted i e he).imp
    intro j k hjk x hx y hy
    rw [h.own j x hx, h.own k y hy]
    exact hjk

theorem holds_iff_mem_children (h : o.Linked) {i k : EntryId} {name : String} :
    o.Holds i name k ↔ ∃ x ∈ o.children i, x.id = k ∧ sameWord x.name name = true := by
  constructor
  · rintro ⟨parent, x, hparent, hk, hx, hname⟩
    have hid := h.own k x hx
    refine ⟨x, (mem_children_of_linked h hparent).mpr ?_, hid, hname⟩
    rw [hid]
    exact ⟨hx, hk⟩
  · rintro ⟨x, hx, rfl, hname⟩
    cases hparent : o.get? i with
    | none =>
      rw [children, hparent] at hx
      cases hx
    | some parent =>
      obtain ⟨hentry, hk⟩ := (mem_children_of_linked h hparent).mp hx
      exact ⟨parent, x, hparent, hk, hentry, hname⟩

/-- Of the children with a name, the search takes the first one. -/
theorem find?_children_eq_some_iff (h : o.Linked) {i : EntryId} {name : String} {x : Entry} :
    (o.children i).find? (fun child => sameWord child.name name) = some x ↔
      o.get? x.id = some x ∧ o.HoldsFirst i name x.id := by
  have hentry : ∀ y ∈ o.children i, o.get? y.id = some y := by
    intro y hy
    cases hparent : o.get? i with
    | none =>
      rw [children, hparent] at hy
      cases hy
    | some parent => exact ((mem_children_of_linked h hparent).mp hy).1
  have hfirst : ∀ y, (o.children i).find? (fun child => sameWord child.name name) = some y →
      o.get? y.id = some y ∧ o.HoldsFirst i name y.id := by
    intro y hy
    obtain ⟨hname, before, after, hsplit, hbefore⟩ := List.find?_eq_some_iff_append.mp hy
    have hmem : y ∈ o.children i := List.mem_of_find?_eq_some hy
    refine ⟨hentry y hmem, (holds_iff_mem_children h).mpr ⟨y, hmem, rfl, hname⟩, ?_⟩
    intro k hk
    obtain ⟨z, hz, rfl, hzname⟩ := (holds_iff_mem_children h).mp hk
    have hsorted := h.pairwise_children i
    rw [hsplit] at hz hsorted
    rcases List.mem_append.mp hz with hz | hz
    · -- No child before it has the name.
      have hother := hbefore z hz
      rw [hzname] at hother
      cases hother
    · rcases List.mem_cons.mp hz with rfl | hz
      · exact Nat.le_refl _
      · have hlater := (List.pairwise_cons.mp (List.pairwise_append.mp hsorted).2.1).1 z hz
        exact Nat.le_of_lt hlater
  constructor
  · exact hfirst x
  · rintro ⟨hx, hholds, hleast⟩
    obtain ⟨z, hz, hid, hname⟩ := (holds_iff_mem_children h).mp hholds
    have hsome : ((o.children i).find? fun child => sameWord child.name name).isSome = true := by
      apply List.find?_isSome.mpr
      exact ⟨z, hz, hname⟩
    -- What is found is a first child as well, and there is only one.
    obtain ⟨y, hy⟩ := Option.isSome_iff_exists.mp hsome
    obtain ⟨hyentry, hyholds, hyleast⟩ := hfirst y hy
    have hsame : x.id = y.id := Nat.le_antisymm (hleast y.id hyholds) (hyleast x.id hholds)
    rw [hsame, hyentry] at hx
    rw [hy, hx]

theorem exists_holdsFirst {i j : EntryId} {name : String} (h : o.Holds i name j) :
    ∃ k, o.HoldsFirst i name k := by
  classical
  have hsome : ∃ k, o.Holds i name k := ⟨j, h⟩
  exact ⟨Nat.find hsome, Nat.find_spec hsome, fun k hk => Nat.find_min' hsome hk⟩

/-! ### Following names -/

/-- To follow names is to take the first children. -/
theorem follow_eq_some_iff (h : o.Linked) {names : List String} {e x : Entry}
    (he : o.get? e.id = some e) :
    o.follow e names = some x ↔ o.get? x.id = some x ∧ Leads o.HoldsFirst e.id names x.id := by
  induction names generalizing e with
  | nil =>
    rw [follow]
    constructor
    · intro hx
      obtain rfl := Option.some.inj hx
      exact ⟨he, .here _⟩
    · rintro ⟨hx, hleads⟩
      generalize hid : x.id = k at hx hleads
      cases hleads with
      | here => rw [← he, hx]
  | cons name names ih =>
    rw [follow, Option.bind_eq_some_iff]
    constructor
    · rintro ⟨child, hfind, hfollow⟩
      obtain ⟨hchild, hfirst⟩ := (find?_children_eq_some_iff h).mp hfind
      obtain ⟨hx, hleads⟩ := (ih hchild).mp hfollow
      exact ⟨hx, .down hfirst hleads⟩
    · rintro ⟨hx, hleads⟩
      generalize hid : x.id = k at hleads
      cases hleads with
      | @down _ j _ _ _ hfirst hrest =>
        obtain ⟨parent, child, hparent, hj, hchild, hname⟩ := hfirst.1
        have hown := h.own j child hchild
        subst hown
        refine ⟨child, (find?_children_eq_some_iff h).mpr ⟨hchild, hfirst⟩, (ih hchild).mpr ?_⟩
        rw [hid]
        rw [hid] at hx
        exact ⟨hx, hrest⟩

/-- Where the way does not fork, the first children lead on if any do. -/
theorem Leads.exists_first {i k : EntryId} {names : List String} (h : Leads o.Holds i names k)
    (hunforked : o.Unforked i names) : ∃ j, Leads o.HoldsFirst i names j := by
  induction h with
  | here i => exact ⟨i, .here i⟩
  | @down i j k name names hstep hrest ih =>
    by_cases hlast : names = []
    · -- The last name: some child has it, hence also a first one.
      obtain ⟨first, hfirst⟩ := exists_holdsFirst hstep
      rw [hlast]
      exact ⟨first, .down hfirst (.here first)⟩
    · -- Otherwise the child is the only one with the name.
      have honly : ∀ k, o.Holds i name k → j = k := by
        intro k hk
        exact hunforked [] name names i rfl hlast (.here i) j k hstep hk
      have hrestUnforked : o.Unforked j names := by
        intro before next after k hsplit hafter hleads
        apply hunforked (name :: before) next after k _ hafter (.down hstep hleads)
        rw [hsplit]
        rfl
      obtain ⟨last, hleads⟩ := ih hrestUnforked
      refine ⟨last, .down ⟨hstep, ?_⟩ hleads⟩
      intro k hk
      exact Nat.le_of_eq (honly k hk)

theorem Leads.exists_entry {i k : EntryId} {names : List String} {e : Entry}
    (h : Leads o.Holds i names k) (he : o.get? i = some e) : ∃ x, o.get? k = some x := by
  induction h generalizing e with
  | here => exact ⟨e, he⟩
  | down hstep _ ih =>
    obtain ⟨_, child, _, _, hchild, _⟩ := hstep
    exact ih hchild

theorem Linked.followsNames (h : o.Linked) : o.FollowsNames := by
  have hroot : o.get? 0 = some o.root := Array.getElem?_eq_getElem o.nonempty
  have hid : o.root.id = 0 := h.own 0 o.root hroot
  have hexact : ∀ names e, o.findPath? names = some e ↔
      o.get? e.id = some e ∧ Leads o.HoldsFirst 0 names e.id := by
    intro names e
    rw [findPath?, follow_eq_some_iff h (by rw [hid]; exact hroot), hid]
  have hholds : ∀ i name j, o.HoldsFirst i name j → o.Holds i name j :=
    fun i name j hfirst => hfirst.1
  have hfound : ∀ names e, o.findPath? names = some e →
      o.get? e.id = some e ∧ Leads o.Holds 0 names e.id := by
    intro names e hfind
    obtain ⟨he, hleads⟩ := (hexact names e).mp hfind
    exact ⟨he, hleads.mono hholds⟩
  constructor
  case found => exact hfound
  case exact => exact hexact
  case complete =>
    intro names hunforked
    constructor
    · intro hsome
      obtain ⟨e, he⟩ := Option.isSome_iff_exists.mp hsome
      exact ⟨e.id, (hfound names e he).2⟩
    · rintro ⟨i, hleads⟩
      obtain ⟨j, hfirst⟩ := hleads.exists_first hunforked
      obtain ⟨x, hx⟩ := (hfirst.mono hholds).exists_entry hroot
      obtain rfl := h.own j x hx
      exact Option.isSome_iff_exists.mpr ⟨x, (hexact names x).mpr ⟨hx, hfirst⟩⟩

end Outline

/-- Names are followed in the outline of every source as the first children
    lead. -/
theorem followsNames_scan (options : Options) (file source : String) :
    (scan options file source).outline.FollowsNames :=
  (linked_scan options file source).followsNames

/-- A class that is announced hides the members of its definition: the names
    `T` and `F` lead to a field of the second `T`, and nothing is found. -/
theorem not_forall_findPath?_isSome :
    ¬ ∀ (options : Options) (file source : String) (names : List String),
      ((scan options file source).outline.findPath? names).isSome = true ↔
        ∃ i, Outline.Leads (scan options file source).outline.Holds 0 names i := by
  intro h
  let source := "type T = class; T = class F: integer; end;"
  have hnone : ((scan {} "x.pas" source).outline.findPath? ["T", "F"]).isSome = false := by
    decide +kernel
  have hsecond : (scan {} "x.pas" source).outline.Holds 0 "T" 2 := by decide +kernel
  have hfield : (scan {} "x.pas" source).outline.Holds 2 "F" 3 := by decide +kernel
  have hsome := (h {} "x.pas" source ["T", "F"]).mpr ⟨3, .down hsecond (.down hfield (.here 3))⟩
  rw [hnone] at hsome
  cases hsome

end PascalOutline
