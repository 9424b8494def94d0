import PascalOutline.Proofs.Outline.Arena

/-! # Outlines in preorder

  The entries of an outline are a tree in preorder when every entry stands
  right before what lies below it, so that a walk over the tree visits the
  array from its first to its last place (`Outline.Preorder`).

  It is enough that the parent of each entry is the entry before it or one
  above that (`Consecutive`): what lies below an entry is then an interval of
  the array, and a walk, which keeps the entries that it still has to visit
  in a list, finds the next one of the array in front of that list
  (`Builder.Waiting`).
-/

namespace PascalOutline

/-! ### Above and below an entry -/

/-- The entries above an entry, from the one that holds it up to the root. -/
inductive Above (entries : Array Entry) : EntryId → List EntryId → Prop where
  /-- Nothing is above the root. -/
  | root {i : EntryId} {e : Entry} (he : entries[i]? = some e) (hparent : e.parent = none) :
      Above entries i []
  /-- The parent, and what is above it. -/
  | held {i p : EntryId} {e : Entry} {above : List EntryId} (he : entries[i]? = some e)
      (hparent : e.parent = some p) (h : Above entries p above) : Above entries i (p :: above)

/-- An entry is the entry `i` or lies below it. -/
inductive Within (entries : Array Entry) (i : EntryId) : EntryId → Prop where
  | self : Within entries i i
  | held {k p : EntryId} {e : Entry} (he : entries[k]? = some e) (hparent : e.parent = some p)
      (h : Within entries i p) : Within entries i k

/-- Every entry after the first one is held by the entry before it or by one
    above that. -/
def Consecutive (entries : Array Entry) : Prop :=
  ∀ i p e, entries[i + 1]? = some e → e.parent = some p → Within entries p i

section Entries

variable {entries entries' : Array Entry}

theorem Within.trans {i j k : EntryId} (hij : Within entries i j) (hjk : Within entries j k) :
    Within entries i k := by
  induction hjk with
  | self => exact hij
  | held he hparent _ ih => exact .held he hparent ih

theorem Above.within {i : EntryId} {above : List EntryId} (h : Above entries i above) :
    ∀ a ∈ i :: above, Within entries a i := by
  induction h with
  | root =>
    intro a ha
    rw [List.mem_singleton.mp ha]
    exact .self
  | held he hparent _ ih =>
    intro a ha
    rcases List.mem_cons.mp ha with rfl | ha
    · exact .self
    · exact .held he hparent (ih a ha)

/-- Entries that are there keep their parents. -/
def KeepsParents (entries entries' : Array Entry) : Prop :=
  ∀ (i : EntryId) (e : Entry), entries[i]? = some e →
    ∃ e', entries'[i]? = some e' ∧ e'.parent = e.parent

theorem Above.of_keepsParents {i : EntryId} {above : List EntryId} (h : Above entries i above)
    (hkeeps : KeepsParents entries entries') : Above entries' i above := by
  induction h with
  | root he hparent =>
    obtain ⟨e', he', hsame⟩ := hkeeps _ _ he
    exact .root he' (hsame.trans hparent)
  | held he hparent _ ih =>
    obtain ⟨e', he', hsame⟩ := hkeeps _ _ he
    exact .held he' (hsame.trans hparent) ih

theorem Within.of_keepsParents {i k : EntryId} (h : Within entries i k)
    (hkeeps : KeepsParents entries entries') : Within entries' i k := by
  induction h with
  | self => exact .self
  | held he hparent _ ih =>
    obtain ⟨e', he', hsame⟩ := hkeeps _ _ he
    exact .held he' (hsame.trans hparent) ih

/-- What lies below an entry is an interval of the array. -/
theorem Consecutive.within_of_le {i m k : Nat} (h : Consecutive entries)
    (hwithin : Within entries i k) (him : i ≤ m) (hmk : m ≤ k) : Within entries i m := by
  induction k with
  | zero =>
    have hm : m = 0 := Nat.le_zero.mp hmk
    rwa [hm]
  | succ k ih =>
    by_cases hm : m = k + 1
    · rwa [hm]
    · -- The parent of the last entry is above the entry before the last.
      have hle : m ≤ k := by omega
      cases hwithin with
      | self => omega
      | held he hparent hup => exact ih (hup.trans (h k _ _ he hparent)) hle

end Entries

/-! ### Outlines in preorder -/

/-- The entries of an outline are a tree in preorder. -/
structure Outline.Preorder (o : Outline) : Prop where
  /-- There is an entry. -/
  nonempty : 0 < o.size
  /-- An entry knows its place and its file. -/
  own : ∀ i e, o.get? i = some e → e.id = i ∧ e.file = o.file
  /-- The first entry has no parent. -/
  root : ∀ e, o.get? 0 = some e → e.parent = none
  /-- Every other entry stands after its parent, which lists it once. -/
  parent : ∀ i e, o.get? i = some e → i ≠ 0 →
    ∃ p holder, e.parent = some p ∧ p < i ∧ o.get? p = some holder ∧
      holder.children.toList.count i = 1
  /-- Nothing else lists it. -/
  child : ∀ p holder i, o.get? p = some holder → i ∈ holder.children →
    ∃ e, o.get? i = some e ∧ e.parent = some p
  /-- Children are listed in order. -/
  sorted : ∀ i e, o.get? i = some e → e.children.toList.Pairwise (· < ·)
  /-- A walk visits the entries in the order of the array. -/
  walk : o.walk.map Prod.snd = o.entries.toList
  /-- The depth in a walk is the number of entries above. -/
  depth : ∀ depth e, (depth, e) ∈ o.walk →
    ∃ above, Above o.entries e.id above ∧ above.length = depth
  /-- No entry ends before it begins. -/
  ordered : ∀ i e, o.get? i = some e → e.start ≤ e.stop
  /-- An entry other than the root does not end before its last child. -/
  covers : ∀ i e k last, o.get? i = some e → i ≠ 0 → e.children.back? = some k →
    o.get? k = some last → last.stop ≤ e.stop

namespace Builder

/-! ### Links between entries -/

theorem links?_of_entry {b : Builder} {i : EntryId} {e : Entry} (he : b.entry? i = some e) :
    b.links? i = some e.links := by
  rw [links?, he]
  rfl

theorem entry?_of_links? {b : Builder} {i : EntryId} {l : Links} (hl : b.links? i = some l) :
    ∃ e, b.entry? i = some e ∧ e.links = l :=
  Option.map_eq_some_iff.mp hl

namespace Arena

variable {b : Builder}

theorem parent_lt (h : b.Arena) {k p : Nat} {e : Entry} (he : b.entry? k = some e)
    (hparent : e.parent = some p) : p < k := by
  have hl := links?_of_entry he
  by_cases hk : k = 0
  · rw [hk] at hl
    have hnone : e.parent = none := h.root _ hl
    rw [hparent] at hnone
    cases hnone
  · obtain ⟨q, _, hq, hqk, _⟩ := h.parent k _ hl hk
    have hsame : some p = some q := hparent.symm.trans hq
    rw [Option.some.inj hsame]
    exact hqk

theorem mem_children_iff (h : b.Arena) {i k : EntryId} {e : Entry} (he : b.entry? i = some e) :
    k ∈ e.children ↔ ∃ child, b.entry? k = some child ∧ child.parent = some i := by
  constructor
  · intro hk
    obtain ⟨_, m, hm, hparent⟩ := h.child i _ k (links?_of_entry he) hk
    obtain ⟨child, hchild, rfl⟩ := entry?_of_links? hm
    exact ⟨child, hchild, hparent⟩
  · rintro ⟨child, hchild, hparent⟩
    have hk : k ≠ 0 := Nat.ne_of_gt (Nat.zero_lt_of_lt (h.parent_lt hchild hparent))
    obtain ⟨p, m, hp, _, hm, hmem⟩ := h.parent k _ (links?_of_entry hchild) hk
    have hsame : some i = some p := hparent.symm.trans hp
    obtain rfl := Option.some.inj hsame
    obtain ⟨e', he', rfl⟩ := entry?_of_links? hm
    rw [he] at he'
    rw [Option.some.inj he']
    exact hmem

theorem le_of_within (h : b.Arena) {i k : Nat} (hwithin : Within b.entries i k) : i ≤ k := by
  induction hwithin with
  | self => exact Nat.le_refl _
  | held he hparent _ ih => exact Nat.le_trans ih (Nat.le_of_lt (h.parent_lt he hparent))

/-- The children of an entry come before any later entry that is held by an
    earlier one. -/
theorem child_lt_of_parent_lt (h : b.Arena) (hnext : Consecutive b.entries) {i j k p : Nat}
    {e child : Entry} (hchild : b.entry? k = some child) (hk : child.parent = some i)
    (he : b.entry? j = some e) (hj : e.parent = some p) (hij : i < j) (hpi : p < i) : k < j := by
  have hik := h.parent_lt hchild hk
  apply Nat.lt_of_not_le
  intro hle
  -- Otherwise `j` lies in the interval below `i`, and so does its parent.
  have hwithin : Within b.entries i j :=
    hnext.within_of_le (.held hchild hk .self) (Nat.le_of_lt hij) hle
  cases hwithin with
  | self => exact Nat.lt_irrefl _ hij
  | held he' hparent hup =>
    have hentry : some e = some _ := he.symm.trans he'
    obtain rfl := Option.some.inj hentry
    rw [hj] at hparent
    obtain rfl := Option.some.inj hparent
    exact Nat.lt_irrefl _ (Nat.lt_of_lt_of_le hpi (h.le_of_within hup))

end Arena

/-! ### Walking -/

/-- What a walk has waiting before it visits the entry `i`: the later entries
    that are held by an earlier one, in order and with their depths. -/
structure Waiting (b : Builder) (i : Nat) (waiting : List (Nat × EntryId)) : Prop where
  sorted : (waiting.map Prod.snd).Pairwise (· < ·)
  mem : ∀ j : Nat, j ∈ waiting.map Prod.snd ↔
    i ≤ j ∧ ∃ e, b.entry? j = some e ∧ ∀ p : Nat, e.parent = some p → p < i
  depth : ∀ w ∈ waiting, ∃ above, Above b.entries w.2 above ∧ above.length = w.1

namespace Waiting

variable {b : Builder} {i : Nat} {waiting : List (Nat × EntryId)}

/-- At first the root is waiting. -/
theorem start (h : b.Arena) : b.Waiting 0 [(0, 0)] := by
  obtain ⟨l, hl⟩ := exists_links? h.size_pos
  obtain ⟨root, hroot, rfl⟩ := entry?_of_links? hl
  have hnone : root.parent = none := h.root _ hl
  constructor
  case sorted => exact List.pairwise_singleton _ _
  case mem =>
    intro j
    constructor
    · intro hj
      have hj : j = 0 := List.mem_singleton.mp hj
      rw [hj]
      refine ⟨Nat.le_refl 0, root, hroot, ?_⟩
      intro p hp
      rw [hnone] at hp
      cases hp
    · rintro ⟨_, e, he, hparent⟩
      by_cases hj : j = 0
      · rw [hj]
        exact List.mem_singleton.mpr rfl
      · -- Any other entry has a parent.
        obtain ⟨p, _, hp, _⟩ := h.parent j _ (links?_of_entry he) hj
        exact absurd (hparent p hp) (Nat.not_lt_zero p)
  case depth =>
    intro w hw
    rw [List.mem_singleton.mp hw]
    exact ⟨[], .root hroot hnone, rfl⟩

/-- The entry whose turn it is waits in front. -/
theorem exists_cons (h : b.Arena) (hwaiting : b.Waiting i waiting) (hi : i < b.entries.size) :
    ∃ depth rest, waiting = (depth, i) :: rest := by
  obtain ⟨l, hl⟩ := exists_links? hi
  obtain ⟨e, he, _⟩ := entry?_of_links? hl
  have hmem : i ∈ waiting.map Prod.snd := by
    apply (hwaiting.mem i).mpr
    exact ⟨Nat.le_refl i, e, he, fun p hp => h.parent_lt he hp⟩
  have hsorted := hwaiting.sorted
  cases waiting with
  | nil => cases hmem
  | cons w rest =>
    obtain ⟨depth, j⟩ := w
    rcases List.mem_cons.mp hmem with hij | hrest
    · exact ⟨depth, rest, by rw [hij]⟩
    · have hji : j < i := (List.pairwise_cons.mp hsorted).1 i hrest
      have hij : i ≤ j := ((hwaiting.mem j).mp List.mem_cons_self).1
      exact absurd hij (Nat.not_le_of_lt hji)

/-- A visit puts the children of the entry in front. -/
theorem visit (h : b.Arena) (hnext : Consecutive b.entries) {depth : Nat} {e : Entry}
    (hwaiting : b.Waiting i ((depth, i) :: waiting)) (he : b.entry? i = some e) :
    b.Waiting (i + 1) (e.children.toList.map (depth + 1, ·) ++ waiting) := by
  have hsorted := List.pairwise_cons.mp hwaiting.sorted
  have hsnd : (e.children.toList.map ((depth + 1, ·) : EntryId → Nat × EntryId)).map Prod.snd
      = e.children.toList := by
    rw [List.map_map]
    exact List.map_id _
  -- What waits behind the entry is held by an entry before it.
  have hrest : ∀ j : Nat, j ∈ waiting.map Prod.snd ↔
      i < j ∧ ∃ e, b.entry? j = some e ∧ ∀ p : Nat, e.parent = some p → p < i := by
    intro j
    have hmem := hwaiting.mem j
    rw [List.map_cons, List.mem_cons] at hmem
    constructor
    · intro hj
      exact ⟨hsorted.1 j hj, (hmem.mp (Or.inr hj)).2⟩
    · rintro ⟨hij, hj⟩
      rcases hmem.mpr ⟨Nat.le_of_lt hij, hj⟩ with hj | hj
      · exact absurd hj (Nat.ne_of_gt hij)
      · exact hj
  have hchild : ∀ k, k ∈ e.children.toList ↔
      ∃ child, b.entry? k = some child ∧ child.parent = some i := by
    intro k
    rw [Array.mem_toList_iff]
    exact h.mem_children_iff he
  constructor
  case sorted =>
    rw [List.map_append, hsnd]
    apply List.pairwise_append.mpr
    refine ⟨h.sorted i _ (links?_of_entry he), hsorted.2, ?_⟩
    intro k hk j hj
    obtain ⟨child, hentry, hparent⟩ := (hchild k).mp hk
    obtain ⟨hij, next, hnextj, hbefore⟩ := (hrest j).mp hj
    obtain ⟨p, _, hp, _⟩ := h.parent j _ (links?_of_entry hnextj) (Nat.ne_zero_of_lt hij)
    exact h.child_lt_of_parent_lt hnext hentry hparent hnextj hp hij (hbefore p hp)
  case mem =>
    intro j
    rw [List.map_append, hsnd, List.mem_append, hchild, hrest]
    constructor
    · rintro (⟨child, hentry, hparent⟩ | ⟨hij, next, hentry, hbefore⟩)
      · refine ⟨h.parent_lt hentry hparent, child, hentry, ?_⟩
        intro p hp
        rw [hparent] at hp
        rw [← Option.some.inj hp]
        exact Nat.lt_succ_self i
      · exact ⟨hij, next, hentry, fun p hp => Nat.lt_succ_of_lt (hbefore p hp)⟩
    · rintro ⟨hij, next, hentry, hbefore⟩
      obtain ⟨p, _, hp, _⟩ := h.parent j _ (links?_of_entry hentry) (Nat.ne_zero_of_lt hij)
      have hp : next.parent = some p := hp
      by_cases hpi : p = i
      · rw [hpi] at hp
        exact Or.inl ⟨next, hentry, hp⟩
      · refine Or.inr ⟨hij, next, hentry, ?_⟩
        intro q hq
        have hlt : q < i + 1 := hbefore q hq
        rw [hp] at hq
        rw [← Option.some.inj hq] at hlt ⊢
        exact Nat.lt_of_le_of_ne (Nat.le_of_lt_succ hlt) hpi
  case depth =>
    intro w hw
    rcases List.mem_append.mp hw with hw | hw
    · obtain ⟨k, hk, rfl⟩ := List.mem_map.mp hw
      obtain ⟨child, hentry, hparent⟩ := (hchild k).mp hk
      obtain ⟨above, habove, hlength⟩ := hwaiting.depth (depth, i) List.mem_cons_self
      exact ⟨i :: above, .held hentry hparent habove, congrArg (· + 1) hlength⟩
    · exact hwaiting.depth w (List.mem_cons_of_mem _ hw)

end Waiting

/-- A walk visits the rest of the entries in order, each one at the depth that
    it waited with. -/
theorem walkFrom_of_waiting {b : Builder} {o : Outline} (h : b.Arena)
    (hnext : Consecutive b.entries) (hsame : o.entries = b.entries) {limit i : Nat}
    {waiting : List (Nat × EntryId)} (hlimit : i + limit = b.entries.size)
    (hwaiting : b.Waiting i waiting) :
    (o.walkFrom limit waiting).map Prod.snd = o.entries.toList.drop i ∧
      ∀ depth e, (depth, e) ∈ o.walkFrom limit waiting →
        ∃ k above, b.entry? k = some e ∧ Above o.entries k above ∧ above.length = depth := by
  induction limit generalizing i waiting with
  | zero =>
    have hall : o.entries.toList.length ≤ i := by
      rw [hsame, Array.length_toList]
      omega
    rw [List.drop_eq_nil_of_le hall]
    refine ⟨by rw [Outline.walkFrom, List.map_nil], ?_⟩
    intro depth e hmem
    rw [Outline.walkFrom] at hmem
    cases hmem
  | succ limit ih =>
    have hi : i < b.entries.size := by omega
    obtain ⟨depth, rest, rfl⟩ := hwaiting.exists_cons h hi
    have he : b.entry? i = some b.entries[i] := Array.getElem?_eq_getElem hi
    have hget : o.get? i = some b.entries[i] := by
      rw [Outline.get?, hsame]
      exact he
    obtain ⟨hwalk, hdepth⟩ := ih (by omega) (hwaiting.visit h hnext he)
    have hdrop : o.entries.toList.drop i = b.entries[i] :: o.entries.toList.drop (i + 1) := by
      rw [hsame, List.drop_eq_getElem_cons (by rwa [Array.length_toList])]
      rfl
    rw [Outline.walkFrom, hget]
    refine ⟨?_, ?_⟩
    · rw [List.map_cons, hwalk, hdrop]
    · intro d e hmem
      rcases List.mem_cons.mp hmem with hfirst | hmem
      · obtain ⟨rfl, rfl⟩ := Prod.mk.inj hfirst
        obtain ⟨above, habove, hlength⟩ := hwaiting.depth (d, i) List.mem_cons_self
        rw [hsame]
        exact ⟨i, above, he, habove, hlength⟩
      · exact hdepth d e hmem

end Builder

end PascalOutline
