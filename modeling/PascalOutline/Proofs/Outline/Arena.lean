import PascalOutline.Outline.Builder
import PascalOutline.Proofs.Place

/-! # The arena of a builder

  The entries of a builder point to each other by their places: an entry
  names its parent and lists its children, and the builder names the entries
  that are still open. `Builder.Arena` says that these links fit together:
  parents stand before their children, each entry but the root is listed once
  by its parent, and the open entries are a path from the root.

  Most of what a builder does leaves the links alone. What a change of one
  entry's texts or documentation keeps is `Builder.SameFrame`.
-/

namespace PascalOutline

/-! ### Links and ends -/

/-- The links of an entry. -/
structure Links where
  /-- The entry that holds it. -/
  parent : Option EntryId
  /-- The entries that it holds. -/
  children : Array EntryId

namespace Entry

/-- The links of an entry. -/
def links (e : Entry) : Links :=
  ⟨e.parent, e.children⟩

/-- The two ends of an entry. -/
def ends (e : Entry) : Location × Location :=
  (e.start, e.stop)

theorem links_addDoc (e : Entry) (text : String) : (e.addDoc text).links = e.links := by
  unfold addDoc
  split
  · rfl
  · split <;> rfl

theorem ends_addDoc (e : Entry) (text : String) : (e.addDoc text).ends = e.ends := by
  unfold addDoc
  split
  · rfl
  · split <;> rfl

end Entry

namespace Builder

/-- The links of the entry with a handle. -/
def links? (b : Builder) (id : EntryId) : Option Links :=
  (b.entry? id).map Entry.links

/-- The two ends of the entry with a handle. -/
def ends? (b : Builder) (id : EntryId) : Option (Location × Location) :=
  (b.entry? id).map Entry.ends

theorem entry?_isSome_iff (b : Builder) (id : EntryId) :
    (b.entry? id).isSome = true ↔ id < b.entries.size := by
  show (b.entries[id]?).isSome = true ↔ _
  simp

theorem lastChild?_eq_links? (b : Builder) (i : EntryId) :
    b.lastChild? i = (b.links? i).bind fun l => l.children.back? := by
  unfold lastChild? links?
  cases b.entry? i <;> rfl

theorem lt_of_links? {b : Builder} {id : EntryId} {l : Links} (h : b.links? id = some l) :
    id < b.entries.size := by
  obtain ⟨e, he, _⟩ := Option.map_eq_some_iff.mp h
  exact (b.entry?_isSome_iff id).mp (by rw [he]; rfl)

theorem exists_links? {b : Builder} {id : EntryId} (h : id < b.entries.size) :
    ∃ l, b.links? id = some l := by
  obtain ⟨e, he⟩ := Option.isSome_iff_exists.mp ((b.entry?_isSome_iff id).mpr h)
  exact ⟨e.links, by rw [links?, he]; rfl⟩

theorem lt_of_ends? {b : Builder} {id : EntryId} {x : Location × Location}
    (h : b.ends? id = some x) : id < b.entries.size := by
  obtain ⟨e, he, _⟩ := Option.map_eq_some_iff.mp h
  exact (b.entry?_isSome_iff id).mp (by rw [he]; rfl)

/-! ### What does not touch the frame -/

/-- Two builders differ at most in the texts of their entries. -/
structure SameFrame (b b' : Builder) : Prop where
  /-- They have equally many entries. -/
  size : b'.entries.size = b.entries.size
  /-- The same entries are open. -/
  stack : b'.stack = b.stack
  /-- The links are the same. -/
  links : ∀ id, b'.links? id = b.links? id
  /-- The ends are the same. -/
  ends : ∀ id, b'.ends? id = b.ends? id

namespace SameFrame

variable {b b' b'' : Builder}

theorem refl (b : Builder) : b.SameFrame b :=
  ⟨rfl, rfl, fun _ => rfl, fun _ => rfl⟩

theorem trans (h : b.SameFrame b') (h' : b'.SameFrame b'') : b.SameFrame b'' := by
  constructor
  · rw [h'.size, h.size]
  · rw [h'.stack, h.stack]
  · intro id
    rw [h'.links, h.links]
  · intro id
    rw [h'.ends, h.ends]

end SameFrame

theorem modify_id (b : Builder) (id : EntryId) : (b.modify id fun e => e) = b := by
  unfold modify
  have hentries : (b.entries.modify id fun e => e) = b.entries := by
    apply Array.ext_getElem?
    intro i
    rw [Array.getElem?_modify]
    split
    · exact Option.map_id'
    · rfl
  rw [hentries]

theorem entry?_modify (b : Builder) (id i : EntryId) (f : Entry → Entry) :
    entry? (b.modify id f) i = if i = id then (b.entry? i).map f else b.entry? i := by
  show (b.entries.modify id f)[i]? = _
  rw [Array.getElem?_modify]
  by_cases h : i = id
  · rw [if_pos h, if_pos h.symm]
    rfl
  · rw [if_neg h, if_neg (Ne.symm h)]
    rfl

theorem sameFrame_modify (b : Builder) (id : EntryId) {f : Entry → Entry}
    (hlinks : ∀ e, (f e).links = e.links) (hends : ∀ e, (f e).ends = e.ends) :
    b.SameFrame (b.modify id f) := by
  constructor
  · exact Array.size_modify
  · rfl
  · intro i
    rw [links?, entry?_modify]
    split
    · rw [Option.map_map]
      exact Option.map_congr fun e _ => hlinks e
    · rfl
  · intro i
    rw [ends?, entry?_modify]
    split
    · rw [Option.map_map]
      exact Option.map_congr fun e _ => hends e
    · rfl

theorem sameFrame_addDoc (b : Builder) (id : EntryId) (text : String) :
    b.SameFrame (b.addDoc id text) :=
  b.sameFrame_modify id (fun e => e.links_addDoc text) (fun e => e.ends_addDoc text)

/-! ### What changes the frame -/

theorem entry?_insert (b : Builder) (e : Entry) (i : EntryId) :
    entry? (b.insert e) i
      = if i = b.nextId then
          some { e with id := b.nextId, file := b.file, parent := b.top?, children := #[] }
        else if b.top? = some i then
          (b.entry? i).map fun e => { e with children := e.children.push b.nextId }
        else b.entry? i := by
  unfold insert
  cases htop : b.top? with
  | none =>
    show (b.entries.push _)[i]? = _
    rw [Array.getElem?_push]
    rfl
  | some p =>
    show ((b.entries.modify p _).push _)[i]? = _
    rw [Array.getElem?_push, Array.size_modify, Array.getElem?_modify]
    -- The last place has the new entry, and the top is told of it.
    by_cases hi : i = b.entries.size
    · rw [if_pos hi]
      exact (if_pos hi).symm
    · rw [if_neg hi]
      refine Eq.trans ?_ (if_neg hi).symm
      by_cases hp : p = i
      · rw [if_pos hp, if_pos (by rw [hp])]
        rfl
      · rw [if_neg hp, if_neg (fun h => hp (Option.some.inj h))]
        rfl

/-- An entry is the new one, or it was there before. The innermost open one
    gets the new one as a child. -/
theorem entry?_insert_cases {b : Builder} {e x : Entry} {i : EntryId}
    (h : entry? (b.insert e) i = some x) :
    (i = b.nextId ∧
        x = { e with id := b.nextId, file := b.file, parent := b.top?, children := #[] }) ∨
      (i ≠ b.nextId ∧ ∃ old, b.entry? i = some old ∧ (x = old ∨
        b.top? = some i ∧ x = { old with children := old.children.push b.nextId })) := by
  rw [entry?_insert] at h
  by_cases hi : i = b.nextId
  · rw [if_pos hi] at h
    exact Or.inl ⟨hi, (Option.some.inj h).symm⟩
  · rw [if_neg hi] at h
    by_cases htop : b.top? = some i
    · rw [if_pos htop] at h
      obtain ⟨old, hold, hx⟩ := Option.map_eq_some_iff.mp h
      exact Or.inr ⟨hi, old, hold, Or.inr ⟨htop, hx.symm⟩⟩
    · rw [if_neg htop] at h
      exact Or.inr ⟨hi, x, h, Or.inl rfl⟩

theorem links?_insert (b : Builder) (e : Entry) (i : EntryId) :
    (b.insert e).links? i
      = if i = b.nextId then some ⟨b.top?, #[]⟩
        else if b.top? = some i then
          (b.links? i).map fun l => { l with children := l.children.push b.nextId }
        else b.links? i := by
  rw [links?, entry?_insert]
  split
  · rfl
  · split
    · rw [links?, Option.map_map, Option.map_map]
      rfl
    · rfl

theorem ends?_insert (b : Builder) (e : Entry) (i : EntryId) :
    (b.insert e).ends? i = if i = b.nextId then some e.ends else b.ends? i := by
  rw [ends?, entry?_insert]
  split
  · rfl
  · split
    · rw [ends?, Option.map_map]
      rfl
    · rfl

theorem size_insert (b : Builder) (e : Entry) :
    (b.insert e).entries.size = b.entries.size + 1 := by
  unfold insert
  cases b.top? with
  | none => exact Array.size_push _
  | some p =>
    show ((b.entries.modify p _).push _).size = _
    rw [Array.size_push, Array.size_modify]

theorem links?_close (b : Builder) (id i : EntryId) (stop : Location) :
    (b.close id stop).links? i = b.links? i := by
  rw [close, links?, entry?_modify]
  split
  · rw [Option.map_map]
    rfl
  · rfl

/-- An entry ends at a given place if it begins there or before, and so do its
    children end. -/
theorem ends?_close {b : Builder} {id : EntryId} {stop : Location}
    (hstart : ∀ x, b.ends? id = some x → x.1 ≤ stop)
    (hchild : ∀ l k x, b.links? id = some l → k ∈ l.children → b.ends? k = some x → x.2 ≤ stop)
    (i : EntryId) :
    (b.close id stop).ends? i
      = if i = id then (b.ends? i).map fun x => (x.1, stop) else b.ends? i := by
  rw [close, ends?, entry?_modify]
  by_cases hi : i = id
  · rw [if_pos hi, if_pos hi]
    subst hi
    cases he : b.entry? i with
    | none => rw [ends?, he]; rfl
    | some e =>
      have hown : max stop e.start = stop :=
        Location.max_eq_left (hstart e.ends (by rw [ends?, he]; rfl))
      -- The last child is one of the children.
      have hlast : ∀ place, ((b.lastChild? i).bind fun child => (b.entry? child).map Entry.stop)
          = some place → place ≤ stop := by
        intro place hplace
        obtain ⟨child, hc, hp⟩ := Option.bind_eq_some_iff.mp hplace
        obtain ⟨ce, hce, rfl⟩ := Option.map_eq_some_iff.mp hp
        rw [lastChild?, he] at hc
        have hmem : child ∈ e.links.children := Array.mem_of_back? hc
        exact hchild e.links child ce.ends (by rw [links?, he]; rfl) hmem (by rw [ends?, hce]; rfl)
      rw [ends?, he]
      show some (e.start, ((b.lastChild? i).bind fun child => (b.entry? child).map Entry.stop).elim
        (max stop e.start) (max (max stop e.start))) = some (e.start, stop)
      rw [hown]
      cases hcs : (b.lastChild? i).bind fun child => (b.entry? child).map Entry.stop with
      | none => rfl
      | some place =>
        show some (e.start, max stop place) = _
        rw [Location.max_eq_left (hlast place hcs)]
  · rw [if_neg hi, if_neg hi]
    rfl

/-! ### The links fit together -/

/-- The links of a builder with a root fit together. -/
structure Arena (b : Builder) : Prop where
  /-- The root has no parent. -/
  root : ∀ l, b.links? 0 = some l → l.parent = none
  /-- Every other entry stands after its parent and is listed by it. -/
  parent : ∀ i l, b.links? i = some l → i ≠ 0 →
    ∃ p m, l.parent = some p ∧ p < i ∧ b.links? p = some m ∧ i ∈ m.children
  /-- An entry stands before those that it lists and is their parent. -/
  child : ∀ i l k, b.links? i = some l → k ∈ l.children →
    i < k ∧ ∃ m, b.links? k = some m ∧ m.parent = some i
  /-- An entry lists others in order, and each one once. -/
  sorted : ∀ i l, b.links? i = some l → l.children.toList.Pairwise (· < ·)
  /-- The root is open. -/
  root_open : 0 ∈ b.stack
  /-- Open entries exist. -/
  stack_lt : ∀ i ∈ b.stack, i < b.entries.size
  /-- The innermost open entry is the latest one. -/
  stack_sorted : b.stack.Pairwise (· > ·)
  /-- What holds an open entry is open. -/
  stack_up : ∀ i l k, b.links? i = some l → k ∈ l.children → k ∈ b.stack → i ∈ b.stack
  /-- Only the last entry that an entry lists may be open. -/
  settled : ∀ i l j k, b.links? i = some l → j ∈ l.children → k ∈ l.children → j < k →
    j ∉ b.stack

namespace Arena

variable {b b' : Builder}

theorem exists_top (h : b.Arena) :
    ∃ top, b.top? = some top ∧ top ∈ b.stack ∧ ∀ i ∈ b.stack, i ≤ top := by
  cases hstack : b.stack with
  | nil =>
    have hroot := h.root_open
    rw [hstack] at hroot
    cases hroot
  | cons top rest =>
    have hsorted := h.stack_sorted
    rw [hstack] at hsorted
    refine ⟨top, by rw [top?, hstack]; rfl, List.mem_cons_self, ?_⟩
    intro i hi
    rcases List.mem_cons.mp hi with rfl | hi
    · exact Nat.le_refl _
    · exact Nat.le_of_lt ((List.pairwise_cons.mp hsorted).1 i hi)

theorem size_pos (h : b.Arena) : 0 < b.entries.size :=
  h.stack_lt 0 h.root_open

theorem child_lt (h : b.Arena) {i k : EntryId} {l : Links} (hl : b.links? i = some l)
    (hk : k ∈ l.children) : k < b.entries.size := by
  obtain ⟨_, m, hm, _⟩ := h.child i l k hl hk
  exact lt_of_links? hm

/-- Closing entries from the innermost one on, or none, keeps the arena. -/
theorem of_suffix (h : b.Arena) (hsize : b'.entries.size = b.entries.size)
    (hlinks : ∀ i, b'.links? i = b.links? i) (hsuffix : b'.stack <:+ b.stack)
    (hroot : 0 ∈ b'.stack) : b'.Arena := by
  have hopen : ∀ i ∈ b'.stack, i ∈ b.stack := fun i hi => hsuffix.subset hi
  constructor
  case root => simpa only [hlinks] using h.root
  case parent => simpa only [hlinks] using h.parent
  case child => simpa only [hlinks] using h.child
  case sorted => simpa only [hlinks] using h.sorted
  case root_open => exact hroot
  case stack_lt =>
    intro i hi
    rw [hsize]
    exact h.stack_lt i (hopen i hi)
  case stack_sorted => exact h.stack_sorted.sublist hsuffix.sublist
  case stack_up =>
    intro i l k hl hk hopenk
    rw [hlinks] at hl
    have hi := h.stack_up i l k hl hk (hopen k hopenk)
    obtain ⟨closed, hclosed⟩ := hsuffix
    rw [← hclosed] at hi
    rcases List.mem_append.mp hi with hi | hi
    · -- What was closed came after all that is still open.
      have hsorted := h.stack_sorted
      rw [← hclosed] at hsorted
      have hki : i > k := (List.pairwise_append.mp hsorted).2.2 i hi k hopenk
      exact absurd (h.child i l k hl hk).1 (Nat.lt_asymm hki)
    · exact hi
  case settled =>
    intro i l j k hl hj hk hjk hopenj
    rw [hlinks] at hl
    exact h.settled i l j k hl hj hk hjk (hopen j hopenj)

theorem of_sameFrame (h : b.Arena) (hframe : b.SameFrame b') : b'.Arena := by
  have hsuffix : b'.stack <:+ b.stack := hframe.stack ▸ List.suffix_rfl
  refine h.of_suffix hframe.size hframe.links hsuffix ?_
  rw [hframe.stack]
  exact h.root_open

end Arena

theorem links?_insert_cases {b : Builder} {e : Entry} {i : EntryId} {l : Links}
    (h : (b.insert e).links? i = some l) :
    (i = b.nextId ∧ l = ⟨b.top?, #[]⟩) ∨
      (i ≠ b.nextId ∧ b.top? = some i ∧
        ∃ m, b.links? i = some m ∧ l = ⟨m.parent, m.children.push b.nextId⟩) ∨
      (i ≠ b.nextId ∧ b.links? i = some l) := by
  rw [links?_insert] at h
  by_cases hi : i = b.nextId
  · rw [if_pos hi] at h
    exact Or.inl ⟨hi, (Option.some.inj h).symm⟩
  · rw [if_neg hi] at h
    by_cases htop : b.top? = some i
    · rw [if_pos htop] at h
      obtain ⟨m, hm, hl⟩ := Option.map_eq_some_iff.mp h
      exact Or.inr (Or.inl ⟨hi, htop, m, hm, hl.symm⟩)
    · rw [if_neg htop] at h
      exact Or.inr (Or.inr ⟨hi, h⟩)

theorem links?_insert_nextId (b : Builder) (e : Entry) :
    (b.insert e).links? b.nextId = some ⟨b.top?, #[]⟩ := by
  rw [links?_insert, if_pos rfl]

/-- An entry that was there keeps its parent and its children. -/
theorem exists_links?_insert {b : Builder} {i : EntryId} {m : Links} (e : Entry)
    (hm : b.links? i = some m) :
    ∃ l, (b.insert e).links? i = some l ∧ l.parent = m.parent ∧
      (∀ k ∈ m.children, k ∈ l.children) ∧ (b.top? = some i → b.nextId ∈ l.children) := by
  have hi : i ≠ b.nextId := Nat.ne_of_lt (lt_of_links? hm)
  rw [links?_insert, if_neg hi]
  by_cases htop : b.top? = some i
  · rw [if_pos htop, hm]
    refine ⟨_, rfl, rfl, ?_, ?_⟩
    · intro k hk
      exact Array.mem_push_of_mem _ hk
    · intro _
      exact Array.mem_push_self
  · rw [if_neg htop]
    exact ⟨m, hm, rfl, fun k hk => hk, fun h => absurd h htop⟩

namespace Arena

variable {b b' : Builder}

section Insert

/-! #### A new entry inside of the innermost open one -/

variable {e : Entry} {i j k : EntryId} {l : Links}

theorem parent_insert (h : b.Arena) (hl : (b.insert e).links? i = some l) (hi : i ≠ 0) :
    ∃ p m, l.parent = some p ∧ p < i ∧ (b.insert e).links? p = some m ∧ i ∈ m.children := by
  have hkeep : ∀ m, b.links? i = some m → l.parent = m.parent →
      ∃ p m, l.parent = some p ∧ p < i ∧ (b.insert e).links? p = some m ∧ i ∈ m.children := by
    intro m hm hparent
    obtain ⟨p, pl, hp, hpi, hpl, hmem⟩ := h.parent i m hm hi
    obtain ⟨pl', hpl', _, hkeep, _⟩ := exists_links?_insert e hpl
    exact ⟨p, pl', hparent.trans hp, hpi, hpl', hkeep i hmem⟩
  rcases links?_insert_cases hl with ⟨rfl, rfl⟩ | ⟨_, _, m, hm, rfl⟩ | ⟨_, hm⟩
  · -- The new entry is listed by the top.
    obtain ⟨top, htop, hopen, _⟩ := h.exists_top
    obtain ⟨m, hm⟩ := exists_links? (h.stack_lt top hopen)
    obtain ⟨l, hl, _, _, hmem⟩ := exists_links?_insert e hm
    exact ⟨top, l, htop, h.stack_lt top hopen, hl, hmem htop⟩
  · exact hkeep m hm rfl
  · exact hkeep l hm rfl

theorem child_insert (h : b.Arena) (hl : (b.insert e).links? i = some l) (hk : k ∈ l.children) :
    i < k ∧ ∃ m, (b.insert e).links? k = some m ∧ m.parent = some i := by
  have hkeep : ∀ m, b.links? i = some m → k ∈ m.children →
      i < k ∧ ∃ m, (b.insert e).links? k = some m ∧ m.parent = some i := by
    intro m hm hk
    obtain ⟨hik, kl, hkl, hparent⟩ := h.child i m k hm hk
    obtain ⟨kl', hkl', hparent', _⟩ := exists_links?_insert e hkl
    exact ⟨hik, kl', hkl', hparent'.trans hparent⟩
  rcases links?_insert_cases hl with ⟨_, rfl⟩ | ⟨_, hi, m, hm, rfl⟩ | ⟨_, hm⟩
  · exact absurd hk (Array.not_mem_empty k)
  · rcases Array.mem_push.mp hk with hk | rfl
    · exact hkeep m hm hk
    · exact ⟨lt_of_links? hm, _, b.links?_insert_nextId e, hi⟩
  · exact hkeep l hm hk

theorem sorted_insert (h : b.Arena) (hl : (b.insert e).links? i = some l) :
    l.children.toList.Pairwise (· < ·) := by
  rcases links?_insert_cases hl with ⟨_, rfl⟩ | ⟨_, _, m, hm, rfl⟩ | ⟨_, hm⟩
  · exact .nil
  · -- The new entry is the latest of all, and it is listed last.
    show (m.children.push b.nextId).toList.Pairwise (· < ·)
    rw [Array.toList_push]
    refine List.pairwise_append.mpr ⟨h.sorted i m hm, List.pairwise_singleton _ _, ?_⟩
    intro k hk next hnext
    rw [List.mem_singleton.mp hnext]
    exact h.child_lt hm (Array.mem_toList_iff.mp hk)
  · exact h.sorted i l hm

/-- What holds the new entry or an open one is open. -/
theorem stack_up_insert (h : b.Arena) (hl : (b.insert e).links? i = some l)
    (hk : k ∈ l.children) (hopen : k ∈ b.nextId :: b.stack) : i ∈ b.stack := by
  rcases links?_insert_cases hl with ⟨_, rfl⟩ | ⟨_, hi, _⟩ | ⟨_, hm⟩
  · exact absurd hk (Array.not_mem_empty k)
  · -- Only the top lists another entry than before.
    exact List.mem_of_mem_head? hi
  · have hne : k ≠ b.nextId := Nat.ne_of_lt (h.child_lt hm hk)
    exact h.stack_up i l k hm hk ((List.mem_cons.mp hopen).resolve_left hne)

/-- An entry with a younger sibling is closed. -/
theorem settled_insert (h : b.Arena) (hl : (b.insert e).links? i = some l)
    (hj : j ∈ l.children) (hk : k ∈ l.children) (hjk : j < k) : j ∉ b.nextId :: b.stack := by
  intro hopen
  rcases links?_insert_cases hl with ⟨_, rfl⟩ | ⟨_, hi, m, hm, rfl⟩ | ⟨_, hm⟩
  · exact absurd hk (Array.not_mem_empty k)
  · -- The new entry is the last one of the top, whose other children came after the top.
    have hlt : j < b.nextId := by
      rcases Array.mem_push.mp hk with hk | rfl
      · exact Nat.lt_trans hjk (h.child_lt hm hk)
      · exact hjk
    have hj : j ∈ m.children := (Array.mem_push.mp hj).resolve_right (Nat.ne_of_lt hlt)
    obtain ⟨top, htop, _, hmax⟩ := h.exists_top
    have hle : j ≤ i := by
      rw [hi] at htop
      rw [Option.some.inj htop]
      exact hmax j ((List.mem_cons.mp hopen).resolve_left (Nat.ne_of_lt hlt))
    exact absurd (h.child i m j hm hj).1 (Nat.not_lt.mpr hle)
  · have hne : j ≠ b.nextId := Nat.ne_of_lt (h.child_lt hm hj)
    exact h.settled i l j k hm hj hk hjk ((List.mem_cons.mp hopen).resolve_left hne)

/-- A new entry inside of the innermost open one keeps the arena, whether it
    is left open or not. -/
theorem of_insert (h : b.Arena) (hsize : b'.entries.size = b.entries.size + 1)
    (hlinks : ∀ i, b'.links? i = (b.insert e).links? i)
    (hstack : b'.stack = b.stack ∨ b'.stack = b.nextId :: b.stack) : b'.Arena := by
  -- The open entries are those that were open, and at most the new one.
  have hold : ∀ i ∈ b.stack, i ∈ b'.stack := by
    intro i hi
    rcases hstack with hstack | hstack
    · rwa [hstack]
    · rw [hstack]
      exact List.mem_cons_of_mem _ hi
  have hnew : ∀ i ∈ b'.stack, i ∈ b.nextId :: b.stack := by
    intro i hi
    rcases hstack with hstack | hstack
    · rw [hstack] at hi
      exact List.mem_cons_of_mem _ hi
    · rwa [hstack] at hi
  constructor
  case root =>
    intro l hl
    rw [hlinks] at hl
    rcases links?_insert_cases hl with ⟨hi, _⟩ | ⟨_, _, m, hm, rfl⟩ | ⟨_, hm⟩
    · exact absurd hi (Nat.ne_of_lt h.size_pos)
    · exact h.root m hm
    · exact h.root l hm
  case parent =>
    simp only [hlinks]
    exact fun i l hl hi => h.parent_insert hl hi
  case child =>
    simp only [hlinks]
    exact fun i l k hl hk => h.child_insert hl hk
  case sorted =>
    simp only [hlinks]
    exact fun i l hl => h.sorted_insert hl
  case root_open => exact hold 0 h.root_open
  case stack_lt =>
    intro i hi
    rw [hsize]
    rcases List.mem_cons.mp (hnew i hi) with rfl | hi
    · exact Nat.lt_succ_self _
    · exact Nat.lt_succ_of_lt (h.stack_lt i hi)
  case stack_sorted =>
    rcases hstack with hstack | hstack
    · rw [hstack]
      exact h.stack_sorted
    · rw [hstack]
      exact List.pairwise_cons.mpr ⟨h.stack_lt, h.stack_sorted⟩
  case stack_up =>
    simp only [hlinks]
    exact fun i l k hl hk hopen => hold i (h.stack_up_insert hl hk (hnew k hopen))
  case settled =>
    simp only [hlinks]
    exact fun i l j k hl hj hk hjk hopen => h.settled_insert hl hj hk hjk (hnew j hopen)

end Insert

theorem push (h : b.Arena) (e : Entry) : (b.push e).Arena :=
  h.of_insert (b.size_insert e) (fun _ => rfl) (Or.inr rfl)

theorem hasRoot (h : b.Arena) : b.hasRoot = true := by
  rw [Builder.hasRoot, Array.isEmpty_eq_false_iff_exists_mem.mpr ⟨_, Array.getElem_mem h.size_pos⟩]
  rfl

theorem addLeaf_eq (h : b.Arena) (e : Entry) :
    b.addLeaf e = (b.insert e).close b.nextId e.stop := by
  unfold Builder.addLeaf
  rw [if_pos h.hasRoot]

theorem addLeaf (h : b.Arena) (e : Entry) : (b.addLeaf e).Arena := by
  rw [h.addLeaf_eq]
  refine h.of_insert (e := e) ?_ ?_ (Or.inl ?_)
  · rw [size_entries_close, size_insert]
  · intro i
    exact links?_close ..
  · rfl

end Arena

/-- The first entry becomes an open root. -/
theorem arena_push_of_empty {b : Builder} (hsize : b.entries.size = 0) (hstack : b.stack = [])
    (e : Entry) : (b.push e).Arena := by
  -- There are no links yet, so all that speaks of them holds of nothing.
  have hlinks : ∀ i l, (b.push e).links? i = some l → i = 0 ∧ l = ⟨none, #[]⟩ := by
    intro i l hl
    have htop : b.top? = none := by
      rw [top?, hstack]
      rfl
    rcases links?_insert_cases hl with ⟨hi, hl⟩ | ⟨_, hi, _⟩ | ⟨_, hm⟩
    · rw [htop] at hl
      exact ⟨hi.trans hsize, hl⟩
    · rw [htop] at hi
      cases hi
    · have hlt := lt_of_links? hm
      rw [hsize] at hlt
      exact absurd hlt (Nat.not_lt_zero i)
  have hopen : (b.push e).stack = [0] := by
    show b.nextId :: b.stack = [0]
    rw [hstack, nextId, hsize]
  constructor
  case root =>
    intro l hl
    rw [(hlinks 0 l hl).2]
  case parent =>
    intro i l hl hi
    exact absurd (hlinks i l hl).1 hi
  case child =>
    intro i l k hl hk
    rw [(hlinks i l hl).2] at hk
    exact absurd hk (Array.not_mem_empty k)
  case sorted =>
    intro i l hl
    rw [(hlinks i l hl).2]
    exact .nil
  case root_open =>
    rw [hopen]
    exact List.mem_singleton.mpr rfl
  case stack_lt =>
    intro i hi
    rw [hopen] at hi
    rw [List.mem_singleton.mp hi]
    show 0 < (b.insert e).entries.size
    rw [size_insert]
    exact Nat.succ_pos _
  case stack_sorted =>
    rw [hopen]
    exact List.pairwise_singleton _ _
  case stack_up =>
    intro i l k hl hk
    rw [(hlinks i l hl).2] at hk
    exact absurd hk (Array.not_mem_empty k)
  case settled =>
    intro i l j k hl hj
    rw [(hlinks i l hl).2] at hj
    exact absurd hj (Array.not_mem_empty j)

/-- What `pop` does to an arena: nothing if only the root is open, else it
    closes the innermost open entry. -/
theorem Arena.pop_cases {b : Builder} (h : b.Arena) (stop : Location) :
    (b.stack = [0] ∧ b.pop stop = b) ∨
      ∃ id rest, b.stack = id :: rest ∧ id ≠ 0 ∧ 0 ∈ rest ∧ id ∉ rest ∧
        b.pop stop = { b.close id stop with stack := rest } := by
  match hstack : b.stack with
  | [] =>
    have hroot := h.root_open
    rw [hstack] at hroot
    cases hroot
  | [id] =>
    -- What is open includes the root, so it is the root.
    have hroot := h.root_open
    rw [hstack] at hroot
    rw [List.mem_singleton.mp hroot, pop, closable?, hstack]
    exact Or.inl ⟨rfl, rfl⟩
  | id :: next :: rest =>
    have hroot := h.root_open
    have hsorted := h.stack_sorted
    rw [hstack] at hroot hsorted
    have hlt := (List.pairwise_cons.mp hsorted).1
    have hid : id ≠ 0 := Nat.ne_of_gt (Nat.zero_lt_of_lt (hlt next List.mem_cons_self))
    refine Or.inr ⟨id, next :: rest, rfl, hid, ?_, ?_, ?_⟩
    · exact (List.mem_cons.mp hroot).resolve_left hid.symm
    · intro hmem
      exact Nat.lt_irrefl id (hlt id hmem)
    · rw [pop, closable?, hstack]
      rfl

theorem stack_pop {b : Builder} {id : EntryId} {rest : List EntryId} (hstack : b.stack = id :: rest)
    (hrest : rest ≠ []) (stop : Location) : (b.pop stop).stack = rest := by
  obtain ⟨next, others, rfl⟩ := List.exists_cons_of_ne_nil hrest
  rw [pop, closable?, hstack]
  rfl

theorem Arena.stack_ne_nil {b : Builder} (h : b.Arena) : b.stack ≠ [] :=
  List.ne_nil_of_mem h.root_open

theorem Arena.pop {b : Builder} (h : b.Arena) (stop : Location) : (b.pop stop).Arena := by
  rcases h.pop_cases stop with ⟨_, hpop⟩ | ⟨id, rest, hstack, _, hroot, _, hpop⟩
  · rw [hpop]
    exact h
  · rw [hpop]
    refine h.of_suffix ?_ ?_ ?_ hroot
    · exact size_entries_close ..
    · intro i
      exact links?_close ..
    · rw [hstack]
      exact List.suffix_cons id rest

theorem Arena.popTimes {b : Builder} (h : b.Arena) (stop : Location) (n : Nat) :
    (b.popTimes stop n).Arena := by
  induction n generalizing b with
  | zero => exact h
  | succ n ih => exact ih (h.pop stop)

theorem stack_popTimes {b : Builder} (h : b.Arena) (stop : Location) {n : Nat}
    (hlength : b.stack.length = n + 1) : (b.popTimes stop n).stack = [0] := by
  induction n generalizing b with
  | zero =>
    obtain ⟨id, hstack⟩ := List.length_eq_one_iff.mp hlength
    have hroot := h.root_open
    rw [hstack] at hroot
    show b.stack = [0]
    rw [hstack, List.mem_singleton.mp hroot]
  | succ n ih =>
    -- Another entry is open below the innermost one, so this one is closed.
    obtain ⟨id, rest, hstack⟩ := List.exists_cons_of_length_eq_add_one hlength
    have hrest : rest.length = n + 1 := by
      rw [hstack] at hlength
      exact Nat.succ.inj hlength
    have hpop := stack_pop hstack (List.ne_nil_of_length_eq_add_one hrest) stop
    exact ih (h.pop stop) (by rw [hpop]; exact hrest)

/-! ### The root of a finished outline -/

/-- The root is stretched over a text. -/
def stretchRoot (b : Builder) (eof : Location) : Builder :=
  b.modify 0 fun root => { root with start := .start, stop := eof }

theorem ends?_stretchRoot (b : Builder) (eof : Location) (i : EntryId) :
    (b.stretchRoot eof).ends? i
      = if i = 0 then (b.ends? i).map fun _ => (.start, eof) else b.ends? i := by
  rw [stretchRoot, ends?, entry?_modify]
  split
  · rw [Option.map_map, ends?, Option.map_map]
    rfl
  · rfl

theorem links?_stretchRoot (b : Builder) (eof : Location) (i : EntryId) :
    (b.stretchRoot eof).links? i = b.links? i := by
  rw [stretchRoot, links?, entry?_modify]
  split
  · rw [Option.map_map, links?]
    rfl
  · rfl

/-- An entry is as it was, or it is the root with its new range. -/
theorem exists_entry?_of_stretchRoot {b : Builder} {eof : Location} {i : EntryId} {e : Entry}
    (he : entry? (b.stretchRoot eof) i = some e) :
    ∃ old, b.entry? i = some old ∧ e.id = old.id ∧ e.file = old.file ∧
      (i = 0 → e.start = .start ∧ e.stop = eof) ∧ (i ≠ 0 → e = old) := by
  rw [stretchRoot, entry?_modify] at he
  by_cases hi : i = 0
  · rw [if_pos hi] at he
    obtain ⟨old, hold, rfl⟩ := Option.map_eq_some_iff.mp he
    exact ⟨old, hold, rfl, rfl, fun _ => ⟨rfl, rfl⟩, fun hne => absurd hi hne⟩
  · rw [if_neg hi] at he
    exact ⟨e, he, rfl, rfl, fun hzero => absurd hzero hi, fun _ => rfl⟩

end Builder

end PascalOutline
