import PascalOutline.Proofs.DocOptions
import PascalOutline.Proofs.Outline.Closed

/-! # Closing several entries

  When entries are closed from the innermost one on, each of them ends at the
  place where it is closed, unless it begins or its last child ends later. The
  innermost entry is closed first, and what was closed stays as it is. So the
  last child of an entry has its final end when the entry is closed, and the
  ends may as well be read off the outline afterwards (`Arena.entry?_popTimes`).
-/

namespace PascalOutline

theorem Entry.undocumented_addDoc (e : Entry) (text : String) :
    (e.addDoc text).undocumented = e.undocumented := by
  unfold addDoc
  split
  · rfl
  · split <;> rfl

namespace Builder

variable {b b' : Builder} {stop : Location}

/-- Where an entry ends that is closed at a location. -/
def closingStop (b : Builder) (stop : Location) (e : Entry) : Location :=
  let childStop := e.children.back?.bind fun child => (b.entry? child).map Entry.stop
  childStop.elim (max stop e.start) (max (max stop e.start))

/-- An entry that is closed at a location. -/
def closeAt (b : Builder) (stop : Location) (e : Entry) : Entry :=
  { e with stop := b.closingStop stop e }

theorem closeAt_congr {e : Entry}
    (h : ∀ child, e.children.back? = some child → b'.entry? child = b.entry? child) :
    b'.closeAt stop e = b.closeAt stop e := by
  unfold closeAt closingStop
  cases hlast : e.children.back? with
  | none => rfl
  | some child =>
    simp only [Option.bind_some]
    rw [h child hlast]

theorem entry?_close (b : Builder) (id i : EntryId) (stop : Location) :
    entry? (b.close id stop) i
      = if i = id then (b.entry? i).map (b.closeAt stop) else b.entry? i := by
  rw [close, entry?_modify]
  split
  next heq =>
    subst heq
    refine Option.map_congr fun e he => ?_
    simp only [closeAt, closingStop, lastChild?, he, Option.bind_some]
  next => rfl

/-- The innermost open entry is closed, the others stay as they are. -/
theorem entry?_pop_cons {id : EntryId} {rest : List EntryId} (hstack : b.stack = id :: rest)
    (hrest : rest ≠ []) (stop : Location) (i : EntryId) :
    entry? (b.pop stop) i = if i = id then (b.entry? i).map (b.closeAt stop) else b.entry? i := by
  obtain ⟨next, others, rfl⟩ := List.exists_cons_of_ne_nil hrest
  rw [← entry?_close, pop, closable?, hstack]
  rfl

/-- The last child of the innermost open entry is closed. -/
theorem Arena.last_not_open (h : b.Arena) {id child : EntryId} {rest : List EntryId} {e : Entry}
    (hstack : b.stack = id :: rest) (he : b.entry? id = some e)
    (hchild : e.children.back? = some child) : child ∉ b.stack := by
  have hlinks : b.links? id = some e.links := by
    rw [links?, he]
    rfl
  have hlt := (h.child id e.links child hlinks (Array.mem_of_back? hchild)).1
  obtain ⟨top, htop, _, hmax⟩ := h.exists_top
  have hid : top = id := by
    rw [top?, hstack] at htop
    exact (Option.some.inj htop).symm
  intro hopen
  exact Nat.not_lt.mpr (hmax child hopen) (hid ▸ hlt)

/-- Of the open entries the innermost ones are closed, and each of them ends
    where the finished entries say. -/
theorem Arena.entry?_popTimes (h : b.Arena) (stop : Location) {n : Nat}
    (hn : n < b.stack.length) (i : EntryId) :
    entry? (b.popTimes stop n) i
      = if i ∈ b.stack.take n then (b.entry? i).map ((b.popTimes stop n).closeAt stop)
        else b.entry? i := by
  induction n generalizing b with
  | zero => simp [Builder.popTimes]
  | succ n ih =>
    obtain ⟨id, rest, hstack⟩ := List.exists_cons_of_length_pos (Nat.zero_lt_of_lt hn)
    have hlength : n < rest.length := by
      rw [hstack, List.length_cons] at hn
      omega
    have hrest : rest ≠ [] := List.ne_nil_of_length_pos (Nat.lt_of_le_of_lt (Nat.zero_le _) hlength)
    have hpopped : (b.pop stop).stack = rest := stack_pop hstack hrest stop
    have hsorted := h.stack_sorted
    rw [hstack] at hsorted
    have hbelow := (List.pairwise_cons.mp hsorted).1
    have hlater := ih (h.pop stop) (by rw [hpopped]; exact hlength)
    have hfirst := entry?_pop_cons hstack hrest stop
    rw [Builder.popTimes, hlater, hpopped, hstack, List.take_succ_cons]
    by_cases hi : i = id
    · -- The innermost entry was closed first, and its last child before it.
      subst hi
      have hnot : i ∉ rest.take n := fun hmem =>
        Nat.lt_irrefl i (hbelow i (List.mem_of_mem_take hmem))
      rw [if_neg hnot, if_pos List.mem_cons_self, hfirst, if_pos rfl]
      refine Option.map_congr fun e he => (closeAt_congr fun child hchild => ?_).symm
      have hopen := h.last_not_open hstack he hchild
      exact entry?_popTimes h hopen stop (n + 1)
    · rw [hfirst, if_neg hi]
      by_cases hmem : i ∈ rest.take n
      · rw [if_pos hmem, if_pos (List.mem_cons_of_mem _ hmem)]
      · rw [if_neg hmem, if_neg (fun h => (List.mem_cons.mp h).elim hi hmem)]

/-! ### Closing all but the root -/

/-- From `b` to `b'` everything but the root was closed at a location. -/
structure Unwinds (b b' : Builder) (stop : Location) : Prop where
  /-- Only the root is open. -/
  stack : b'.stack = [0]
  /-- What was open ends there, or at its own beginning or at the end of its
      last child if that is later. -/
  closed : ∀ id ∈ b.stack, id ≠ 0 →
    ∃ e, b.entry? id = some e ∧ b'.entry? id = some (b'.closeAt stop e)
  /-- The root and what was closed already stay as they are. -/
  kept : ∀ id, id = 0 ∨ id ∉ b.stack → b'.entry? id = b.entry? id

/-- The root is the outermost open entry. -/
theorem Arena.exists_stack_eq (h : b.Arena) : ∃ above, b.stack = above ++ [0] ∧ 0 ∉ above := by
  have hsorted := h.stack_sorted
  have hroot := h.root_open
  obtain ⟨above, bottom, heq, hnot⟩ := List.eq_append_cons_of_mem hroot
  rw [heq] at hsorted
  have hbelow := (List.pairwise_append.mp hsorted).2.1
  -- Nothing is below the root.
  have hnil : bottom = [] := by
    cases bottom with
    | nil => rfl
    | cons next others =>
      have hlt := (List.pairwise_cons.mp hbelow).1 next List.mem_cons_self
      exact absurd hlt (Nat.not_lt_zero next)
  exact ⟨above, by rw [heq, hnil], hnot⟩

theorem Arena.unwinds_popTimes (h : b.Arena) (stop : Location) :
    b.Unwinds (b.popTimes stop (b.stack.length - 1)) stop := by
  obtain ⟨above, hstack, hnot⟩ := h.exists_stack_eq
  have hlength : b.stack.length = b.stack.length - 1 + 1 := by
    rw [hstack, List.length_append, List.length_singleton]
    omega
  have htake : b.stack.take (b.stack.length - 1) = above := by
    rw [hstack, List.length_append, List.length_singleton, Nat.add_sub_cancel, List.take_left]
  have hentries := h.entry?_popTimes stop (n := b.stack.length - 1) (by omega)
  rw [htake] at hentries
  constructor
  case stack => exact stack_popTimes h stop hlength
  case closed =>
    intro id hid hne
    obtain ⟨e, he⟩ := exists_entry? (h.stack_lt id hid)
    rw [hstack, List.mem_append, List.mem_singleton] at hid
    refine ⟨e, he, ?_⟩
    rw [hentries, if_pos (hid.resolve_right hne), he]
    rfl
  case kept =>
    intro id hid
    rw [hentries, if_neg]
    rcases hid with rfl | hid
    · exact hnot
    · intro hmem
      exact hid (by rw [hstack]; exact List.mem_append_left _ hmem)

/-! ### Nothing but documentation -/

/-- Two builders have the same entries, up to their documentation. -/
def SameUndocumented (b b' : Builder) : Prop :=
  ∀ id, (b'.entry? id).map Entry.undocumented = (b.entry? id).map Entry.undocumented

theorem SameUndocumented.refl (b : Builder) : b.SameUndocumented b :=
  fun _ => rfl

theorem SameUndocumented.trans {b'' : Builder} (h : b.SameUndocumented b')
    (h' : b'.SameUndocumented b'') : b.SameUndocumented b'' :=
  fun id => (h' id).trans (h id)

theorem Documents.sameUndocumented (h : b.Documents b') : b.SameUndocumented b' := by
  induction h with
  | refl => exact .refl b
  | tail _ hstep ih =>
    obtain ⟨id, text, rfl⟩ := hstep
    refine ih.trans fun i => ?_
    rw [Builder.addDoc, entry?_modify]
    split
    · rw [Option.map_map]
      exact Option.map_congr fun e _ => e.undocumented_addDoc text
    · rfl

theorem Documents.nextId (h : b.Documents b') : b'.nextId = b.nextId :=
  h.sameFrame.size

/-! ### Closing one entry where it is read to its end -/

/-- An entry that is closed at a place with everything before it ends there. -/
theorem LiesBefore.entry?_pop (h : b.LiesBefore stop) (harena : b.Arena) {id : EntryId}
    {rest : List EntryId} (hstack : b.stack = id :: rest) (hrest : rest ≠ []) (i : EntryId) :
    entry? (b.pop stop) i = (b.entry? i).map fun e => if i = id then { e with stop } else e := by
  rw [entry?_pop_cons hstack hrest]
  by_cases hi : i = id
  · have hends := h.ends?_pop harena hstack hrest i
    rw [ends?, ends?, entry?_pop_cons hstack hrest] at hends
    simp only [if_pos hi] at hends ⊢
    refine Option.map_congr fun e he => ?_
    rw [he] at hends
    have hplace : b.closingStop stop e = stop :=
      congrArg Prod.snd (Option.some.inj hends)
    rw [closeAt, hplace]
  · simp only [if_neg hi]
    exact Option.map_id'.symm

/-- From `b` to `b'` one entry was closed, and at most documentation added. -/
structure ClosesOnly (b b' : Builder) (id : EntryId) (stop : Location) : Prop where
  /-- No entry was made. -/
  size : b'.nextId = b.nextId
  /-- The entry was the innermost one, and the others are still open. -/
  stack : b.stack = id :: b'.stack
  /-- The entry ends there, and all others are as before. -/
  entries : ∀ i, (b'.entry? i).map Entry.undocumented
    = (b.entry? i).map fun e =>
        if i = id then { e.undocumented with stop } else e.undocumented

/-- Documentation may be added before the entry is closed, and after. -/
theorem LiesBefore.closesOnly {before after : Builder} (h : b.LiesBefore stop)
    (harena : b.Arena) {id : EntryId} {rest : List EntryId} (hstack : b.stack = id :: rest)
    (hrest : rest ≠ []) (hbefore : b.Documents before)
    (hafter : (before.pop stop).Documents after) : b.ClosesOnly after id stop := by
  have hopen : before.stack = id :: rest := hbefore.sameFrame.stack.trans hstack
  constructor
  case size => rw [hafter.nextId, nextId, size_entries_pop, ← nextId, hbefore.nextId]
  case stack => rw [hstack, hafter.sameFrame.stack, stack_pop hopen hrest]
  case entries =>
    intro i
    have hsame := hbefore.sameUndocumented i
    rw [hafter.sameUndocumented i, (h.of_sameFrame hbefore.sameFrame).entry?_pop
      (harena.of_sameFrame hbefore.sameFrame) hopen hrest, Option.map_map]
    by_cases hi : i = id
    · simp only [if_pos hi]
      have hended := congrArg (Option.map fun e => { e with stop }) hsame
      rwa [Option.map_map, Option.map_map] at hended
    · simp only [if_neg hi]
      exact hsame

end Builder

end PascalOutline
