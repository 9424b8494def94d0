import PascalOutline.Proofs.Draft

/-! # Outlines without layout

  An entry is *bare* without its documentation and its locations. A builder
  makes bare entries out of bare entries: what it adds, opens and closes does
  not depend on comments or on places in the text. So two builders whose
  entries are equal when bare stay so under the same operations, whatever the
  locations that they are given.
-/

namespace PascalOutline

/-- An entry without its documentation and its locations. -/
def Entry.bare (e : Entry) : Entry :=
  { e with doc := "", start := .nowhere, stop := .nowhere }

theorem Entry.exists_eq_of_bare_eq {e e' : Entry} (hbare : e.bare = e'.bare) :
    ∃ doc start stop, e' = { e with doc, start, stop } := by
  refine ⟨e'.doc, e'.start, e'.stop, ?_⟩
  simp only [bare, Entry.mk.injEq] at hbare
  simp only [hbare]

theorem Entry.bare_addDoc (e : Entry) (text : String) : (e.addDoc text).bare = e.bare := by
  unfold addDoc
  split
  · rfl
  · split <;> rfl

/-- The entries of an outline without their documentation and locations. -/
def Outline.bareEntries (o : Outline) : Array Entry :=
  o.entries.map Entry.bare

/-- A change of one entry that commutes with `bare` is seen in the bare
    entries. -/
theorem map_bare_modify {f g : Entry → Entry} (hf : ∀ e, (f e).bare = g e.bare)
    (entries : Array Entry) (i : EntryId) :
    (entries.modify i f).map Entry.bare = (entries.map Entry.bare).modify i g := by
  apply Array.ext
  · simp
  · intro j hj hj'
    simp only [Array.getElem_map, Array.getElem_modify]
    split
    · exact hf _
    · rfl

/-- A change of one entry that its bare form does not show. -/
theorem map_bare_modify_of_eq {f : Entry → Entry} (hf : ∀ e, (f e).bare = e.bare)
    (entries : Array Entry) (i : EntryId) :
    (entries.modify i f).map Entry.bare = entries.map Entry.bare := by
  rw [map_bare_modify (g := id) hf]
  apply Array.toList_inj.mp
  rw [Array.toList_modify, List.modify_id]

namespace Builder

/-- A builder whose entries are bare. -/
def bare (b : Builder) : Builder :=
  { b with entries := b.entries.map Entry.bare }

variable {b b' : Builder} {e e' : Entry}

/-! ### Looking -/

theorem nextId_bare (b : Builder) : b.bare.nextId = b.nextId := by
  simp [nextId, bare]

theorem hasRoot_bare (b : Builder) : b.bare.hasRoot = b.hasRoot := by
  simp [hasRoot, bare, Array.isEmpty]

theorem nextId_congr (h : b.bare = b'.bare) : b.nextId = b'.nextId := by
  rw [← b.nextId_bare, h, nextId_bare]

theorem hasRoot_congr (h : b.bare = b'.bare) : b.hasRoot = b'.hasRoot := by
  rw [← b.hasRoot_bare, h, hasRoot_bare]

theorem stack_congr (h : b.bare = b'.bare) : b.stack = b'.stack := by
  rw [show b.stack = b.bare.stack from rfl, h]
  rfl

theorem unclosed_congr (h : b.bare = b'.bare) : b.unclosed = b'.unclosed := by
  rw [unclosed, unclosed, stack_congr h]

/-! ### Changing -/

theorem bare_modify {f g : Entry → Entry} (hf : ∀ e, (f e).bare = g e.bare) (b : Builder)
    (id : EntryId) : (b.modify id f).bare = b.bare.modify id g := by
  rw [bare, modify, map_bare_modify hf]
  rfl

theorem bare_addDoc (b : Builder) (id : EntryId) (text : String) :
    (b.addDoc id text).bare = b.bare := by
  rw [bare, addDoc, modify, map_bare_modify_of_eq fun e => e.bare_addDoc text]
  rfl

theorem Documents.bare_eq (h : b.Documents b') : b'.bare = b.bare := by
  induction h with
  | refl => rfl
  | tail _ hstep ih =>
    obtain ⟨id, text, rfl⟩ := hstep
    rw [bare_addDoc, ih]

theorem bare_close (b : Builder) (id : EntryId) (stop : Location) :
    (b.close id stop).bare = b.bare := by
  rw [bare, close, modify, map_bare_modify_of_eq]
  · rfl
  · intro e
    rfl

theorem bare_insert (b : Builder) (e : Entry) : (b.insert e).bare = b.bare.insert e.bare := by
  rw [insert, insert, nextId_bare]
  cases htop : b.top? with
  | none =>
    rw [show b.bare.top? = none from htop]
    simp only [bare, Array.map_push]
    rfl
  | some p =>
    rw [show b.bare.top? = some p from htop]
    have hlinked :
        (b.entries.modify p fun e => { e with children := e.children.push b.nextId }).map Entry.bare
          = (b.entries.map Entry.bare).modify p
              fun e => { e with children := e.children.push b.nextId } := by
      apply map_bare_modify
      intro e
      rfl
    simp only [bare, Array.map_push, hlinked]
    rfl

theorem bare_push (b : Builder) (e : Entry) : (b.push e).bare = b.bare.push e.bare := by
  rw [push, push, ← bare_insert, nextId_bare]
  rfl

theorem insert_congr (h : b.bare = b'.bare) (he : e.bare = e'.bare) :
    (b.insert e).bare = (b'.insert e').bare := by
  rw [bare_insert, bare_insert, h, he]

theorem push_congr (h : b.bare = b'.bare) (he : e.bare = e'.bare) :
    (b.push e).bare = (b'.push e').bare := by
  rw [bare_push, bare_push, h, he]

theorem addLeaf_congr (h : b.bare = b'.bare) (he : e.bare = e'.bare) :
    (b.addLeaf e).bare = (b'.addLeaf e').bare := by
  rw [addLeaf, addLeaf, hasRoot_congr h]
  split
  · rw [bare_close, bare_close, insert_congr h he]
  · exact push_congr h he

theorem foldl_addLeaf_congr (h : b.bare = b'.bare) {entries entries' : List Entry}
    (he : entries.map Entry.bare = entries'.map Entry.bare) :
    (entries.foldl addLeaf b).bare = (entries'.foldl addLeaf b').bare := by
  induction entries generalizing entries' b b' with
  | nil =>
    rw [List.map_nil, eq_comm, List.map_eq_nil_iff] at he
    rw [he]
    exact h
  | cons e entries ih =>
    obtain ⟨e', rest, rfl, hhead, hrest⟩ := List.map_eq_cons_iff.mp he.symm
    exact ih (addLeaf_congr h hhead.symm) hrest.symm

theorem modify_congr {f : Entry → Entry} (hf : ∀ e, (f e).bare = f e.bare) (h : b.bare = b'.bare)
    (id : EntryId) : (b.modify id f).bare = (b'.modify id f).bare := by
  rw [bare_modify hf, bare_modify hf, h]

theorem pop_congr (h : b.bare = b'.bare) (stop stop' : Location) :
    (b.pop stop).bare = (b'.pop stop').bare := by
  rw [pop, pop, closable?, closable?, stack_congr h]
  split
  next id _ =>
    show ({ (b.close id stop).bare with stack := b'.stack.tail } : Builder) =
      { (b'.close id stop').bare with stack := b'.stack.tail }
    rw [bare_close, bare_close, h]
  next => exact h

theorem popTimes_congr (h : b.bare = b'.bare) (stop stop' : Location) (n : Nat) :
    (b.popTimes stop n).bare = (b'.popTimes stop' n).bare := by
  induction n generalizing b b' with
  | zero => exact h
  | succ n ih => exact ih (pop_congr h stop stop')

/-! ### Finishing -/

theorem withRoot_congr (h : b.bare = b'.bare) : b.withRoot.bare = b'.withRoot.bare := by
  rw [withRoot, withRoot, hasRoot_congr h]
  split
  · exact h
  · exact push_congr h rfl

/-- The root is stretched over the whole text, which its bare form does not
    show. -/
theorem finish_congr (h : b.bare = b'.bare) (eof eof' : Location) :
    (b.finish eof).bareEntries = (b'.finish eof').bareEntries := by
  have hroot := withRoot_congr h
  have hclosed := popTimes_congr hroot eof eof' b'.withRoot.unclosed
  simp only [Outline.bareEntries, finish, unclosed_congr hroot]
  rw [map_bare_modify_of_eq, map_bare_modify_of_eq]
  · exact congrArg Builder.entries hclosed
  · intro e
    rfl
  · intro e
    rfl

end Builder

end PascalOutline
