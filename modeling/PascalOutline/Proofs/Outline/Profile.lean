import PascalOutline.Proofs.Outline.Grows

/-! # What sort of entry an entry is

  The profile of an entry is what decides where it may stand and what it may
  hold. It is fixed when the entry is made: nothing that happens to an entry
  afterwards changes it, except that a module may come to use more units.
-/

namespace PascalOutline

/-- What decides where an entry may stand and what it may hold. -/
structure Profile where
  /-- What it declares. -/
  kind : EntryKind
  /-- The visibility of a member. -/
  visibility : Option Visibility
  /-- The owner of a routine that is implemented outside of it. -/
  qualifier : Option String
  /-- Whether it is declared here and defined elsewhere. -/
  forward : Bool
  /-- The units that a module uses. -/
  uses : List String
  /-- The entry that holds it. -/
  parent : Option EntryId

/-- What the root of an outline is: a module, or what stands for a source
    without a header. -/
structure Profile.IsRoot (p : Profile) : Prop where
  /-- It is a module, or of the kind that is made for a source without one. -/
  kind : p.kind.isModule = true ∨ p.kind = .other
  /-- It is no member of a type. -/
  visibility : p.visibility = none
  /-- It has no owner. -/
  qualifier : p.qualifier = none
  /-- It is defined where it is declared. -/
  forward : p.forward = false
  /-- Nothing holds it. -/
  parent : p.parent = none

/-- The profile of an entry. -/
def Entry.profile (e : Entry) : Profile :=
  { kind := e.kind, visibility := e.visibility, qualifier := e.qualifier, forward := e.forward
    uses := e.uses, parent := e.parent }

theorem Entry.profile_addDoc (e : Entry) (text : String) : (e.addDoc text).profile = e.profile := by
  unfold addDoc
  split
  · rfl
  · split <;> rfl

namespace Builder

/-- The profile of the entry with a handle. -/
def profile? (b : Builder) (i : EntryId) : Option Profile :=
  (b.entry? i).map Entry.profile

theorem profile?_of_entry {b : Builder} {i : EntryId} {e : Entry} (he : b.entry? i = some e) :
    b.profile? i = some e.profile := by
  rw [profile?, he]
  rfl

theorem profile?_modify (b : Builder) (id i : EntryId) (f : Entry → Entry) (g : Profile → Profile)
    (hfg : ∀ e, (f e).profile = g e.profile) :
    (b.modify id f).profile? i = if i = id then (b.profile? i).map g else b.profile? i := by
  rw [profile?, entry?_modify]
  split
  · rw [profile?, Option.map_map, Option.map_map]
    exact Option.map_congr fun e _ => hfg e
  · rfl

theorem profile?_modify_of_eq (b : Builder) (id i : EntryId) {f : Entry → Entry}
    (hf : ∀ e, (f e).profile = e.profile) : (b.modify id f).profile? i = b.profile? i := by
  rw [b.profile?_modify id i f (·) hf]
  split
  · exact Option.map_id'
  · rfl

@[simp] theorem profile?_close (b : Builder) (id i : EntryId) (stop : Location) :
    (b.close id stop).profile? i = b.profile? i :=
  b.profile?_modify_of_eq id i fun _ => rfl

@[simp] theorem profile?_pop (b : Builder) (stop : Location) (i : EntryId) :
    (b.pop stop).profile? i = b.profile? i := by
  unfold pop
  split
  · exact b.profile?_close ..
  · rfl

@[simp] theorem profile?_popTimes (b : Builder) (stop : Location) (n : Nat) (i : EntryId) :
    (b.popTimes stop n).profile? i = b.profile? i := by
  induction n generalizing b with
  | zero => rfl
  | succ n ih => rw [popTimes, ih, profile?_pop]

theorem Documents.profile?_eq {b b' : Builder} (h : b.Documents b') (i : EntryId) :
    b'.profile? i = b.profile? i := by
  induction h with
  | refl => rfl
  | tail _ hstep ih =>
    obtain ⟨id, text, rfl⟩ := hstep
    exact (profile?_modify_of_eq _ id i fun e => e.profile_addDoc text).trans ih

theorem profile?_insert (b : Builder) (e : Entry) (i : EntryId) :
    (b.insert e).profile? i
      = if i = b.nextId then some { e.profile with parent := b.top? } else b.profile? i := by
  rw [profile?, entry?_insert]
  split
  · rfl
  · split
    · rw [Option.map_map]
      rfl
    · rfl

theorem profile?_push (b : Builder) (e : Entry) (i : EntryId) :
    (b.push e).profile? i
      = if i = b.nextId then some { e.profile with parent := b.top? } else b.profile? i :=
  b.profile?_insert e i

theorem Arena.profile?_addLeaf {b : Builder} (h : b.Arena) (e : Entry) (i : EntryId) :
    (b.addLeaf e).profile? i
      = if i = b.nextId then some { e.profile with parent := b.top? } else b.profile? i := by
  rw [h.addLeaf_eq, profile?_close, profile?_insert]

theorem lt_size_of_profile? {b : Builder} {i : EntryId} {p : Profile}
    (h : b.profile? i = some p) : i < b.entries.size := by
  obtain ⟨e, he, _⟩ := Option.map_eq_some_iff.mp h
  exact lt_size_of_entry_eq he

end Builder

end PascalOutline
