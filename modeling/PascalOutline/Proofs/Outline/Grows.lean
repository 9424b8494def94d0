import PascalOutline.Proofs.Draft

/-! # What stays of an entry

  After an entry was made it gets documentation, children and an end. A module
  gets units, a type gets hints, and an enumeration gets its texts when its
  values were read. All else stays. `Entry.Keeps` says this of one entry, and
  `Builder.Grows` of all entries of a builder, with what is known of those
  that are new.
-/

namespace PascalOutline

/-- `e'` is `e` at a later time. -/
structure Entry.Keeps (e e' : Entry) : Prop where
  /-- It declares the same. -/
  kind : e'.kind = e.kind
  /-- Under the same name. -/
  name : e'.name = e.name
  /-- With the same owner. -/
  qualifier : e'.qualifier = e.qualifier
  /-- The parameters stay. -/
  args : e'.args = e.args
  /-- The texts stay, except that those of a type may be filled in. -/
  texts : e.kind ≠ .type_ → e'.signature = e.signature ∧ e'.typeText = e.typeText
  /-- Specifiers are added at the end. -/
  specifiers : e.specifiers <+: e'.specifiers
  /-- It begins at the same place. -/
  start : e'.start = e.start

namespace Entry.Keeps

variable {e e' e'' : Entry}

theorem refl (e : Entry) : e.Keeps e :=
  ⟨rfl, rfl, rfl, rfl, fun _ => ⟨rfl, rfl⟩, List.prefix_refl _, rfl⟩

theorem trans (h : e.Keeps e') (h' : e'.Keeps e'') : e.Keeps e'' := by
  constructor
  case kind => rw [h'.kind, h.kind]
  case name => rw [h'.name, h.name]
  case qualifier => rw [h'.qualifier, h.qualifier]
  case args => rw [h'.args, h.args]
  case texts =>
    intro hkind
    have hfirst := h.texts hkind
    have hsecond := h'.texts (by rw [h.kind]; exact hkind)
    exact ⟨hsecond.1.trans hfirst.1, hsecond.2.trans hfirst.2⟩
  case specifiers => exact h.specifiers.trans h'.specifiers
  case start => rw [h'.start, h.start]

theorem addDoc (e : Entry) (text : String) : e.Keeps (e.addDoc text) := by
  unfold Entry.addDoc
  split
  · exact .refl e
  · split <;> exact ⟨rfl, rfl, rfl, rfl, fun _ => ⟨rfl, rfl⟩, List.prefix_refl _, rfl⟩

end Entry.Keeps

namespace Builder

/-- From `b` to `b'` entries were made, all of which have a property, and
    those that were there stayed. -/
structure Grows (made : Entry → Prop) (b b' : Builder) : Prop where
  /-- No entry is lost. -/
  size_le : b.entries.size ≤ b'.entries.size
  /-- An entry that was there is still there. -/
  kept : ∀ i e, b.entry? i = some e → ∃ e', b'.entry? i = some e' ∧ e.Keeps e'
  /-- Any other entry was made, and stayed since then. -/
  new : ∀ i e', b'.entry? i = some e' → b.entries.size ≤ i → ∃ e, made e ∧ e.Keeps e'

theorem lt_size_of_entry_eq {b : Builder} {i : EntryId} {e : Entry} (h : b.entry? i = some e) :
    i < b.entries.size :=
  (Array.getElem?_eq_some_iff.mp h).1

theorem exists_entry? {b : Builder} {i : EntryId} (h : i < b.entries.size) :
    ∃ e, b.entry? i = some e :=
  ⟨_, Array.getElem?_eq_getElem h⟩

theorem size_addLeaf (b : Builder) (e : Entry) :
    (b.addLeaf e).entries.size = b.entries.size + 1 := by
  unfold addLeaf
  dsimp only
  split
  · rw [size_entries_close, size_insert]
  · exact b.size_insert e

theorem size_foldl_addLeaf (b : Builder) (entries : List Entry) :
    (entries.foldl Builder.addLeaf b).entries.size = b.entries.size + entries.length := by
  induction entries generalizing b with
  | nil => rfl
  | cons e es ih =>
    rw [List.foldl_cons, ih, size_addLeaf, List.length_cons]
    omega

namespace Grows

variable {made : Entry → Prop} {b b' b'' : Builder}

theorem refl (b : Builder) : b.Grows made b := by
  refine ⟨Nat.le_refl _, fun i e he => ⟨e, he, .refl e⟩, ?_⟩
  intro i e' he hi
  exact absurd (lt_size_of_entry_eq he) (Nat.not_lt.mpr hi)

theorem trans (h : b.Grows made b') (h' : b'.Grows made b'') : b.Grows made b'' := by
  refine ⟨Nat.le_trans h.size_le h'.size_le, ?_, ?_⟩
  · intro i e he
    obtain ⟨e', he', hkeeps⟩ := h.kept i e he
    obtain ⟨e'', he'', hkeeps'⟩ := h'.kept i e' he'
    exact ⟨e'', he'', hkeeps.trans hkeeps'⟩
  · intro i e'' he'' hi
    rcases Nat.lt_or_ge i b'.entries.size with hlt | hge
    · -- An entry that was made first and kept afterwards.
      obtain ⟨e', he'⟩ := exists_entry? hlt
      obtain ⟨e, hmade, hkeeps⟩ := h.new i e' he' hi
      obtain ⟨f, hf, hkeeps'⟩ := h'.kept i e' he'
      obtain rfl : f = e'' := Option.some.inj (hf.symm.trans he'')
      exact ⟨e, hmade, hkeeps.trans hkeeps'⟩
    · exact h'.new i e'' he'' hge

theorem mono {made' : Entry → Prop} (hmono : ∀ e, made e → made' e) (h : b.Grows made b') :
    b.Grows made' b' := by
  refine ⟨h.size_le, h.kept, ?_⟩
  intro i e' he' hi
  obtain ⟨e, hmade, hkeeps⟩ := h.new i e' he' hi
  exact ⟨e, hmono e hmade, hkeeps⟩

/-- No entry is made. -/
theorem of_kept (hsize : b'.entries.size = b.entries.size)
    (hkept : ∀ i e, b.entry? i = some e → ∃ e', b'.entry? i = some e' ∧ e.Keeps e') :
    b.Grows made b' := by
  refine ⟨Nat.le_of_eq hsize.symm, hkept, ?_⟩
  intro i e' he' hi
  have hlt := lt_size_of_entry_eq he'
  rw [hsize] at hlt
  exact absurd hlt (Nat.not_lt.mpr hi)

theorem modify (b : Builder) (id : EntryId) {f : Entry → Entry}
    (hf : ∀ e, b.entry? id = some e → e.Keeps (f e)) : b.Grows made (b.modify id f) := by
  refine .of_kept Array.size_modify ?_
  intro i e he
  rw [entry?_modify]
  by_cases hi : i = id
  · subst hi
    rw [if_pos rfl, he]
    exact ⟨f e, rfl, hf e he⟩
  · rw [if_neg hi]
    exact ⟨e, he, .refl e⟩

theorem addDoc (b : Builder) (id : EntryId) (text : String) : b.Grows made (b.addDoc id text) :=
  .modify b id fun e _ => .addDoc e text

theorem of_documents (h : b.Documents b') : b.Grows made b' := by
  induction h with
  | refl => exact .refl b
  | tail _ hstep ih =>
    obtain ⟨id, text, rfl⟩ := hstep
    exact ih.trans (.addDoc _ id text)

theorem close (b : Builder) (id : EntryId) (stop : Location) : b.Grows made (b.close id stop) :=
  .modify b id fun _ _ => ⟨rfl, rfl, rfl, rfl, fun _ => ⟨rfl, rfl⟩, List.prefix_refl _, rfl⟩

theorem pop (b : Builder) (stop : Location) : b.Grows made (b.pop stop) := by
  unfold Builder.pop
  split
  · rename_i id _
    have hclose : b.Grows made (b.close id stop) := .close b id stop
    exact .of_kept (size_entries_close b id stop) hclose.kept
  · exact .refl b

theorem insert (b : Builder) {e : Entry} (he : made e) : b.Grows made (b.insert e) := by
  refine ⟨by rw [size_insert]; exact Nat.le_succ _, ?_, ?_⟩
  · intro i f hf
    have hne : i ≠ b.nextId := Nat.ne_of_lt (lt_size_of_entry_eq hf)
    rw [entry?_insert, if_neg hne]
    split
    · rw [hf]
      exact ⟨_, rfl, rfl, rfl, rfl, rfl, fun _ => ⟨rfl, rfl⟩, List.prefix_refl _, rfl⟩
    · exact ⟨f, hf, .refl f⟩
  · intro i e' he' hi
    have hlt := lt_size_of_entry_eq he'
    rw [size_insert] at hlt
    -- The new entry is the only one that was not there.
    have hnew : i = b.nextId := Nat.le_antisymm (Nat.le_of_lt_succ hlt) hi
    rw [entry?_insert, if_pos hnew] at he'
    obtain rfl := Option.some.inj he'
    exact ⟨e, he, rfl, rfl, rfl, rfl, fun _ => ⟨rfl, rfl⟩, List.prefix_refl _, rfl⟩

theorem popTimes (b : Builder) (stop : Location) (n : Nat) :
    b.Grows made (b.popTimes stop n) := by
  induction n generalizing b with
  | zero => exact .refl b
  | succ n ih => exact (Grows.pop b stop).trans (ih _)

/-- Where nothing was made, every entry was there before. -/
theorem exists_kept (h : b.Grows (fun _ => False) b') {i : EntryId} {e' : Entry}
    (he' : b'.entry? i = some e') : ∃ e, b.entry? i = some e ∧ e.Keeps e' := by
  rcases Nat.lt_or_ge i b.entries.size with hlt | hge
  · obtain ⟨e, he⟩ := exists_entry? hlt
    obtain ⟨f, hf, hkeeps⟩ := h.kept i e he
    obtain rfl := Option.some.inj (hf.symm.trans he')
    exact ⟨e, he, hkeeps⟩
  · obtain ⟨_, hnone, _⟩ := h.new i e' he' hge
    exact hnone.elim

theorem push (b : Builder) {e : Entry} (he : made e) : b.Grows made (b.push e) :=
  have h := Grows.insert b he
  ⟨h.size_le, h.kept, h.new⟩

theorem addLeaf (b : Builder) {e : Entry} (he : made e) : b.Grows made (b.addLeaf e) := by
  unfold Builder.addLeaf
  dsimp only
  split
  · exact (Grows.insert b he).trans (.close _ _ _)
  · exact .push b he

theorem foldl_addLeaf (b : Builder) {entries : List Entry}
    (hmade : ∀ e ∈ entries, made e) : b.Grows made (entries.foldl Builder.addLeaf b) := by
  induction entries generalizing b with
  | nil => exact .refl b
  | cons e es ih =>
    have hleaf : b.Grows made (b.addLeaf e) := .addLeaf b (hmade e List.mem_cons_self)
    exact hleaf.trans (ih _ fun e' he' => hmade e' (List.mem_cons_of_mem e he'))

end Grows

end Builder

end PascalOutline
