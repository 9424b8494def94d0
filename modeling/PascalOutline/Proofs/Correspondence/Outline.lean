import PascalOutline.Proofs.Correspondence.Token
import PascalOutline.Proofs.Outline.Bare

/-! # Outlines of two readings

  Two entries correspond when their texts are the same, respelled, and they
  begin and end at places that belong together. A builder that is given
  corresponding entries and places makes corresponding outlines: the end of
  an entry is the latest of several places, and the later ones of places that
  belong together belong together.
-/

namespace PascalOutline

/-! ### Entries -/

namespace Entry

/-- Whether an entry is the root of a source without a module header. Its name
    comes from the file. -/
def isSynthetic (e : Entry) : Bool :=
  e.id = 0 && e.kind = .other

/-- The entry with every text respelled that comes from the source. -/
def respell (f : String → String) (e : Entry) : Entry :=
  { e with
    name := if e.isSynthetic then e.name else f e.name
    qualifier := e.qualifier.map f
    signature := f e.signature
    args := f e.args
    typeText := f e.typeText
    initializer := f e.initializer
    bases := e.bases.map f
    specifiers := e.specifiers.map f
    uses := e.uses.map f
    doc := f e.doc }

/-- Two entries are the same, respelled, at places that belong together. -/
structure Corresponds (r : Correspondence) (e e' : Entry) : Prop where
  /-- Up to documentation and places they are the same, respelled. -/
  texts : e'.bare = (e.respell r.text).bare
  /-- They begin at places that belong together. -/
  start : r.place e.start e'.start
  /-- They end at places that belong together. -/
  stop : r.place e.stop e'.stop
  /-- Where documentation is compared, theirs is the same, respelled. -/
  doc : r.docs → e'.doc = r.text e.doc

namespace Corresponds

variable {r : Correspondence} {e e' : Entry}

/-- Two entries that are made from declarations correspond as soon as all
    their texts are the same, respelled. -/
theorem of_kind_ne (hkind : e.kind ≠ .other)
    (htexts : e'.bare =
      { e.bare with
        name := r.text e.name
        qualifier := e.qualifier.map r.text
        signature := r.text e.signature
        args := r.text e.args
        typeText := r.text e.typeText
        initializer := r.text e.initializer
        bases := e.bases.map r.text
        specifiers := e.specifiers.map r.text
        uses := e.uses.map r.text })
    (hstart : r.place e.start e'.start) (hstop : r.place e.stop e'.stop)
    (hdoc : r.docs → e'.doc = r.text e.doc) : e.Corresponds r e' := by
  refine ⟨?_, hstart, hstop, hdoc⟩
  rw [htexts]
  simp [Entry.bare, Entry.respell, Entry.isSynthetic, hkind]

theorem children (h : e.Corresponds r e') : e'.children = e.children := by
  have hchildren := congrArg Entry.children h.texts
  exact hchildren

/-- The second entry is the first one respelled, with documentation and places
    of its own. -/
theorem exists_eq (h : e.Corresponds r e') :
    ∃ doc start stop, e' = { e.respell r.text with doc, start, stop } :=
  exists_eq_of_bare_eq h.texts.symm

/-- An entry gets its links when it is placed. Only the root may have a name
    that is not from the source. -/
theorem place (h : e.Corresponds r e') {id : EntryId} (hkind : e.kind ≠ .other ∨ id = e.id)
    {file : String} {parent : Option EntryId} :
    Corresponds r { e with id, file, parent, children := #[] }
      { e' with id, file, parent, children := #[] } := by
  obtain ⟨doc, start, stop, rfl⟩ := h.exists_eq
  refine ⟨?_, h.start, h.stop, h.doc⟩
  rcases hkind with hkind | rfl
  · simp [Entry.bare, Entry.respell, Entry.isSynthetic, hkind]
  · rfl

/-- The root is stretched over the whole text. -/
theorem stretch (h : e.Corresponds r e') {eof eof' : Location} (heof : r.place eof eof') :
    Corresponds r { e with start := .start, stop := max eof .start }
      { e' with start := .start, stop := max eof' .start } :=
  ⟨h.texts, r.place_start, r.place_max heof r.place_start, h.doc⟩

theorem addChild (h : e.Corresponds r e') (id : EntryId) :
    Corresponds r { e with children := e.children.push id }
      { e' with children := e'.children.push id } := by
  obtain ⟨doc, start, stop, rfl⟩ := h.exists_eq
  exact ⟨rfl, h.start, h.stop, h.doc⟩

theorem bare_respell_addDoc (e : Entry) (text : String) (f : String → String) :
    ((e.addDoc text).respell f).bare = (e.respell f).bare := by
  unfold Entry.addDoc
  split
  · rfl
  · split <;> rfl

theorem addDoc (h : e.Corresponds r e') {text text' : String}
    (htext : r.docs → text' = r.text text) :
    (e.addDoc text).Corresponds r (e'.addDoc text') := by
  have hends (e : Entry) (text : String) :
      (e.addDoc text).start = e.start ∧ (e.addDoc text).stop = e.stop :=
    Prod.mk.inj (e.ends_addDoc text)
  obtain ⟨hstart, hstop⟩ := hends e text
  obtain ⟨hstart', hstop'⟩ := hends e' text'
  refine ⟨?_, ?_, ?_, ?_⟩
  · rw [bare_addDoc, bare_respell_addDoc, h.texts]
  · rw [hstart, hstart']
    exact h.start
  · rw [hstop, hstop']
    exact h.stop
  · intro hdocs
    have hbreak : r.text "\n\n" = "\n\n" := r.text_of_lowered_eq rfl
    rw [htext hdocs]
    simp only [Entry.addDoc, r.text_eq_empty_iff, h.doc hdocs]
    split
    · exact h.doc hdocs
    · split
      · rfl
      · simp only [r.text_append, hbreak]

end Corresponds

end Entry

/-! ### Outlines -/

namespace Outline

/-- Two outlines correspond. -/
structure Corresponds (r : Correspondence) (o o' : Outline) : Prop where
  /-- They are of the same file. -/
  file : o'.file = o.file
  /-- The entries correspond. -/
  entries : ∀ id, Option.Rel (Entry.Corresponds r) (o.get? id) (o'.get? id)

/-- What is the same of entries that correspond is the same of outlines that
    correspond. -/
theorem Corresponds.map_entries {r : Correspondence} {o o' : Outline} (h : o.Corresponds r o')
    {α : Type} {f g : Entry → α} (hfg : ∀ {e e'}, Entry.Corresponds r e e' → g e' = f e) :
    o'.entries.map g = o.entries.map f := by
  apply Array.ext_getElem?
  intro id
  have hentry := h.entries id
  rw [Array.getElem?_map, Array.getElem?_map]
  unfold Outline.get? at hentry
  generalize o.entries[id]? = e at hentry ⊢
  generalize o'.entries[id]? = e' at hentry ⊢
  cases hentry with
  | none => rfl
  | some he => exact congrArg some (hfg he)

end Outline

namespace Builder

/-- Documentation is all that changes where paragraphs are added. -/
theorem Documents.exists_doc {b c : Builder} (h : b.Documents c) (id : EntryId) :
    ∃ doc, c.entry? id = (b.entry? id).map fun e => { e with doc } := by
  induction h with
  | refl =>
    cases hentry : b.entry? id with
    | none => exact ⟨"", rfl⟩
    | some e => exact ⟨e.doc, rfl⟩
  | tail _ hstep ih =>
    obtain ⟨i, text, rfl⟩ := hstep
    obtain ⟨doc, hentry⟩ := ih
    rw [Builder.addDoc, entry?_modify, hentry]
    split
    · cases b.entry? id with
      | none => exact ⟨"", rfl⟩
      | some e =>
        refine ⟨({ e with doc } : Entry).addDoc text |>.doc, ?_⟩
        simp only [Option.map_some, Entry.addDoc]
        split
        · rfl
        · split <;> rfl
    · exact ⟨doc, rfl⟩

/-- Two outlines in the making correspond. -/
structure Corresponds (r : Correspondence) (b b' : Builder) : Prop where
  /-- They are of the same file. -/
  file : b'.file = b.file
  /-- The same entries are open. -/
  stack : b'.stack = b.stack
  /-- They have equally many entries. -/
  size : b'.entries.size = b.entries.size
  /-- The entries correspond. -/
  entries : ∀ id, Option.Rel (Entry.Corresponds r) (b.entry? id) (b'.entry? id)

namespace Corresponds

variable {r : Correspondence} {b b' : Builder} {e e' : Entry}

/-! #### Looking -/

theorem nextId (h : b.Corresponds r b') : b'.nextId = b.nextId :=
  h.size

theorem hasRoot (h : b.Corresponds r b') : b'.hasRoot = b.hasRoot := by
  simp [Builder.hasRoot, Array.isEmpty, h.size]

theorem top? (h : b.Corresponds r b') : b'.top? = b.top? := by
  rw [Builder.top?, Builder.top?, h.stack]

theorem unclosed (h : b.Corresponds r b') : b'.unclosed = b.unclosed := by
  rw [Builder.unclosed, Builder.unclosed, h.stack]

theorem lastChild? (h : b.Corresponds r b') (id : EntryId) :
    b'.lastChild? id = b.lastChild? id := by
  have hentry := h.entries id
  unfold Builder.lastChild?
  generalize b.entry? id = e at hentry ⊢
  generalize b'.entry? id = e' at hentry ⊢
  cases hentry with
  | none => rfl
  | some he => exact congrArg Array.back? he.children

/-! #### Changing -/

/-- A change of one entry on both sides. -/
theorem modify (h : b.Corresponds r b') {f g : Entry → Entry}
    (hfg : ∀ {e e'}, Entry.Corresponds r e e' → (f e).Corresponds r (g e')) (id : EntryId) :
    (b.modify id f).Corresponds r (b'.modify id g) := by
  refine ⟨h.file, h.stack, by simp [Builder.modify, h.size], ?_⟩
  intro i
  have hentry := h.entries i
  rw [entry?_modify, entry?_modify]
  generalize b.entry? i = e at hentry ⊢
  generalize b'.entry? i = e' at hentry ⊢
  split
  · cases hentry with
    | none => exact .none
    | some he => exact .some (hfg he)
  · exact hentry

theorem addDoc (h : b.Corresponds r b') {text text' : String}
    (htext : r.docs → text' = r.text text) (id : EntryId) :
    (b.addDoc id text).Corresponds r (b'.addDoc id text') :=
  h.modify (fun he => he.addDoc htext) id

theorem foldl_addDoc (h : b.Corresponds r b') {text text' : String}
    (htext : r.docs → text' = r.text text) (ids : List EntryId) :
    (ids.foldl (fun b id => b.addDoc id text) b).Corresponds r
      (ids.foldl (fun b id => b.addDoc id text') b') := by
  induction ids generalizing b b' with
  | nil => exact h
  | cons id ids ih => exact ih (h.addDoc htext id)

/-- Where documentation is not compared, any may be added on both sides. -/
theorem documents (hdocs : ¬r.docs) (h : b.Corresponds r b') {c c' : Builder}
    (hb : b.Documents c) (hb' : b'.Documents c') : c.Corresponds r c' := by
  have hbare := hb.bare_eq
  have hbare' := hb'.bare_eq
  refine ⟨?_, ?_, ?_, ?_⟩
  · have hfile := congrArg Builder.file hbare
    have hfile' := congrArg Builder.file hbare'
    exact hfile'.trans (h.file.trans hfile.symm)
  · rw [stack_congr hbare', h.stack, stack_congr hbare]
  · exact (nextId_congr hbare').trans (h.nextId.trans (nextId_congr hbare).symm)
  · intro id
    obtain ⟨doc, hentry⟩ := hb.exists_doc id
    obtain ⟨doc', hentry'⟩ := hb'.exists_doc id
    have hold := h.entries id
    rw [hentry, hentry']
    generalize b.entry? id = e at hold ⊢
    generalize b'.entry? id = e' at hold ⊢
    cases hold with
    | none => exact .none
    | some he => exact .some ⟨he.texts, he.start, he.stop, fun hyes => absurd hyes hdocs⟩

theorem insert (h : b.Corresponds r b') (he : e.Corresponds r e')
    (hkind : e.kind ≠ .other ∨ b.nextId = e.id) : (b.insert e).Corresponds r (b'.insert e') := by
  have hstack : (b'.insert e').stack = (b.insert e).stack := h.stack
  refine ⟨h.file, hstack, by rw [size_insert, size_insert, h.size], ?_⟩
  intro i
  have hentry := h.entries i
  rw [entry?_insert, entry?_insert, h.nextId, h.top?, h.file]
  split
  · exact .some (he.place hkind)
  · split
    · -- The entry that holds the new one gets the same child on both sides.
      generalize b.entry? i = holder at hentry ⊢
      generalize b'.entry? i = holder' at hentry ⊢
      cases hentry with
      | none => exact .none
      | some hholder => exact .some (hholder.addChild b.nextId)
    · exact hentry

theorem push (h : b.Corresponds r b') (he : e.Corresponds r e')
    (hkind : e.kind ≠ .other ∨ b.nextId = e.id) : (b.push e).Corresponds r (b'.push e') := by
  have hinsert := h.insert he hkind
  refine ⟨hinsert.file, ?_, hinsert.size, hinsert.entries⟩
  show b'.nextId :: b'.stack = b.nextId :: b.stack
  rw [h.nextId, h.stack]

/-- The ends of the last children belong together, where there are some. -/
theorem lastChildStop (h : b.Corresponds r b') (id : EntryId) :
    Option.Rel r.place ((b.lastChild? id).bind fun child => (b.entry? child).map Entry.stop)
      ((b'.lastChild? id).bind fun child => (b'.entry? child).map Entry.stop) := by
  rw [h.lastChild?]
  cases b.lastChild? id with
  | none => exact .none
  | some child =>
    have hentry := h.entries child
    rw [Option.bind_some, Option.bind_some]
    generalize b.entry? child = e at hentry ⊢
    generalize b'.entry? child = e' at hentry ⊢
    cases hentry with
    | none => exact .none
    | some he => exact .some he.stop

theorem close (h : b.Corresponds r b') {stop stop' : Location} (hstop : r.place stop stop')
    (id : EntryId) : (b.close id stop).Corresponds r (b'.close id stop') := by
  have hchild := h.lastChildStop id
  unfold Builder.close
  generalize (b.lastChild? id).bind (fun child => (b.entry? child).map Entry.stop) = childStop
    at hchild ⊢
  generalize (b'.lastChild? id).bind (fun child => (b'.entry? child).map Entry.stop) = childStop'
    at hchild ⊢
  refine h.modify ?_ id
  intro e e' he
  have hown := r.place_max hstop he.start
  refine ⟨he.texts, he.start, ?_, he.doc⟩
  cases hchild with
  | none => exact hown
  | some hlater => exact r.place_max hown hlater

theorem addLeaf (h : b.Corresponds r b') (he : e.Corresponds r e')
    (hkind : e.kind ≠ .other ∨ b.nextId = e.id) : (b.addLeaf e).Corresponds r (b'.addLeaf e') := by
  rw [Builder.addLeaf, Builder.addLeaf, h.hasRoot, h.nextId]
  split
  · exact (h.insert he hkind).close he.stop _
  · exact h.push he hkind

theorem foldl_addLeaf (h : b.Corresponds r b') {entries entries' : List Entry}
    (he : List.Forall₂ (fun e e' => e.kind ≠ .other ∧ e.Corresponds r e') entries entries') :
    (entries.foldl Builder.addLeaf b).Corresponds r (entries'.foldl Builder.addLeaf b') := by
  induction he generalizing b b' with
  | nil => exact h
  | cons hone _ ih => exact ih (h.addLeaf hone.2 (.inl hone.1))

theorem pop (h : b.Corresponds r b') {stop stop' : Location} (hstop : r.place stop stop') :
    (b.pop stop).Corresponds r (b'.pop stop') := by
  rw [Builder.pop, Builder.pop, Builder.closable?, Builder.closable?, h.stack]
  split
  next id _ =>
    have hclosed := h.close hstop id
    exact ⟨hclosed.file, rfl, hclosed.size, hclosed.entries⟩
  next => exact h

theorem popTimes (h : b.Corresponds r b') {stop stop' : Location} (hstop : r.place stop stop')
    (n : Nat) : (b.popTimes stop n).Corresponds r (b'.popTimes stop' n) := by
  induction n generalizing b b' with
  | zero => exact h
  | succ n ih => exact ih (h.pop hstop)

/-! #### Finishing -/

theorem withRoot (h : b.Corresponds r b') : b.withRoot.Corresponds r b'.withRoot := by
  rw [Builder.withRoot, Builder.withRoot, h.hasRoot]
  split
  · exact h
  next hroot =>
    have hempty : Entry.Corresponds r {} {} :=
      ⟨by simp [Entry.respell, Entry.bare], r.place_nowhere, r.place_nowhere,
        fun _ => r.text_empty.symm⟩
    refine h.push hempty (.inr ?_)
    simpa [Builder.hasRoot, Builder.nextId] using hroot

/-- The finished outlines correspond. -/
theorem finish (h : b.Corresponds r b') {eof eof' : Location} (heof : r.place eof eof') :
    (b.finish eof).Corresponds r (b'.finish eof') := by
  have hclosed : (b.withRoot.popTimes eof b.withRoot.unclosed).Corresponds r
      (b'.withRoot.popTimes eof' b'.withRoot.unclosed) := by
    rw [h.withRoot.unclosed]
    exact h.withRoot.popTimes heof b.withRoot.unclosed
  have hstretched := hclosed.modify (fun he => he.stretch heof) 0
  exact ⟨hclosed.file, hstretched.entries⟩

end Corresponds

end Builder

end PascalOutline
