import PascalOutline.Proofs.Cursor.CutShort
import PascalOutline.Proofs.Outline.Profile
import PascalOutline.Proofs.Recognizer.Blocks

/-! # The acts of the recognizer

  Whatever the recognizer does to its draft is a sequence of a few acts at the
  cursor: lexemes are examined, entries are made or closed, a text is added to
  an entry. `Act` lists them, with what is known of the entries that are made:
  what they are made from, and whose documentation they get.
  Every reachable state comes from the beginning of the source by acts alone
  (`State.Reachable.acts`), so what no act breaks holds of every such state.
-/

namespace PascalOutline

/-! ### Acts -/

/-- Whether an entry of a kind is declared by a header that can be read on its
    own: a routine or a property. -/
def EntryKind.isHeaded : EntryKind → Bool
  | .property => true
  | kind => kind.isRoutine

/-- What an entry is made from: the header that begins at a cursor, or a
    phrase that declares neither a routine nor a property. -/
inductive Entry.MadeAt (c : Cursor) (e : Entry) : Prop where
  /-- A routine or a property. -/
  | header (h : Header) (hread : h.ReadAt c) (hentry : h.toEntry.Restates e)
      (hstart : e.start = c.location)
  /-- Anything else. -/
  | plain (hkind : e.kind.isHeaded = false)

/-- Entries that one declaration makes: a single one, or one for each of the
    names that stand together at a cursor. -/
structure Entry.MadeTogether (c : Cursor) (entries : List Entry) : Prop where
  /-- There is one. -/
  nonempty : entries ≠ []
  /-- They belong together. -/
  together : entries.length = 1 ∨
    entries.map (fun e => (e.name, e.start))
      = (Clause.declaredNames c.ahead).1.map fun u => (u.text, u.start)

theorem Entry.MadeTogether.range'_ne_nil {c : Cursor} {entries : List Entry}
    (h : MadeTogether c entries) (id : EntryId) : List.range' id entries.length ≠ [] := by
  rw [ne_eq, List.range'_eq_nil_iff]
  exact fun hzero => h.nonempty (List.eq_nil_of_length_eq_zero hzero)

/-- One thing that is done to a draft at a cursor. -/
inductive Act : Cursor × Draft → Cursor × Draft → Prop where
  /-- The cursor moves on. -/
  | move {c c' : Cursor} {d : Draft} (hreaches : c.Reaches c') : Act (c, d) (c', d)
  /-- An event is noted. -/
  | log {c : Cursor} {d : Draft} (e : Event) : Act (c, d) (c, d.log e)
  /-- Everything before the cursor is examined. -/
  | sync {c : Cursor} {d : Draft} : Act (c, d) (c, d.sync c)
  /-- The tokens before the cursor do not part documentation from what
      follows. -/
  | skip {c : Cursor} {d : Draft} : Act (c, d) (c, d.skipTransparent c)
  /-- Documentation is taken for what begins at the cursor, and lost since no
      entry is made. -/
  | lead {c : Cursor} {d : Draft} : Act (c, d) (c, (d.takeLeading c).2)
  /-- What lies before a later cursor becomes entries, which get the
      documentation before the cursor. -/
  | declare {c c' : Cursor} {d led : Draft} {doc : String} {entries : List Entry}
      (hled : d.takeLeading c = (doc, led)) (hreaches : c.Reaches c')
      (hmade : ∀ e ∈ entries, e.MadeAt c) (htogether : Entry.MadeTogether c entries)
      (hdoc : ∀ e ∈ entries, e.doc = doc) :
      Act (c, d)
        (c', Draft.itemDone { led with builder := entries.foldl Builder.addLeaf led.builder } c'
          (List.range' led.builder.nextId entries.length))
  /-- What lies before a later cursor begins an entry, which gets the
      documentation before the cursor. -/
  | enter {c c' : Cursor} {d led : Draft} {e : Entry} (hled : d.takeLeading c = (e.doc, led))
      (hreaches : c.Reaches c') (hmade : e.MadeAt c) :
      Act (c, d)
        (c', Draft.itemDone { led with builder := led.builder.push e } c' [led.builder.nextId])
  /-- An entry is begun that no phrase of the source declares. -/
  | push {c : Cursor} {d : Draft} {e : Entry} (hmade : e.MadeAt c) (hdoc : e.doc = "") :
      Act (c, d) (c, { d with builder := d.builder.push e })
  /-- An entry is complete that ends before the cursor. -/
  | item {c : Cursor} {d : Draft} {id : EntryId} (hid : id < d.builder.entries.size) :
      Act (c, d) (c, d.itemDone c [id])
  /-- A text of an entry is added. -/
  | amend {c : Cursor} {d : Draft} (id : EntryId) {f : Entry → Entry}
      (hkeeps : ∀ e, d.builder.entry? id = some e → e.Keeps (f e)) (hdoc : ∀ e, (f e).doc = e.doc) :
      Act (c, d) (c, { d with builder := d.builder.modify id f })
  /-- The innermost open entry ends before the cursor. -/
  | pop {c : Cursor} {d : Draft} : Act (c, d) (c, { d with builder := d.builder.pop c.prevStop })

/-- Any number of acts. -/
abbrev Acts : Cursor × Draft → Cursor × Draft → Prop :=
  Relation.ReflTransGen Act

theorem Act.reaches {x y : Cursor × Draft} (h : Act x y) : x.1.Reaches y.1 := by
  cases h with
  | move hreaches | declare _ hreaches _ _ _ | enter _ hreaches _ => exact hreaches
  | log | sync | skip | lead | push | item | amend | pop => exact .refl _

/-- The entries of a builder after an act, with what is known of a new one. -/
theorem Act.grows {x y : Cursor × Draft} (h : Act x y) :
    x.2.builder.Grows (·.MadeAt x.1) y.2.builder := by
  cases h with
  | move | log => exact .refl _
  | sync => exact .of_documents (Draft.documents_sync _ _)
  | skip => exact .of_documents (Draft.documents_skipTransparent _ _)
  | lead => exact .of_documents (Draft.documents_takeLeading _ _)
  | @declare c c' d led doc entries hled _ hmade _ _ =>
    have hdocs : d.Documents led := by
      have hlead := d.documents_takeLeading c
      rwa [hled] at hlead
    exact ((Builder.Grows.of_documents hdocs).trans (.foldl_addLeaf _ hmade)).trans
      (.of_documents (Draft.documents_itemDone
        { led with builder := entries.foldl Builder.addLeaf led.builder } _ _))
  | @enter c c' d led e hled _ hmade =>
    have hdocs : d.Documents led := by
      have hlead := d.documents_takeLeading c
      rwa [hled] at hlead
    exact ((Builder.Grows.of_documents hdocs).trans (.push _ hmade)).trans
      (.of_documents (Draft.documents_itemDone { led with builder := led.builder.push e } _ _))
  | push hmade _ => exact .push _ hmade
  | item => exact .of_documents (Draft.documents_itemDone _ _ _)
  | amend id hkeeps _ => exact .modify _ id hkeeps
  | pop => exact .pop _ _

/-- What is made by acts is made at cursors that are reached. -/
theorem Acts.grows {x y : Cursor × Draft} (h : Acts x y) :
    x.2.builder.Grows (fun e => ∃ c, x.1.Reaches c ∧ e.MadeAt c) y.2.builder ∧
      x.1.Reaches y.1 := by
  induction h with
  | refl => exact ⟨.refl _, .refl _⟩
  | tail _ hstep ih =>
    refine ⟨ih.1.trans (hstep.grows.mono ?_), ih.2.trans hstep.reaches⟩
    intro e hmade
    exact ⟨_, ih.2, hmade⟩

/-! ### Functions of a state -/

namespace State

/-- From `s` to `t` only acts were done. -/
abbrev Acts (s t : State) : Prop :=
  PascalOutline.Acts (s.cursor, s.draft) (t.cursor, t.draft)

@[simp] theorem draft_checkName (s : State) (name : String) (kind : EntryKind)
    (place : Location) : (s.checkName name kind place).draft = s.draft := by
  unfold checkName
  split <;> rfl

/-- The entry that a block holds open is there. -/
theorem Agrees.lt_size {s : State} (hs : s.Agrees) {id : EntryId} {scope : Scope}
    (h : .entry id scope ∈ s.blocks) : id < s.draft.builder.entries.size := by
  refine hs.arena.stack_lt id ?_
  rw [← hs.stack]
  exact List.mem_filterMap.mpr ⟨_, h, rfl⟩

/-- `t` stands inside of a declaration that began at `s`, with documentation
    `doc`. -/
structure Within (s t : State) (doc : String) : Prop where
  /-- Nothing was done but to take the documentation. -/
  led : s.draft.takeLeading s.cursor = (doc, t.draft)
  /-- The cursor moved on. -/
  reaches : s.cursor.Reaches t.cursor

namespace Within

variable {s t : State} {doc : String}

theorem takeLeading (s : State) : s.Within s.takeLeading.2 s.takeLeading.1 :=
  ⟨rfl, .refl _⟩

theorem moveTo (h : s.Within t doc) {c : Cursor} (hc : t.cursor.Reaches c) :
    s.Within (t.moveTo c) doc :=
  ⟨h.led, h.reaches.trans hc⟩

theorem checkName (h : s.Within t doc) (name : String) (kind : EntryKind) (place : Location) :
    s.Within (t.checkName name kind place) doc := by
  constructor
  · rw [draft_checkName]
    exact h.led
  · rw [cursor_checkName]
    exact h.reaches

end Within

/-- A module header is the beginning of one entry. -/
theorem exists_pushItem_eq_moduleHeader (s : State) {kind : EntryKind}
    (hkind : kind.isModule = true) :
    ∃ (t : State) (e : Entry), s.Within t e.doc ∧ e.MadeAt s.cursor ∧ e.profile.IsRoot ∧
      s.moduleHeader kind = t.pushItem e := by
  refine ⟨_, _, ((Within.takeLeading s).moveTo ?_).checkName _ _ _, ?_, ?_, rfl⟩
  · refine Cursor.Reaches.passSymbol (Cursor.Reaches.passHeaderRest ?_) ";"
    exact ((Cursor.Reaches.refl _).next.advance _).passGroup "(" ")"
  · refine .plain ?_
    show kind.isHeaded = false
    cases kind <;> first | rfl | cases hkind
  · exact ⟨.inl hkind, rfl, rfl, rfl, rfl⟩

/-! ### The root -/

theorem isModule_of_moduleKind? {c : Cursor} {kind : EntryKind} (h : moduleKind? c = some kind) :
    kind.isModule = true := by
  unfold moduleKind? at h
  split at h
  · cases h; rfl
  · cases h; rfl
  · cases h; rfl
  · split at h
    · cases h; rfl
    · cases h
  · cases h

/-- A module header begins with a token. -/
theorem exists_peek?_of_moduleKind? {c : Cursor} (h : (moduleKind? c).isSome = true) :
    ∃ t, c.peek? = some t := by
  cases hpeek : c.peek? with
  | some t => exact ⟨t, rfl⟩
  | none =>
    have hkeyword : c.keyword? = none := by
      rw [Cursor.keyword?, Cursor.nthKeyword?, show c.nth? 0 = none from hpeek]
      rfl
    rw [moduleKind?, hkeyword] at h
    cases h

section Root

variable (options : Options) (file : String) (lexemes : List Lexeme)

/-- A module header makes the root. -/
theorem exists_root_of_header (h : (moduleKind? (Cursor.ofLexemes lexemes)).isSome = true) :
    ∃ (t : State) (e : Entry), (initial options file lexemes).Within t e.doc ∧
      e.MadeAt (initial options file lexemes).cursor ∧ e.profile.IsRoot ∧
      (root options file lexemes).cursor = (t.pushItem e).cursor ∧
      (root options file lexemes).draft = (t.pushItem e).draft := by
  obtain ⟨kind, hkind⟩ := Option.isSome_iff_exists.mp h
  have hkind : moduleKind? (initial options file lexemes).cursor = some kind := hkind
  obtain ⟨t, e, hin, hmade, hprofile, hheader⟩ :=
    exists_pushItem_eq_moduleHeader (initial options file lexemes) (isModule_of_moduleKind? hkind)
  refine ⟨t, e, hin, hmade, hprofile, ?_⟩
  rw [← hheader]
  unfold root makeRoot
  rw [hkind]
  exact ⟨rfl, rfl⟩

/-- Without a module header no phrase declares the root. -/
theorem exists_root_of_no_header (h : moduleKind? (Cursor.ofLexemes lexemes) = none) :
    ∃ e : Entry, e.MadeAt (initial options file lexemes).cursor ∧ e.profile.IsRoot ∧ e.doc = "" ∧
      (root options file lexemes).cursor = (initial options file lexemes).cursor ∧
      (root options file lexemes).draft
        = ((initial options file lexemes).build (·.push e)).draft := by
  have hnone : moduleKind? (initial options file lexemes).cursor = none := h
  unfold root makeRoot
  rw [hnone]
  exact ⟨_, .plain rfl, ⟨.inr rfl, rfl, rfl, rfl, rfl⟩, rfl, rfl, rfl⟩

/-- The root is the entry of a module header, or one that no phrase declares. -/
theorem root_cases :
    (∃ (t : State) (e : Entry), (initial options file lexemes).Within t e.doc ∧
      e.MadeAt (initial options file lexemes).cursor ∧ e.profile.IsRoot ∧
      (root options file lexemes).cursor = (t.pushItem e).cursor ∧
      (root options file lexemes).draft = (t.pushItem e).draft) ∨
    ∃ e : Entry, e.MadeAt (initial options file lexemes).cursor ∧ e.profile.IsRoot ∧ e.doc = "" ∧
      (root options file lexemes).cursor = (initial options file lexemes).cursor ∧
      (root options file lexemes).draft
        = ((initial options file lexemes).build (·.push e)).draft := by
  cases hkind : moduleKind? (Cursor.ofLexemes lexemes) with
  | some kind => exact .inl (exists_root_of_header options file lexemes (hkind ▸ rfl))
  | none => exact .inr (exists_root_of_no_header options file lexemes hkind)

theorem acts_root : (initial options file lexemes).Acts (root options file lexemes) := by
  unfold Acts
  rcases root_cases options file lexemes with
    ⟨t, e, hin, hmade, _, hcursor, hdraft⟩ | ⟨e, hmade, _, hdoc, hcursor, hdraft⟩
  · rw [hcursor, hdraft]
    exact Relation.ReflTransGen.single (.enter hin.led hin.reaches hmade)
  · rw [hcursor, hdraft]
    exact Relation.ReflTransGen.single (.push hmade hdoc)

end Root

end State

end PascalOutline
