import PascalOutline.Proofs.Recognizer.Deeds

/-! # Two readings side by side

  Two readings of the same tokens, which may attach documentation in different
  ways, do the same deeds. `State.Tracks` says this of two states; there is one
  lemma for each function of the recognizer, and together they give it for
  the states after any number of steps.
-/

namespace PascalOutline

/-! ### What may be declared where -/

namespace Holder

/-- Declarations other than values of an enumeration stand in such a holder. -/
inductive Declaring : Holder → Prop where
  | module : Declaring .module
  | container : Declaring .container
  | routine : Declaring .routine

variable {holder : Holder} {p : Profile}

theorem Declaring.ne_enumeration (h : holder.Declaring) : holder ≠ .enumeration := by
  rintro rfl
  cases h

/-- A type may be a class-like type, and it may be announced. -/
theorem Admits.retype (h : holder.Admits p) (hholder : holder.Declaring) (hp : p.kind = .type_)
    {kind : EntryKind} (hkind : kind.isContainer = true) (forward : Bool) :
    holder.Admits { p with kind, forward } := by
  have hroutine : kind.isRoutine = false := by
    cases kind with
    | class_ | record | object | interface => rfl
    | _ => cases hkind
  have hqualifier : p.qualifier.isSome ≠ true := by
    intro hsome
    have hroutine := h.qualifier hsome
    rw [hp] at hroutine
    cases hroutine
  constructor
  case kind => cases hholder <;> simp [declares, hkind]
  case visibility => exact h.visibility
  case forward =>
    intro _ hkind
    rw [hroutine] at hkind
    cases hkind
  case qualifier => exact fun hsome => absurd hsome hqualifier
  case uses => exact h.uses

/-- A routine may stand where declarations do, if it is announced in a type. -/
theorem admits_routine (hholder : holder.Declaring) (hkind : p.kind.isRoutine = true)
    (hvisibility : p.visibility.isSome = decide (holder = .container))
    (hforward : holder = .container → p.forward = true) (huses : p.uses = []) :
    holder.Admits p := by
  refine ⟨?_, hvisibility, fun h _ => hforward h, fun _ => hkind, huses⟩
  cases hholder <;> simp [declares, hkind]

/-- Anything without an owner that is no routine stands where its kind does. -/
theorem admits_plain (hkind : holder.declares p.kind = true) (hroutine : p.kind.isRoutine = false)
    (hvisibility : p.visibility.isSome = decide (holder = .container))
    (hqualifier : p.qualifier = none) (huses : p.uses = []) : holder.Admits p := by
  refine ⟨hkind, hvisibility, ?_, ?_, huses⟩
  · intro _ htrue
    rw [hroutine] at htrue
    cases htrue
  · intro hsome
    rw [hqualifier] at hsome
    cases hsome

end Holder

theorem Header.isRoutine_of_routine? {c done : Cursor} {h : Header}
    (hread : Header.routine? c = some (h, done)) : h.kind.isRoutine = true := by
  simp only [Header.routine?, Option.bind_eq_bind, Option.bind_eq_some_iff] at hread
  obtain ⟨kind, ⟨kw, _, hkind⟩, hread⟩ := hread
  obtain ⟨rfl, rfl⟩ := Prod.mk.inj (Option.some.inj hread)
  show kind.isRoutine = true
  cases kw with
  | procedure | function | constructor | destructor | operator => cases hkind; rfl
  | _ => cases hkind

theorem Header.kind_of_property? {c done : Cursor} {h : Header}
    (hread : Header.property? c = some (h, done)) :
    h.kind = .property ∧ h.qualifier = none := by
  simp only [Header.property?] at hread
  split at hread
  next =>
    obtain ⟨rfl, rfl⟩ := Prod.mk.inj (Option.some.inj hread)
    exact ⟨rfl, rfl⟩
  next => cases hread

namespace State

/-! ### Sites -/

/-- The open entries of a state, innermost first. -/
def opened (s : State) : List (EntryId × Holder) :=
  s.blocks.filterMap Block.opened?

/-- Where a state stands. -/
def site (s : State) : Site :=
  ⟨s.cursor, s.opened, s.nextId⟩

theorem still_site (s : State) : s.site.Still := by
  intro id rest hopened
  have hmem : (id, Holder.enumeration) ∈ s.opened := by
    change s.opened = _ at hopened
    rw [hopened]
    exact List.mem_cons_self
  obtain ⟨block, _, hblock⟩ := List.mem_filterMap.mp hmem
  cases block with
  | statements asm => cases hblock
  | entry id scope => cases scope <;> cases hblock

theorem opened_of_blocks {s : State} {id : EntryId} {scope : Scope} {rest : List Block}
    (h : s.blocks = .entry id scope :: rest) :
    s.opened = (id, scope.holder) :: rest.filterMap Block.opened? := by
  rw [opened, h]
  rfl

theorem opened_congr {s t : State} (h : t.blocks = s.blocks) : t.opened = s.opened := by
  rw [opened, opened, h]

/-- The blocks hold the entries open that the builder has open. -/
theorem Agrees.map_opened {s : State} (hs : s.Agrees) :
    s.opened.map Prod.fst = s.draft.builder.stack := by
  rw [← hs.stack, opened, List.map_filterMap]
  congr 1
  funext block
  cases block <;> rfl

/-! ### Tracking -/

/-- Two states of one reading, which may have different drafts. -/
structure Twins (t t' : State) : Prop where
  /-- They stand at the same place. -/
  cursor : t'.cursor = t.cursor
  /-- The same blocks are open. -/
  blocks : t'.blocks = t.blocks
  /-- One goes on if and only if the other does. -/
  stopped : t'.stopped = t.stopped

/-- Two states whose drafts come from those of a configuration by the same
    deeds. -/
structure Tracks (start : Config) (t t' : State) : Prop where
  /-- The states stand at the same place. -/
  twins : t.Twins t'
  /-- The same deeds were done to both drafts. -/
  steps : start.Steps ⟨t.site, t.draft, t'.draft⟩
  /-- Both drafts have the entries that the blocks hold open. -/
  stands : Config.Stands ⟨t.site, t.draft, t'.draft⟩

namespace Twins

variable {t t' : State}

theorem keyword? (h : t.Twins t') : t'.keyword? = t.keyword? := by
  simp only [State.keyword?, h.cursor]

theorem classMemberFollows (h : t.Twins t') : t'.classMemberFollows = t.classMemberFollows := by
  rw [State.classMemberFollows, State.classMemberFollows, h.cursor]

theorem inInterface (h : t.Twins t') : t'.inInterface = t.inInterface := by
  rw [State.inInterface, State.inInterface, h.blocks]

theorem visibility? (h : t.Twins t') : t'.visibility? = t.visibility? := by
  rw [State.visibility?, State.visibility?, h.keyword?, h.cursor]

theorem countBlocks (h : t.Twins t') (p : Block → Bool) : t'.countBlocks p = t.countBlocks p := by
  rw [State.countBlocks, State.countBlocks, h.blocks]

theorem checkName (h : t.Twins t') (name : String) (kind : EntryKind) (place : Location) :
    (t.checkName name kind place).Twins (t'.checkName name kind place) := by
  unfold State.checkName
  split
  · exact ⟨h.cursor, h.blocks, h.stopped⟩
  · exact h

end Twins

namespace Tracks

variable {start : Config} {t t' u u' : State}

theorem nextId (h : Tracks start t t') : t'.nextId = t.nextId :=
  h.stands.second.count

/-- More deeds. -/
theorem goOn (h : Tracks start t t') {q : Site}
    (hsteps : Config.Steps ⟨t.site, t.draft, t'.draft⟩ ⟨q, u.draft, u'.draft⟩)
    (htwins : u.Twins u') (hcursor : u.cursor = q.cursor) (hopened : u.opened = q.opened) :
    Tracks start u u' := by
  have hstands := hsteps.stands h.stands
  have hsite : q = u.site := by
    have hcount : u.nextId = q.count := hstands.first.count
    rw [site, hcursor, hopened, hcount]
  rw [hsite] at hsteps hstands
  exact ⟨htwins, h.steps.trans hsteps, hstands⟩

/-- One more deed. -/
theorem deed (h : Tracks start t t') {g : Draft → Draft} {q : Site} (hdeed : Deed t.site g q)
    (htwins : u.Twins u') (hdraft : u.draft = g t.draft) (hdraft' : u'.draft = g t'.draft)
    (hcursor : u.cursor = q.cursor) (hopened : u.opened = q.opened) : Tracks start u u' := by
  refine h.goOn (q := q) (.single ?_) htwins hcursor hopened
  rw [hdraft, hdraft']
  exact .deed hdeed _ _

/-- Nothing was done to the drafts. -/
theorem same (h : Tracks start t t') (htwins : u.Twins u') (hdraft : u.draft = t.draft)
    (hdraft' : u'.draft = t'.draft) (hcursor : u.cursor = t.cursor)
    (hopened : u.opened = t.opened) : Tracks start u u' :=
  h.deed (.move (.refl _)) htwins hdraft hdraft' hcursor hopened

theorem moveTo (h : Tracks start t t') {c : Cursor} (hc : t.cursor.Reaches c) :
    Tracks start (t.moveTo c) (t'.moveTo c) :=
  h.deed (.move hc) ⟨rfl, h.twins.blocks, h.twins.stopped⟩ rfl rfl rfl rfl

theorem next (h : Tracks start t t') : Tracks start t.next t'.next := by
  unfold State.next
  rw [h.twins.cursor]
  exact h.moveTo (Cursor.Reaches.refl _).next

theorem log (h : Tracks start t t') (e : Event) : Tracks start (t.log e) (t'.log e) :=
  h.deed (.log e) ⟨h.twins.cursor, h.twins.blocks, h.twins.stopped⟩ rfl rfl rfl rfl

theorem sync (h : Tracks start t t') :
    Tracks start { t with draft := t.draft.sync t.cursor }
      { t' with draft := t'.draft.sync t'.cursor } := by
  rw [h.twins.cursor]
  exact h.deed (.sync t.still_site) ⟨rfl, h.twins.blocks, h.twins.stopped⟩ rfl rfl rfl rfl

/-- The tokens up to a cursor are passed without parting documentation from
    what follows. -/
theorem skipTo (h : Tracks start t t') {c : Cursor} (hc : t.cursor.Reaches c) :
    Tracks start { t with cursor := c, draft := (t.draft.sync t.cursor).skipTransparent c }
      { t' with cursor := c, draft := (t'.draft.sync t'.cursor).skipTransparent c } := by
  have hmoved := h.sync.moveTo hc
  exact hmoved.deed (.skip (still_site _)) ⟨rfl, h.twins.blocks, h.twins.stopped⟩ rfl rfl rfl rfl

theorem nextTransparent (h : Tracks start t t') :
    Tracks start t.nextTransparent t'.nextTransparent := by
  have hskip := h.skipTo (Cursor.Reaches.refl t.cursor).next
  unfold State.nextTransparent
  simp only [h.twins.cursor] at hskip ⊢
  exact hskip

/-- The scope of the innermost block changes, but not what it holds. -/
theorem setScope (h : Tracks start t t') {id : EntryId} {old scope : Scope} {rest : List Block}
    (hblocks : t.blocks = .entry id old :: rest) (hholder : scope.holder = old.holder) :
    Tracks start (t.setScope scope) (t'.setScope scope) := by
  have hset (s : State) (hs : s.blocks = .entry id old :: rest) :
      s.setScope scope = { s with blocks := .entry id scope :: rest } := by
    rw [State.setScope, hs]
  rw [hset t hblocks, hset t' (h.twins.blocks.trans hblocks)]
  refine h.same ⟨h.twins.cursor, rfl, h.twins.stopped⟩ rfl rfl rfl ?_
  rw [opened_of_blocks hblocks, ← hholder]
  rfl

theorem setDecls (h : Tracks start t t') (decls : DeclPart) :
    Tracks start (t.setDecls decls) (t'.setDecls decls) := by
  rw [State.setDecls, State.setDecls, h.twins.blocks]
  split
  next hblocks => exact h.setScope hblocks rfl
  next hblocks => exact h.setScope hblocks rfl
  next hblocks => exact h.setScope hblocks rfl
  next => exact h

theorem beginPart (h : Tracks start t t') (decls : DeclPart) :
    Tracks start (t.beginPart decls) (t'.beginPart decls) :=
  h.nextTransparent.setDecls decls

/-- A nameless block is opened. -/
theorem openStatements (h : Tracks start t t') (asm : Bool) :
    Tracks start (t.openBlock (.statements asm)) (t'.openBlock (.statements asm)) := by
  refine h.same ⟨h.twins.cursor, ?_, h.twins.stopped⟩ rfl rfl rfl rfl
  exact congrArg (List.cons _) h.twins.blocks

/-- Documentation is taken for tokens of which no entry is made. -/
theorem takeNothing (h : Tracks start t t') {c : Cursor} (hc : t.cursor.Passes c) :
    Tracks start (t.takeLeading.2.moveTo c) (t'.takeLeading.2.moveTo c) := by
  refine h.deed (.lead t.still_site hc) ⟨rfl, h.twins.blocks, h.twins.stopped⟩ rfl ?_ rfl rfl
  show (t'.draft.takeLeading t'.cursor).2 = (t'.draft.takeLeading t.cursor).2
  rw [h.twins.cursor]

end Tracks

/-! ### Inside of a declaration -/

/-- Two states inside of a declaration that began at two others, which took
    the documentation before it. -/
structure Inside (start : Config) (s s' t t' : State) (doc doc' : String) : Prop where
  /-- Where it began. -/
  tracks : Tracks start s s'
  /-- The documentation that was taken by one state. -/
  led : s.draft.takeLeading s.cursor = (doc, t.draft)
  /-- The documentation that was taken by the other. -/
  led' : s'.draft.takeLeading s.cursor = (doc', t'.draft)
  /-- The cursor moved on. -/
  reaches : s.cursor.Reaches t.cursor
  /-- The states stand at the same place. -/
  twins : t.Twins t'
  /-- No block was opened or closed. -/
  blocks : t.blocks = s.blocks

namespace Inside

variable {start : Config} {s s' t t' : State} {doc doc' : String}

theorem takeLeading (h : Tracks start s s') :
    Inside start s s' s.takeLeading.2 s'.takeLeading.2 s.takeLeading.1 s'.takeLeading.1 := by
  refine ⟨h, rfl, ?_, .refl _, ⟨h.twins.cursor, h.twins.blocks, h.twins.stopped⟩, rfl⟩
  rw [← h.twins.cursor]
  rfl

theorem moveTo (h : Inside start s s' t t' doc doc') {c : Cursor} (hc : t.cursor.Reaches c) :
    Inside start s s' (t.moveTo c) (t'.moveTo c) doc doc' :=
  ⟨h.tracks, h.led, h.led', h.reaches.trans hc, ⟨rfl, h.twins.blocks, h.twins.stopped⟩, h.blocks⟩

theorem checkName (h : Inside start s s' t t' doc doc') (name : String) (kind : EntryKind)
    (place : Location) :
    Inside start s s' (t.checkName name kind place) (t'.checkName name kind place) doc doc' := by
  refine ⟨h.tracks, ?_, ?_, ?_, h.twins.checkName .., ?_⟩
  · rw [draft_checkName]
    exact h.led
  · rw [draft_checkName]
    exact h.led'
  · rw [cursor_checkName]
    exact h.reaches
  · unfold State.checkName
    split <;> exact h.blocks

theorem opened (h : Inside start s s' t t' doc doc') : t.opened = s.opened :=
  opened_congr h.blocks

theorem nextId (h : Inside start s s' t t' doc doc') : t.nextId = s.nextId := by
  have hframe := s.draft.sameFrame_takeLeading s.cursor
  rw [h.led] at hframe
  exact hframe.size

/-- Complete entries are made from the tokens before the cursor. -/
theorem declare (h : Inside start s s' t t' doc doc') {entries : List Entry} {id : EntryId}
    {holder : Holder} {rest : List (EntryId × Holder)} (hopened : s.opened = (id, holder) :: rest)
    (hholder : holder.Declaring) (hmade : ∀ e ∈ entries, e.MadeAt s.cursor)
    (htogether : Entry.MadeTogether s.cursor entries)
    (hbetween : ∀ e ∈ entries, e.Between s.cursor t.cursor)
    (hadmits : ∀ e ∈ entries, holder.Admits e.profile) :
    Tracks start
      ((t.build ((entries.map fun e => { e with doc }).foldl Builder.addLeaf)).itemDone
        (List.range' t.nextId entries.length))
      ((t'.build ((entries.map fun e => { e with doc := doc' }).foldl Builder.addLeaf)).itemDone
        (List.range' t'.nextId entries.length)) := by
  have hdeed : Deed s.site (·.declare s.cursor t.cursor entries) _ :=
    .declare hopened h.reaches hmade htogether hbetween hadmits
      fun henum => absurd henum hholder.ne_enumeration
  refine h.tracks.deed hdeed ⟨h.twins.cursor, h.twins.blocks, h.twins.stopped⟩ ?_ ?_ rfl h.opened
  · rw [Draft.declare, h.led]
    rfl
  · rw [Draft.declare, h.led', ← h.twins.cursor]
    rfl

theorem addItem (h : Inside start s s' t t' doc doc') {e : Entry} {id : EntryId} {holder : Holder}
    {rest : List (EntryId × Holder)} (hopened : s.opened = (id, holder) :: rest)
    (hholder : holder.Declaring) (hmade : e.MadeAt s.cursor)
    (hbetween : e.Between s.cursor t.cursor) (hadmits : holder.Admits e.profile) :
    Tracks start (t.addItem { e with doc }) (t'.addItem { e with doc := doc' }) :=
  h.declare hopened hholder (List.forall_mem_singleton.mpr hmade)
    ⟨List.cons_ne_nil _ _, .inl rfl⟩ (List.forall_mem_singleton.mpr hbetween)
    (List.forall_mem_singleton.mpr hadmits)

/-- An entry is begun and its scope opened. -/
theorem openItem (h : Inside start s s' t t' doc doc') {e : Entry} {id : EntryId} {outer : Holder}
    {rest : List (EntryId × Holder)} (hopened : s.opened = (id, outer) :: rest)
    (hpasses : s.cursor.Passes t.cursor) (hmade : e.MadeAt s.cursor)
    (hstart : e.start = s.cursor.location) (hadmits : outer.Admits e.profile) (scope : Scope)
    (hkind : scope.holder.Is e.kind) (hforward : e.forward = false) :
    Tracks start (t.openItem { e with doc } scope) (t'.openItem { e with doc := doc' } scope) := by
  have hdeed : Deed s.site (·.enter s.cursor t.cursor e) _ :=
    .enter scope.holder hopened s.still_site hpasses hmade hstart hadmits hkind hforward
  have hframe' := s'.draft.sameFrame_takeLeading s.cursor
  rw [h.led'] at hframe'
  have hnext' : t'.nextId = s.nextId := hframe'.size.trans h.tracks.nextId
  refine h.tracks.deed hdeed ⟨h.twins.cursor, ?_, h.twins.stopped⟩ ?_ ?_ rfl ?_
  · show .entry t'.nextId scope :: t'.blocks = .entry t.nextId scope :: t.blocks
    rw [h.twins.blocks, hnext', h.nextId]
  · rw [Draft.enter, h.led]
    rfl
  · rw [Draft.enter, h.led', ← h.twins.cursor]
    rfl
  · show (t.nextId, scope.holder) :: t.opened = (s.nextId, scope.holder) :: s.opened
    rw [h.nextId, h.opened]

end Inside

/-- A declaration may stand at the cursor. The innermost open entry takes it,
    with a visibility if it is a member of a type. -/
structure Takes (t : State) (holder : Holder) (member : Option Visibility) : Prop where
  /-- There is a token. -/
  ahead : t.cursor.ahead ≠ []
  /-- There is an innermost open entry. -/
  opened : ∃ id rest, t.opened = (id, holder) :: rest
  /-- It takes declarations. -/
  declaring : holder.Declaring
  /-- A visibility is given in a type, and only there. -/
  member : member.isSome = decide (holder = .container)

/-! ### Modules, routines and properties -/

namespace Tracks

variable {start : Config} {t t' : State} {holder : Holder} {member : Option Visibility}

theorem usesClause (h : Tracks start t t') {module : EntryId}
    (hopened : t.opened = [(module, .module)]) :
    Tracks start (t.usesClause module) (t'.usesClause module) := by
  unfold State.usesClause
  simp only [h.twins.cursor]
  generalize Clause.units t.cursor.next.ahead = units
  have hmoved := h.moveTo ((Cursor.Reaches.refl t.cursor).next.advance units.length)
  have hdeed : Deed (t.moveTo (t.cursor.next.advance units.length)).site _ _ :=
    .use hopened units.texts
  exact hmoved.deed hdeed ⟨rfl, h.twins.blocks, h.twins.stopped⟩ rfl rfl rfl rfl

theorem openSection (h : Tracks start t t') (hahead : t.cursor.ahead ≠ []) {id : EntryId}
    {rest : List (EntryId × Holder)} (hopened : t.opened = (id, .module) :: rest) :
    Tracks start t.openSection t'.openSection := by
  have hnext := Cursor.passes_next hahead
  have hin := (Inside.takeLeading h).moveTo (c := t.cursor.next) hnext.reaches
  have hopen := hin.openItem hopened hnext
    (e := { kind := .section_, name := lowered t.cursor.text
            signature := t.cursor.textUpTo t.cursor.next
            start := t.cursor.location, stop := t.cursor.next.prevStop })
    (.plain rfl) rfl (Holder.admits_plain rfl rfl rfl rfl rfl) .statements rfl rfl
  unfold State.openSection
  simp only [cursor_takeLeading, h.twins.cursor]
  exact hopen

theorem routineDecl (h : Tracks start t t') (htakes : t.Takes holder member) :
    Tracks start (t.routineDecl member) (t'.routineDecl member) := by
  obtain ⟨id, rest, hopened⟩ := htakes.opened
  have hin := Inside.takeLeading h
  unfold State.routineDecl
  simp only [cursor_takeLeading, h.twins.cursor]
  cases hheader : Header.routine? t.cursor with
  | none =>
    have hnothing := h.takeNothing (Cursor.passes_next htakes.ahead)
    simp only [State.next, hin.twins.cursor, cursor_takeLeading]
    exact hnothing
  | some read =>
    obtain ⟨header, done⟩ := read
    have hcovers := Header.covers_routine? hheader
    have hread : header.ReadAt t.cursor := ⟨done, Or.inl hheader⟩
    have hmade : ∀ forward, Entry.MadeAt t.cursor
        { header.toEntry with forward, visibility := member } := fun forward =>
      .header header hread ⟨rfl, rfl, rfl, rfl, rfl, rfl, List.prefix_refl _⟩ hcovers.start
    have hchecked := (hin.moveTo hcovers.passes.reaches).checkName header.name header.kind
      header.nameAt
    have hcursor : ((t.takeLeading.2.moveTo done).checkName header.name header.kind
        header.nameAt).cursor = done := cursor_checkName ..
    have hinside : t'.takeLeading.2.inInterface = t.takeLeading.2.inInterface :=
      h.twins.inInterface
    have hkind := Header.isRoutine_of_routine? hheader
    dsimp only
    rw [hinside]
    generalize hforward : (member.isSome || t.takeLeading.2.inInterface || header.isForward)
      = forward
    have hadmits : holder.Admits
        (Entry.profile { header.toEntry with forward, visibility := member }) := by
      refine Holder.admits_routine htakes.declaring hkind htakes.member ?_ rfl
      rintro rfl
      have hmember : member.isSome = true := htakes.member
      show forward = true
      rw [← hforward, hmember, Bool.true_or, Bool.true_or]
    cases forward with
    | true =>
      refine hchecked.addItem (e := { header.toEntry with forward := true, visibility := member })
        hopened htakes.declaring (hmade true) ?_ hadmits
      rw [hcursor]
      exact ⟨t.cursor, done, .refl _, hcovers.passes, .refl _, hcovers.start, hcovers.stop⟩
    | false =>
      refine hchecked.openItem (e := { header.toEntry with forward := false, visibility := member })
        hopened ?_ (hmade false) hcovers.start hadmits _ hkind rfl
      rw [hcursor]
      exact hcovers.passes

theorem propertyDecl (h : Tracks start t t') {visibility : Visibility}
    (htakes : t.Takes .container (some visibility)) :
    Tracks start (t.propertyDecl visibility) (t'.propertyDecl visibility) := by
  obtain ⟨id, rest, hopened⟩ := htakes.opened
  have hin := Inside.takeLeading h
  unfold State.propertyDecl
  simp only [cursor_takeLeading, h.twins.cursor]
  cases hheader : Header.property? t.cursor with
  | none =>
    have hnothing := h.takeNothing (Cursor.passes_next htakes.ahead)
    simp only [State.next, hin.twins.cursor, cursor_takeLeading]
    exact hnothing
  | some read =>
    obtain ⟨header, done⟩ := read
    have hcovers := Header.covers_property? hheader
    obtain ⟨hkind, hqualifier⟩ := Header.kind_of_property? hheader
    have hchecked := (hin.moveTo hcovers.passes.reaches).checkName header.name header.kind
      header.nameAt
    refine hchecked.addItem (e := { header.toEntry with visibility := some visibility }) hopened
      htakes.declaring (.header header ⟨done, Or.inr hheader⟩ ?_ hcovers.start) ?_ ?_
    · exact ⟨rfl, rfl, rfl, rfl, rfl, rfl, List.prefix_refl _⟩
    · rw [cursor_checkName]
      exact ⟨t.cursor, done, .refl _, hcovers.passes, .refl _, hcovers.start, hcovers.stop⟩
    · refine Holder.admits_plain ?_ ?_ rfl hqualifier rfl
      · show Holder.container.declares header.kind = true
        rw [hkind]
        rfl
      · show header.kind.isRoutine = false
        rw [hkind]
        rfl

end Tracks

/-! ### Types -/

namespace Inside

variable {start : Config} {s s' t t' : State} {doc doc' : String} {holder : Holder}
  {member : Option Visibility} {e : Entry} (h : Inside start s s' t t' doc doc')
  (htakes : s.Takes holder member) (hpasses : s.cursor.Passes t.cursor)
  (hstart : e.start = s.cursor.location) (hkind : e.kind = .type_)
  (hforward : e.forward = false) (hadmits : holder.Admits e.profile) (first : Cursor)
include h htakes hpasses hstart hkind hadmits

theorem forwardType {kind : EntryKind} (hnew : kind.isContainer = true) :
    Tracks start (t.forwardType first { e with doc } kind)
      (t'.forwardType first { e with doc := doc' } kind) := by
  obtain ⟨id, rest, hopened⟩ := htakes.opened
  have hreaches := (Cursor.Reaches.refl t.cursor).next.passSymbol ";"
  have hplain : kind.isHeaded = false := by
    cases kind with
    | class_ | record | object | interface => rfl
    | _ => cases hnew
  have hitem := (h.moveTo hreaches).addItem
    (e := { e with
      kind, forward := true, signature := first.textUpTo t.cursor.next
      stop := (t.cursor.next.passSymbol ";").prevStop })
    hopened htakes.declaring (.plain hplain)
    ⟨s.cursor, _, .refl _, hpasses.trans_reaches hreaches, .refl _, hstart, rfl⟩
    (hadmits.retype htakes.declaring hkind hnew true)
  unfold State.forwardType
  simp only [h.twins.cursor]
  exact hitem

include hforward

theorem containerType {kind : EntryKind} (hnew : kind.isContainer = true) :
    Tracks start (t.containerType first { e with doc } kind)
      (t'.containerType first { e with doc := doc' } kind) := by
  obtain ⟨id, rest, hopened⟩ := htakes.opened
  have hplain : kind.isHeaded = false := by
    cases kind with
    | class_ | record | object | interface => rfl
    | _ => cases hnew
  have hretype := hadmits.retype htakes.declaring hkind hnew false
  unfold State.containerType
  simp only [h.twins.cursor]
  have hmodifiers := (Cursor.Reaches.refl t.cursor).next.advance
    (Clause.modifiers t.cursor.next.ahead).length
  generalize Clause.modifiers t.cursor.next.ahead = modifiers at hmodifiers ⊢
  have hbases :=
    hmodifiers.advance (Clause.bases (t.cursor.next.advance modifiers.length).ahead).length
  generalize Clause.bases (t.cursor.next.advance modifiers.length).ahead = bases at hbases ⊢
  generalize (t.cursor.next.advance modifiers.length).advance bases.length = c at hbases ⊢
  let made (stop : Location) : Entry := { e with
    kind, specifiers := modifiers.specifiers, bases := modifiers.bases ++ bases.texts
    signature := first.textUpTo c, stop }
  have hadmits' : holder.Admits { e.profile with kind } := by
    rw [← hforward] at hretype
    exact hretype
  split
  · exact (h.moveTo hbases.next).addItem (e := made c.next.prevStop) hopened htakes.declaring
      (.plain hplain)
      ⟨s.cursor, _, .refl _, hpasses.trans_reaches hbases.next, .refl _, hstart, rfl⟩ hadmits'
  · exact (h.moveTo hbases).openItem (e := made c.prevStop) hopened (hpasses.trans_reaches hbases)
      (.plain hplain) hstart hadmits' _ hnew hforward

omit hforward in
theorem plainType :
    Tracks start (t.plainType first { e with doc })
      (t'.plainType first { e with doc := doc' }) := by
  obtain ⟨id, rest, hopened⟩ := htakes.opened
  have hreaches := ((((Cursor.Reaches.refl t.cursor).passTypeExpr []).passSymbol ";").directives)
  have hplain : e.kind.isHeaded = false := by
    rw [hkind]
    rfl
  have hitem := (h.moveTo hreaches).addItem
    (e := { e with
      typeText := (t.cursor.typeExpr []).1
      specifiers := (((t.cursor.typeExpr []).2.passSymbol ";").directives).1
      signature := first.textUpTo (t.cursor.typeExpr []).2
      stop := (((t.cursor.typeExpr []).2.passSymbol ";").directives).2.prevStop })
    hopened htakes.declaring (.plain hplain)
    ⟨s.cursor, _, .refl _, hpasses.trans_reaches hreaches, .refl _, hstart, rfl⟩ hadmits
  unfold State.plainType
  simp only [h.twins.cursor]
  exact hitem

end Inside

/-- The values of an enumeration become entries one after the other. -/
theorem steps_foldl_enumValue {c d : Cursor} {values : List Clause.EnumValue}
    (hvalues : ValuesBetween c values d) (id : EntryId) (rest : List (EntryId × Holder))
    (t t' : State) (n : Nat) :
    ∃ m, Config.Steps ⟨⟨c, (id, .enumeration) :: rest, n⟩, t.draft, t'.draft⟩
      ⟨⟨d, (id, .enumeration) :: rest, m⟩, (values.foldl enumValue t).draft,
        (values.foldl enumValue t').draft⟩ := by
  induction hvalues generalizing t t' n with
  | nil hrest => exact ⟨n, .single (.deed (.move hrest) _ _)⟩
  | @cons c d value others before hpasses _ ih =>
    obtain ⟨m, hothers⟩ := ih (t.enumValue value) (t'.enumValue value) (n + 1)
    refine ⟨m, .trans ?_ hothers⟩
    refine .tail (.single (.deed (.move before) _ _)) ?_
    have hbetween : Entry.Between value.before value.after
        { kind := .enumValue, name := value.name, signature := value.signature
          initializer := value.initializer, start := value.before.location
          stop := value.after.prevStop } :=
      ⟨value.before, value.after, .refl _, hpasses, .refl _, rfl, rfl⟩
    exact .deed (.declare (p := ⟨value.before, (id, .enumeration) :: rest, n⟩) rfl hpasses.reaches
      (List.forall_mem_singleton.mpr (.plain rfl)) ⟨List.cons_ne_nil _ _, .inl rfl⟩
      (List.forall_mem_singleton.mpr hbetween)
      (List.forall_mem_singleton.mpr (Holder.admits_plain rfl rfl rfl rfl rfl))
      fun _ => ⟨_, rfl, rfl⟩) _ _

theorem blocks_foldl_enumValue (values : List Clause.EnumValue) (t : State) :
    (values.foldl enumValue t).blocks = t.blocks ∧
      (values.foldl enumValue t).stopped = t.stopped := by
  induction values generalizing t with
  | nil => exact ⟨rfl, rfl⟩
  | cons value others ih => exact ih (t.enumValue value)

namespace Inside

variable {start : Config} {s s' t t' : State} {doc doc' : String} {holder : Holder}
  {member : Option Visibility} {e : Entry} (h : Inside start s s' t t' doc doc')
  (htakes : s.Takes holder member) (hpasses : s.cursor.Passes t.cursor)
  (hstart : e.start = s.cursor.location) (hkind : e.kind = .type_)
  (hforward : e.forward = false) (hadmits : holder.Admits e.profile) (first : Cursor)
include h htakes hpasses hstart hkind hforward hadmits

/-- An enumeration is begun, its values are declared one after the other, and
    then it is complete. -/
theorem enumType :
    Tracks start (t.enumType first { e with doc }) (t'.enumType first { e with doc := doc' }) := by
  obtain ⟨id, rest, hopened⟩ := htakes.opened
  have hplain : e.kind.isHeaded = false := by
    rw [hkind]
    rfl
  have hframe' := s'.draft.sameFrame_takeLeading s.cursor
  rw [h.led'] at hframe'
  have hnext' : t'.nextId = s.nextId := hframe'.size.trans h.tracks.nextId
  let begun : Entry := { e with stop := t.cursor.location }
  have henter : Config.Step ⟨s.site, s.draft, s'.draft⟩
      ⟨⟨t.cursor, (s.nextId, .enumeration) :: s.opened, s.nextId + 1⟩,
        (t.pushItem { begun with doc }).draft, (t'.pushItem { begun with doc := doc' }).draft⟩ := by
    have hdeed : Deed s.site (·.enter s.cursor t.cursor begun) _ :=
      .enter .enumeration hopened s.still_site hpasses (.plain hplain) hstart hadmits hkind hforward
    have hfirst : s.draft.enter s.cursor t.cursor begun
        = (t.pushItem { begun with doc }).draft := by
      rw [Draft.enter, h.led]
      rfl
    have hsecond : s'.draft.enter s.cursor t.cursor begun
        = (t'.pushItem { begun with doc := doc' }).draft := by
      rw [Draft.enter, h.led', ← h.twins.cursor]
      rfl
    rw [← hfirst, ← hsecond]
    exact .deed hdeed _ _
  have hvalues := valuesBetween_enumValues t.cursor.next
  have hclosing :=
    ((Cursor.Reaches.refl (Clause.enumValues t.cursor.next).2).passTypeExpr []).passSymbol ";"
  unfold State.enumType
  simp only [h.twins.cursor, hnext', h.nextId]
  generalize Clause.enumValues t.cursor.next = read at hvalues hclosing ⊢
  obtain ⟨values, closing⟩ := read
  obtain ⟨m, hsteps⟩ := steps_foldl_enumValue
    (hvalues.of_reaches (Cursor.Reaches.refl t.cursor).next) s.nextId s.opened
    (t.pushItem { begun with doc }) (t'.pushItem { begun with doc := doc' }) (s.nextId + 1)
  have hblocks := fun a => (blocks_foldl_enumValue values a).1
  have hstopped := fun a => (blocks_foldl_enumValue values a).2
  have hconclude : Deed ⟨closing, (s.nextId, .enumeration) :: (id, holder) :: rest, m⟩
      (·.conclude ((closing.passTypeExpr []).passSymbol ";") s.nextId fun e =>
        { e with
          typeText := t.cursor.textUpTo closing
          signature := first.textUpTo (closing.passTypeExpr []) }) _ :=
    .conclude rfl hclosing
      (fun e he => ⟨rfl, rfl, rfl, rfl, fun hne => absurd he hne, List.prefix_refl _, rfl⟩)
      (fun _ => rfl) (fun _ => rfl) (fun _ => rfl) (fun _ => rfl) (fun _ => rfl)
  rw [hopened] at henter hsteps
  refine h.tracks.goOn ((Relation.ReflTransGen.single henter).trans
    (.tail hsteps (.deed hconclude _ _))) ⟨rfl, ?_, ?_⟩ rfl ?_
  · show (values.foldl enumValue _).blocks = (values.foldl enumValue _).blocks
    rw [hblocks, hblocks]
    exact h.twins.blocks
  · show (values.foldl enumValue _).stopped = (values.foldl enumValue _).stopped
    rw [hstopped, hstopped]
    exact h.twins.stopped
  · refine Eq.trans (opened_congr ?_) hopened
    show (values.foldl enumValue _).blocks = s.blocks
    rw [hblocks]
    exact h.blocks

theorem typeBody :
    Tracks start (t.typeBody first { e with doc }) (t'.typeBody first { e with doc := doc' }) := by
  have hplain := h.plainType htakes hpasses hstart hkind hadmits first
  have henum := h.enumType htakes hpasses hstart hkind hforward hadmits first
  have hforwardType := fun {kind : EntryKind} (hnew : kind.isContainer = true) =>
    h.forwardType htakes hpasses hstart hkind hadmits first hnew
  have hcontainer := fun {kind : EntryKind} (hnew : kind.isContainer = true) =>
    h.containerType htakes hpasses hstart hkind hforward hadmits first hnew
  unfold State.typeBody
  simp only [h.twins.cursor]
  split
  · split
    · exact hforwardType rfl
    · split
      · exact hplain
      · exact hcontainer rfl
  · split
    · exact hforwardType rfl
    · exact hcontainer rfl
  · split
    · exact hforwardType rfl
    · exact hcontainer rfl
  · exact hcontainer rfl
  · exact hcontainer rfl
  · split
    · exact henum
    · exact hplain

end Inside

/-! ### Values -/

/-- The names of a declaration lie between its first token and its end. -/
theorem between_names {c d done : Cursor} {names : List Token} (hnames : TokensBetween c names d)
    (hdone : d.Reaches done) (entryOf : Token → Location → Entry)
    (hstart : ∀ u stop, (entryOf u stop).start = u.start)
    (hstop : ∀ u stop, (entryOf u stop).stop = stop) :
    ∀ e ∈ nameEntries names done entryOf, e.Between c done := by
  induction hnames with
  | nil _ =>
    intro e he
    cases he
  | @cons c c' d u us before here after ih =>
    have hpasses := Cursor.passes_next (Cursor.ahead_of_nth? here)
    have hat : ∀ stop, (entryOf u stop).start = c'.location := by
      intro stop
      rw [hstart, Cursor.location_eq_of_peek? here]
    cases us with
    | nil =>
      -- The last name takes the rest of the declaration.
      intro e he
      rw [List.mem_singleton.mp he]
      exact ⟨c', done, before, hpasses.trans_reaches (after.reaches.trans hdone), .refl _, hat _,
        hstop ..⟩
    | cons v vs =>
      intro e he
      rcases List.mem_cons.mp he with rfl | he
      · refine ⟨c', c'.next, before, hpasses, after.reaches.trans hdone, hat _, ?_⟩
        rw [hstop, Cursor.prevStop_next_of_peek? here]
      · obtain ⟨c₁, c₂, hfrom, hrest⟩ := ih hdone e he
        exact ⟨c₁, c₂, before.next.trans hfrom, hrest⟩

namespace Tracks

variable {start : Config} {t t' : State} {holder : Holder} {member : Option Visibility}

theorem typeDecl (h : Tracks start t t') (htakes : t.Takes holder member) :
    Tracks start (t.typeDecl member) (t'.typeDecl member) := by
  have hled := fun {c : Cursor} (hc : t.cursor.Passes c) => h.takeNothing hc
  have hin := Inside.takeLeading h
  have hcursor : t.takeLeading.2.cursor = t.cursor := cursor_takeLeading t
  unfold State.typeDecl
  generalize t.takeLeading = taken at hled hin hcursor ⊢
  generalize t'.takeLeading = taken' at hled hin ⊢
  obtain ⟨doc, t₁⟩ := taken
  obtain ⟨doc', t₁'⟩ := taken'
  dsimp only at hled hin hcursor ⊢
  rw [hin.twins.cursor]
  have hname := (Cursor.Reaches.refl t₁.cursor).passWord "generic"
  generalize t₁.cursor.passWord "generic" = atName at hname ⊢
  by_cases hat : atName.atName = true
  · rw [if_pos hat, if_pos hat]
    have hafter : t₁.cursor.Passes atName.next :=
      hname.trans_passes (Cursor.passes_next (Cursor.ahead_of_atName hat))
    generalize (if atName.next.atSymbol "<" = true then Extent.generics atName.next.ahead
      else ⟨0, false⟩) = generics
    have hgenerics := (Cursor.Reaches.refl atName.next).advance generics.length
    generalize atName.next.advance generics.length = c at hgenerics ⊢
    split
    · have hreaches := (((hgenerics.nextIf (!generics.tookEquals)).passKeyword .type_).advance
        (Clause.packing ((c.nextIf (!generics.tookEquals)).passKeyword .type_).ahead))
      refine (hin.moveTo (hafter.reaches.trans hreaches)).typeBody
        (e :=
          { kind := .type_, name := atName.text, start := t₁.cursor.location
            visibility := member })
        htakes ?_ (congrArg Cursor.location hcursor) rfl rfl ?_ t₁.cursor
      · rw [← hcursor]
        exact hafter.trans_reaches hreaches
      · refine Holder.admits_plain ?_ rfl htakes.member rfl rfl
        cases htakes.declaring <;> rfl
    · rw [hcursor] at hafter
      exact hled (hafter.trans_reaches ((hgenerics.passTypeExpr []).passSymbol ";"))
  · rw [if_neg hat, if_neg hat]
    rw [hcursor] at hname
    exact hled (hname.passes_next htakes.ahead)

theorem valueDecl (h : Tracks start t t') (htakes : t.Takes holder member) {kind : EntryKind}
    (hkind : holder.declares kind = true) (hplain : kind.isHeaded = false) (classField : Bool) :
    Tracks start (t.valueDecl kind member classField) (t'.valueDecl kind member classField) := by
  obtain ⟨id, rest, hopened⟩ := htakes.opened
  have hled := h.takeNothing (Cursor.passes_next htakes.ahead)
  have hin := Inside.takeLeading h
  rcases htaken : t.takeLeading with ⟨doc, t₁⟩
  rcases htaken' : t'.takeLeading with ⟨doc', t₁'⟩
  have hcursor : t₁.cursor = t.cursor := by
    rw [← cursor_takeLeading t, htaken]
  rw [htaken, htaken'] at hled hin
  rcases hread : Clause.declaredNames t.cursor.ahead with ⟨names, n⟩
  by_cases hne : names = []
  · rw [hne] at hread
    have hread₁ : Clause.declaredNames t₁.cursor.ahead = ([], n) := by rw [hcursor, hread]
    have hread₁' : Clause.declaredNames t₁'.cursor.ahead = ([], n) := by
      rw [hin.twins.cursor, hread₁]
    rw [valueDecl_of_no_name htaken hread₁, valueDecl_of_no_name htaken' hread₁']
    unfold State.next
    rw [hin.twins.cursor, hcursor]
    exact hled
  · obtain ⟨done, entryOf, hdone, hentry, hprofile, heq⟩ :=
      exists_valueDecl t.cursor kind member classField hread hne
    rw [heq t t₁ doc htaken hcursor, heq t' t₁' doc' htaken' (hin.twins.cursor.trans hcursor)]
    have hnames := tokensBetween_declaredNames t.cursor rfl
    rw [hread] at hnames
    have hparts := hentry.map_nameEntries names done
    have hlength : (nameEntries names done entryOf).length = names.length := by
      have hlengths := congrArg List.length hparts
      rwa [List.length_map, List.length_map] at hlengths
    have hreaches : t₁.cursor.Reaches done := by
      rw [hcursor]
      exact (t.cursor.reaches_advance n).trans hdone
    rw [← hlength]
    refine (hin.moveTo hreaches).declare hopened htakes.declaring ?_ ⟨?_, .inr ?_⟩ ?_ ?_
    · intro e he
      obtain ⟨u, stop, rfl⟩ := mem_nameEntries he
      refine .plain ?_
      rw [hentry.kind]
      exact hplain
    · intro hnil
      rw [hnil] at hlength
      exact hne (List.eq_nil_of_length_eq_zero hlength.symm)
    · rw [hparts, hread]
    · exact between_names hnames hdone entryOf hentry.start hentry.stop
    · intro e he
      obtain ⟨u, stop, rfl⟩ := mem_nameEntries he
      rw [hprofile]
      refine Holder.admits_plain hkind ?_ htakes.member rfl rfl
      cases kind with
      | procedure | function | constructor | destructor | operator => cases hplain
      | _ => rfl

theorem variantPart (h : Tracks start t t') {visibility : Visibility}
    (htakes : t.Takes .container (some visibility)) (decls : DeclPart) :
    Tracks start (t.variantPart visibility decls) (t'.variantPart visibility decls) := by
  -- After the tag, if there is one, the word `of` is passed.
  have hof : ∀ {u u' : State}, Tracks start u u' → ∀ decls,
      Tracks start ((u.moveTo (u.cursor.passKeyword .of_)).setDecls decls)
        ((u'.moveTo (u'.cursor.passKeyword .of_)).setDecls decls) := by
    intro u u' hu decls
    rw [hu.twins.cursor]
    exact (hu.moveTo ((Cursor.Reaches.refl _).passKeyword .of_)).setDecls decls
  unfold State.variantPart
  dsimp only
  refine hof ?_ _
  simp only [h.twins.cursor]
  split
  next htag =>
    obtain ⟨id, rest, hopened⟩ := htakes.opened
    have hname : t.cursor.nthIsName 1 = true := (Bool.and_eq_true_iff.mp htag).1
    have hahead : t.cursor.next.ahead ≠ [] := by
      obtain ⟨u, hu, _⟩ := (Option.any_eq_true _ _).mp hname
      have hnext : t.cursor.next.nth? 0 = some u := by
        rw [Cursor.nth?, Cursor.next, Cursor.ahead_advance, List.getElem?_drop]
        exact hu
      exact Cursor.ahead_of_nth? hnext
    have hpasses := (Cursor.passes_advance hahead Nat.two_pos).trans_reaches
      ((Cursor.Reaches.refl _).passTypeExpr ["of"])
    have hnext := (Cursor.Reaches.refl t.cursor).next
    have hitem := ((Inside.takeLeading h).moveTo (hnext.trans hpasses.reaches)).addItem
      (e := {
        kind := .field
        name := t.cursor.next.text
        typeText := ((t.cursor.next.advance 2).typeExpr ["of"]).1
        signature := t.cursor.next.textUpTo ((t.cursor.next.advance 2).typeExpr ["of"]).2
        visibility := some visibility
        start := t.cursor.next.location
        stop := ((t.cursor.next.advance 2).typeExpr ["of"]).2.prevStop })
      hopened htakes.declaring (.plain rfl)
      ⟨t.cursor.next, _, hnext, hpasses, .refl _, rfl, rfl⟩
      (Holder.admits_plain rfl rfl rfl rfl rfl)
    simp only [cursor_takeLeading, h.twins.cursor]
    exact hitem
  next => exact h.moveTo ((Cursor.Reaches.refl _).next.passTypeExpr ["of"])

/-! ### What makes no entry -/

theorem skipAttribute (h : Tracks start t t') : Tracks start t.skipAttribute t'.skipAttribute := by
  have hskip := h.skipTo ((Cursor.Reaches.refl t.cursor).passGroup "[" "]")
  unfold State.skipAttribute
  simp only [h.twins.cursor] at hskip ⊢
  exact hskip

theorem skipStatement (h : Tracks start t t') : Tracks start t.skipStatement t'.skipStatement := by
  unfold State.skipStatement
  simp only [h.twins.cursor]
  exact h.moveTo ((Cursor.Reaches.refl _).next.advance _)

end Tracks

end State

end PascalOutline
