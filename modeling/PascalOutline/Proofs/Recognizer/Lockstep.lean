import PascalOutline.Proofs.Recognizer.Tracking

/-! # Two runs in lockstep

  From two states that were reached by the same deeds a step leads to two such
  states. So the runs of two recognizers that differ in what documents what
  take the same steps, and the drafts that they end with come from the first
  ones by the same deeds (`State.tracks_run`). In particular the draft of every
  reachable state comes from that of the root by deeds.
-/

namespace PascalOutline

theorem Grounded.exists_opened {blocks : List Block} (h : Grounded blocks) :
    ∃ below rest, blocks.filterMap Block.opened? = below :: rest := by
  obtain ⟨bottom, hlast, hform⟩ := h
  have hmem : bottom ∈ blocks := List.mem_of_getLast? hlast
  cases bottom with
  | statements asm => cases asm <;> cases hform
  | entry id scope =>
    have hopened : (id, scope.holder) ∈ blocks.filterMap Block.opened? :=
      List.mem_filterMap.mpr ⟨_, hmem, rfl⟩
    exact List.exists_cons_of_ne_nil (List.ne_nil_of_mem hopened)

/-- The module stands inside of nothing. -/
theorem Stacked.eq_nil_of_module {module : Block} {rest : List Block}
    (h : Stacked (module :: rest)) (hmodule : module.form = .module) : rest = [] := by
  cases rest with
  | nil => rfl
  | cons below others =>
    have hform := (List.isChain_cons_cons.mp h).1
    rw [hmodule] at hform
    exact absurd hform (Form.module_not_mem_admits _)

namespace State

namespace Tracks

variable {start : Config} {t t' : State} {holder : Holder} {member : Option Visibility}

theorem ite {condition : Prop} [Decidable condition] {u u' : State} (h : Tracks start t t')
    (h' : Tracks start u u') :
    Tracks start (if condition then t else u) (if condition then t' else u') := by
  by_cases hcondition : condition
  · rw [if_pos hcondition, if_pos hcondition]
    exact h
  · rw [if_neg hcondition, if_neg hcondition]
    exact h'

/-! ### Closing -/

theorem closeTop (h : Tracks start t t') (hs : t.Agrees) :
    Tracks start (t.closeTop t.cursor.prevStop) (t'.closeTop t.cursor.prevStop) := by
  unfold State.closeTop
  rw [h.twins.blocks]
  split
  next => exact h
  next asm rest hblocks =>
    refine h.same ⟨h.twins.cursor, rfl, h.twins.stopped⟩ rfl rfl rfl ?_
    rw [opened, opened, hblocks]
    rfl
  next => exact h
  next id scope rest hmodule hblocks =>
    obtain ⟨_, hgrounded⟩ := hs.stack_cons hblocks (Scope.form_ne_module hmodule)
    obtain ⟨below, others, hbelow⟩ := hgrounded.exists_opened
    have hopened := opened_of_blocks hblocks
    rw [hbelow] at hopened
    exact h.deed (.abandon hopened t.still_site) ⟨h.twins.cursor, rfl, h.twins.stopped⟩ rfl rfl rfl
      hbelow

theorem closeTimes (h : Tracks start t t') (hs : t.Agrees) (n : Nat) :
    Tracks start (t.closeTimes t.cursor.prevStop n) (t'.closeTimes t.cursor.prevStop n) := by
  induction n generalizing t t' with
  | zero => exact h
  | succ n ih =>
    -- The cursor does not move, so all blocks end at the same place.
    have hclosed := t.closes_closeTop
    have htimes := ih (h.closeTop hs) (hclosed.agrees hs)
    rw [hclosed.cursor] at htimes
    exact htimes

theorem closeToModule (h : Tracks start t t') (hs : t.Agrees) :
    Tracks start t.closeToModule t'.closeToModule := by
  have htimes := h.closeTimes hs (t.countBlocks fun block => !block.isModule)
  unfold State.closeToModule
  dsimp only
  rw [h.twins.countBlocks, h.twins.cursor]
  split
  · exact htimes
  · exact htimes.log _

theorem closeContainers (h : Tracks start t t') (hs : t.Agrees) :
    Tracks start t.closeContainers t'.closeContainers := by
  unfold State.closeContainers
  dsimp only
  rw [h.twins.countBlocks, h.twins.cursor]
  exact (h.closeTimes hs _).log _

theorem closeAll (h : Tracks start t t') (hs : t.Agrees) : Tracks start t.closeAll t'.closeAll := by
  have htimes := h.closeTimes hs (t.blocks.length - 1)
  unfold State.closeAll
  rw [h.twins.blocks, h.twins.cursor]
  exact htimes.same ⟨htimes.twins.cursor, htimes.twins.blocks, rfl⟩ rfl rfl rfl rfl

theorem closeBodiless (h : Tracks start t t') (hs : t.Agrees) :
    Tracks start t.closeBodiless t'.closeBodiless := by
  unfold State.closeBodiless
  rw [h.twins.cursor]
  exact (h.log _).closeTop (hs.log _)

/-- An open entry whose `end` is passed is closed; what stands before the
    `end` was examined first. -/
theorem closeEntry (h : Tracks start t t') (hs : t.Agrees) {id : EntryId} {scope : Scope}
    {rest : List Block} (hblocks : t.blocks = .entry id scope :: rest)
    (hform : scope.form ≠ .module) :
    Tracks start (({ t with draft := t.draft.sync t.cursor } : State).next.closeEntry id scope)
      (({ t' with draft := t'.draft.sync t'.cursor } : State).next.closeEntry id scope) := by
  obtain ⟨_, hgrounded⟩ := hs.stack_cons hblocks hform
  obtain ⟨below, others, hbelow⟩ := hgrounded.exists_opened
  have hopened := opened_of_blocks hblocks
  rw [hbelow] at hopened
  have hnext := (Cursor.Reaches.refl t.cursor).next
  have hdeed : ∀ (hints : List String) (c : Cursor), t.cursor.Reaches c →
      Deed t.site (fun d => (d.sync t.cursor).conclude (c.passSymbol ";") id
        fun e => { e with specifiers := e.specifiers ++ hints }) _ := fun hints c hc =>
    .shut hopened t.still_site (hc.passSymbol ";")
      (fun e => ⟨rfl, rfl, rfl, rfl, fun _ => ⟨rfl, rfl⟩, List.prefix_append _ _, rfl⟩)
      (fun _ => rfl) (fun _ => rfl) (fun _ => rfl) (fun _ => rfl) fun _ => rfl
  have hblocks' := h.twins.blocks.trans hblocks
  unfold State.closeEntry State.next
  simp only [h.twins.cursor]
  split
  · refine h.deed (hdeed _ _ hnext.directives) ⟨rfl, ?_, h.twins.stopped⟩ rfl rfl rfl ?_
    · exact congrArg List.tail h.twins.blocks
    · show t.blocks.tail.filterMap Block.opened? = _
      rw [hblocks]
      exact hbelow
  · refine h.deed (hdeed _ _ hnext) ⟨rfl, ?_, h.twins.stopped⟩ rfl rfl rfl ?_
    · exact congrArg List.tail h.twins.blocks
    · show t.blocks.tail.filterMap Block.opened? = _
      rw [hblocks]
      exact hbelow

theorem closeBlock (h : Tracks start t t') (hs : t.Agrees) :
    Tracks start t.closeBlock t'.closeBlock := by
  have hsynced := h.sync
  have hclosed := fun {id scope rest} (hblocks : t.blocks = .entry id scope :: rest) hform =>
    h.closeEntry hs hblocks hform
  have hagrees : ({ t with draft := t.draft.sync t.cursor } : State).Agrees := by
    have hframe := t.draft.sameFrame_sync t.cursor
    exact ⟨hs.arena.of_sameFrame hframe, hs.grounded, hs.stack.trans hframe.stack.symm⟩
  have hblocks : ({ t with draft := t.draft.sync t.cursor } : State).blocks = t.blocks := rfl
  have hcursor : ({ t with draft := t.draft.sync t.cursor } : State).cursor = t.cursor := rfl
  unfold State.closeBlock
  dsimp only
  generalize ({ t with draft := t.draft.sync t.cursor } : State) = synced
    at hsynced hclosed hagrees hblocks hcursor ⊢
  generalize ({ t' with draft := t'.draft.sync t'.cursor } : State) = synced' at hsynced hclosed ⊢
  have hpassed := hsynced.next
  have hsurplus : Tracks start (synced.next.log (.surplusEnd synced.next.cursor.prevStop.line))
      (synced'.next.log (.surplusEnd synced'.next.cursor.prevStop.line)) := by
    rw [hpassed.twins.cursor]
    exact hpassed.log _
  rw [h.twins.cursor, h.twins.blocks]
  split
  · rw [← hcursor]
    exact (hsynced.moveTo (synced.cursor.reaches_advance 2)).closeAll
      ⟨hagrees.arena, hagrees.grounded, hagrees.stack⟩
  · split
    next asm rest htop =>
      refine hpassed.same ⟨hpassed.twins.cursor, rfl, hpassed.twins.stopped⟩ rfl rfl rfl ?_
      show rest.filterMap Block.opened? = synced.blocks.filterMap Block.opened?
      rw [hblocks, htop]
      rfl
    next id scope rest htop =>
      split
      next => exact hsurplus
      next hmodule => exact hclosed htop (Scope.form_ne_module hmodule)
    next => exact hsurplus

/-! ### Steps by block -/

theorem nameStep (h : Tracks start t t') (htakes : t.Takes holder none)
    (hconst : holder.declares .const = true) (hvar : holder.declares .var = true)
    (decls : DeclPart) : Tracks start (t.nameStep decls) (t'.nameStep decls) := by
  unfold State.nameStep
  split
  · exact h.typeDecl htakes
  · exact h.valueDecl htakes hconst rfl false
  · exact h.valueDecl htakes hvar rfl false
  · exact h.next

theorem plainStep (h : Tracks start t t') (htakes : t.Takes holder none)
    (hconst : holder.declares .const = true) (hvar : holder.declares .var = true)
    (decls : DeclPart) : Tracks start (t.plainStep decls) (t'.plainStep decls) := by
  unfold State.plainStep
  rw [h.twins.cursor]
  exact h.skipAttribute.ite ((h.nameStep htakes hconst hvar decls).ite h.next)

theorem moduleStep (h : Tracks start t t') (hs : t.Agrees) (hstacked : Stacked t.blocks)
    (hahead : t.cursor.ahead ≠ []) {id : EntryId} {unitPart : UnitPart} {decls : DeclPart}
    {rest : List Block} (hblocks : t.blocks = .entry id (.module unitPart decls) :: rest) :
    Tracks start (t.moduleStep id decls) (t'.moduleStep id decls) := by
  have hopened : t.opened = [(id, .module)] := by
    rw [hblocks] at hstacked
    rw [opened_of_blocks hblocks, hstacked.eq_nil_of_module rfl]
    rfl
  have htakes : t.Takes .module none := ⟨hahead, ⟨id, [], hopened⟩, .module, rfl⟩
  have huses := h.usesClause hopened
  have hsection := h.openSection hahead hopened
  have hroutine := h.routineDecl htakes
  have hplain := h.plainStep htakes rfl rfl decls
  unfold State.moduleStep
  rw [h.twins.keyword?, h.twins.classMemberFollows]
  split
  · exact h.nextTransparent.setScope hblocks rfl
  · exact h.nextTransparent.setScope hblocks rfl
  · exact huses
  · exact huses
  · exact huses
  · exact h.beginPart _
  · exact h.beginPart _
  · exact h.beginPart _
  · exact h.beginPart _
  · exact h.beginPart _
  · exact h.skipStatement.setDecls _
  · exact h.skipStatement.setDecls _
  · exact hsection
  · exact hsection
  · exact h.next.openStatements false
  · exact h.next.openStatements true
  · exact h.closeBlock hs
  · exact hroutine.ite h.next
  · exact hroutine.ite h.next
  · exact hplain

theorem visibilityStep (h : Tracks start t t') {id : EntryId} {kind : EntryKind}
    {visibility : Visibility} {decls : DeclPart} {rest : List Block}
    (hblocks : t.blocks = .entry id (.container kind visibility decls) :: rest)
    (kind' : EntryKind) (visibility' : Visibility) :
    Tracks start (t.visibilityStep kind' visibility') (t'.visibilityStep kind' visibility') := by
  unfold State.visibilityStep
  dsimp only
  rw [h.twins.cursor]
  split
  · exact h.nextTransparent.nextTransparent.setScope hblocks rfl
  · exact h.nextTransparent.setScope hblocks rfl

theorem memberNameStep (h : Tracks start t t') {visibility : Visibility}
    (htakes : t.Takes .container (some visibility)) (decls : DeclPart) :
    Tracks start (t.memberNameStep visibility decls) (t'.memberNameStep visibility decls) := by
  unfold State.memberNameStep
  split
  · exact h.typeDecl htakes
  · exact h.valueDecl htakes rfl rfl false
  · exact h.valueDecl htakes rfl rfl true
  · exact h.next
  · exact h.valueDecl htakes rfl rfl false

theorem memberSymbolStep (h : Tracks start t t') (decls : DeclPart) :
    Tracks start (t.memberSymbolStep decls) (t'.memberSymbolStep decls) := by
  unfold State.memberSymbolStep
  rw [h.twins.cursor]
  split
  · exact (h.setDecls _).next.ite ((h.setDecls _).next.ite h.next)
  · exact h.next

theorem plainMemberStep (h : Tracks start t t') {visibility : Visibility}
    (htakes : t.Takes .container (some visibility)) (decls : DeclPart) :
    Tracks start (t.plainMemberStep visibility decls) (t'.plainMemberStep visibility decls) := by
  unfold State.plainMemberStep
  dsimp only
  rw [h.twins.cursor]
  exact h.skipAttribute.ite ((h.memberNameStep htakes decls).ite (h.memberSymbolStep decls))

theorem classWordStep (h : Tracks start t t') {visibility : Visibility}
    (htakes : t.Takes .container (some visibility)) :
    Tracks start (t.classWordStep visibility) (t'.classWordStep visibility) := by
  unfold State.classWordStep
  rw [h.twins.cursor, h.twins.classMemberFollows]
  exact (h.nextTransparent.nextTransparent.setDecls _).ite
    ((h.propertyDecl htakes).ite ((h.routineDecl htakes).ite h.next))

theorem memberStep (h : Tracks start t t') (hs : t.Agrees) {visibility : Visibility}
    (htakes : t.Takes .container (some visibility)) (kind : EntryKind) (decls : DeclPart) :
    Tracks start (t.memberStep kind visibility decls) (t'.memberStep kind visibility decls) := by
  unfold State.memberStep
  rw [h.twins.keyword?]
  split
  · exact h.beginPart _
  · exact h.classWordStep htakes
  · exact h.beginPart _
  · exact h.beginPart _
  · exact h.propertyDecl htakes
  · exact (h.variantPart htakes decls).ite h.next
  · exact h.closeBlock hs
  · exact h.closeToModule hs
  · exact h.closeToModule hs
  · exact h.closeToModule hs
  · exact h.closeContainers hs
  · exact (h.routineDecl htakes).ite h.next
  · exact h.plainMemberStep htakes decls

theorem containerStep (h : Tracks start t t') (hs : t.Agrees) (hahead : t.cursor.ahead ≠ [])
    {id : EntryId} {kind : EntryKind} {visibility : Visibility} {decls : DeclPart}
    {rest : List Block}
    (hblocks : t.blocks = .entry id (.container kind visibility decls) :: rest) :
    Tracks start (t.containerStep kind visibility decls)
      (t'.containerStep kind visibility decls) := by
  have htakes : t.Takes .container (some visibility) :=
    ⟨hahead, ⟨id, _, opened_of_blocks hblocks⟩, .container, rfl⟩
  unfold State.containerStep
  rw [h.twins.visibility?]
  split
  · exact h.visibilityStep hblocks kind _
  · exact h.memberStep hs htakes kind decls

theorem routineStep (h : Tracks start t t') (hs : t.Agrees) (hahead : t.cursor.ahead ≠ [])
    {id : EntryId} {phase : Phase} {decls : DeclPart} {rest : List Block}
    (hblocks : t.blocks = .entry id (.routine phase decls) :: rest) :
    Tracks start (t.routineStep decls) (t'.routineStep decls) := by
  have htakes : t.Takes .routine none :=
    ⟨hahead, ⟨id, _, opened_of_blocks hblocks⟩, .routine, rfl⟩
  have hroutine := h.routineDecl htakes
  have hplain := h.plainStep htakes rfl rfl decls
  unfold State.routineStep
  rw [h.twins.keyword?, h.twins.classMemberFollows]
  split
  · exact h.next.setScope hblocks rfl
  · exact h.next.setScope hblocks rfl
  · exact h.beginPart _
  · exact h.beginPart _
  · exact h.beginPart _
  · exact h.beginPart _
  · exact h.beginPart _
  · exact h.skipStatement
  · exact hroutine.ite h.next
  · exact h.closeBodiless hs
  · exact h.closeToModule hs
  · exact h.closeToModule hs
  · exact h.closeToModule hs
  · exact hroutine.ite h.next
  · exact hplain

theorem statementStep (h : Tracks start t t') (hs : t.Agrees) :
    Tracks start t.statementStep t'.statementStep := by
  unfold State.statementStep
  rw [h.twins.cursor]
  split
  · exact h.next.openStatements false
  · exact h.next.openStatements false
  · exact h.next.openStatements false
  · exact h.next.openStatements false
  · exact h.next.openStatements true
  · exact h.closeBlock hs
  · exact h.closeToModule hs
  · exact h.closeToModule hs
  · exact h.closeToModule hs
  · exact h.next

theorem asmStep (h : Tracks start t t') (hs : t.Agrees) : Tracks start t.asmStep t'.asmStep := by
  unfold State.asmStep
  rw [h.twins.cursor]
  exact (h.closeBlock hs).ite h.next

/-- The step lemma: the same deeds are done by both steps. -/
theorem step (h : Tracks start t t') (hs : t.Agrees) (hstacked : Stacked t.blocks)
    (hahead : t.cursor.ahead ≠ []) : Tracks start t.step t'.step := by
  unfold State.step
  rw [h.twins.blocks]
  split
  next => exact h.same ⟨h.twins.cursor, rfl, rfl⟩ rfl rfl rfl rfl
  next asm rest hblocks => exact (h.asmStep hs).ite (h.statementStep hs)
  next id scope rest hblocks =>
    split
    · exact h.moduleStep hs hstacked hahead hblocks
    · exact h.containerStep hs hahead hblocks
    · exact h.routineStep hs hahead hblocks
    · exact h.statementStep hs
    · exact h.asmStep hs
    · exact h.statementStep hs

/-- The run lemma: both runs take the same steps. -/
theorem run {t t' : State} (h : Tracks start t t') (hs : t.Agrees) (hstacked : Stacked t.blocks) :
    Tracks start t.run t'.run := by
  have hfinished : ∀ {u u' : State}, u.Twins u' → u.Finished → u'.Finished := by
    intro u u' htwins hdone
    rw [Finished, htwins.stopped, htwins.cursor]
    exact hdone
  by_cases hdone : t.Finished
  · rw [run_of_finished hdone, run_of_finished (hfinished h.twins hdone)]
    exact h
  · obtain ⟨htokens, hrunning⟩ := t.not_finished_iff.mp hdone
    have htokens' : t'.cursor.atEnd = false := by
      rw [h.twins.cursor]
      exact htokens
    rw [run_eq_run_step htokens hrunning, run_eq_run_step htokens' (h.twins.stopped.trans hrunning)]
    have hahead := Cursor.ahead_ne_nil_of_atEnd htokens
    have heffect := effect_step hahead
    have hstep := h.step hs hstacked hahead
    cases hstopped : t.step.stopped with
    | true =>
      have hend : t.step.Finished := Or.inl hstopped
      rw [run_of_finished hend, run_of_finished (hfinished hstep.twins hend)]
      exact hstep
    | false =>
      have hdecreases := heffect.remaining_lt hstopped
      exact hstep.run (heffect.agrees hs) (hstacked.of_blockChange heffect.blocks)
termination_by t.remaining
decreasing_by exact hdecreases

end Tracks

/-! ### The root -/

section Root

variable (options options' : Options) (file : String) (lexemes : List Lexeme)

theorem cursor_root_eq :
    (root options' file lexemes).cursor = (root options file lexemes).cursor := by
  have hheader : ∀ {s t : State} (kind : EntryKind), t.cursor = s.cursor →
      (t.moduleHeader kind).cursor = (s.moduleHeader kind).cursor := by
    intro s t kind hst
    have hpush : ∀ (u : State) (e : Entry), (u.pushItem e).cursor = u.cursor := fun _ _ => rfl
    simp only [moduleHeader, cursor_takeLeading, hst, hpush, cursor_checkName]
    rfl
  have hcursor : (initial options' file lexemes).cursor = (initial options file lexemes).cursor :=
    rfl
  unfold root makeRoot
  dsimp only
  rw [hcursor]
  split
  · exact hheader _ hcursor
  · rfl

theorem nextId_root : (root options file lexemes).nextId = 1 := by
  obtain ⟨empty, e, hsize, _, hframe⟩ := onlyRoot_root options file lexemes
  show (root options file lexemes).draft.builder.entries.size = 1
  rw [hframe.size]
  show (empty.insert e).entries.size = 1
  rw [Builder.size_insert, hsize]

theorem stopped_root : (root options file lexemes).stopped = false := by
  have hchecked : ∀ (s : State) (name : String) (kind : EntryKind) (place : Location),
      (s.checkName name kind place).stopped = s.stopped := by
    intro s name kind place
    unfold checkName
    split <;> rfl
  unfold root makeRoot
  dsimp only
  split
  · exact hchecked ..
  · rfl

theorem exists_profile?_root :
    ∃ p, (root options file lexemes).draft.builder.profile? 0 = some p ∧ p.IsRoot := by
  -- The root is the first entry, and nothing is open before it.
  have hpush : ∀ {b : Builder} {e : Entry}, b.nextId = 0 → b.stack = [] → e.profile.IsRoot →
      ∃ p, (b.push e).profile? 0 = some p ∧ p.IsRoot := by
    intro b e hfirst hstack hprofile
    have htop : b.top? = none := by
      rw [Builder.top?, hstack]
      rfl
    refine ⟨{ e.profile with parent := b.top? }, ?_, ?_⟩
    · rw [Builder.profile?_push, if_pos hfirst.symm]
    · exact ⟨hprofile.kind, hprofile.visibility, hprofile.qualifier, hprofile.forward, htop⟩
  rcases root_cases options file lexemes with
    ⟨t, e, hin, _, hprofile, _, hdraft⟩ | ⟨e, _, hprofile, _, _, hdraft⟩
  · have hframe := (initial options file lexemes).draft.sameFrame_takeLeading
      (initial options file lexemes).cursor
    rw [hin.led] at hframe
    have hdocs := Draft.documents_itemDone (t.build (·.push e)).draft t.cursor [t.nextId]
    obtain ⟨p, hp, hroot⟩ := hpush hframe.size hframe.stack hprofile
    rw [hdraft]
    exact ⟨p, (hdocs.profile?_eq 0).trans hp, hroot⟩
  · rw [hdraft]
    exact hpush rfl rfl hprofile

theorem standsAt_root :
    (root options file lexemes).draft.StandsAt (root options file lexemes).site := by
  have hagrees := agrees_root options file lexemes
  obtain ⟨p, hp, hroot⟩ := exists_profile?_root options file lexemes
  refine ⟨hagrees.arena, hagrees.map_opened.symm, rfl, ?_⟩
  intro x hx
  change x ∈ (root options file lexemes).opened at hx
  rw [opened_of_blocks (blocks_root options file lexemes)] at hx
  obtain rfl := List.mem_singleton.mp hx
  exact ⟨p, hp, hroot.kind, hroot.forward⟩

/-- The drafts with which two readings of the same tokens begin. -/
def rootConfig : Config :=
  ⟨(root options file lexemes).site, (root options file lexemes).draft,
    (root options' file lexemes).draft⟩

theorem tracks_root :
    Tracks (rootConfig options options' file lexemes) (root options file lexemes)
      (root options' file lexemes) := by
  have hblocks := (blocks_root options' file lexemes).trans (blocks_root options file lexemes).symm
  have hcursor := cursor_root_eq options options' file lexemes
  have hstopped :=
    (stopped_root options' file lexemes).trans (stopped_root options file lexemes).symm
  have hsite : (root options' file lexemes).site = (root options file lexemes).site := by
    rw [site, site, hcursor, opened_congr hblocks, nextId_root, nextId_root]
  have hstands' := standsAt_root options' file lexemes
  rw [hsite] at hstands'
  exact ⟨⟨hcursor, hblocks, hstopped⟩, .refl, ⟨standsAt_root options file lexemes, hstands'⟩⟩

/-- Two readings of the same tokens end with drafts that come from the first
    ones by the same deeds. -/
theorem tracks_run :
    Tracks (rootConfig options options' file lexemes) (root options file lexemes).run
      (root options' file lexemes).run := by
  refine (tracks_root options options' file lexemes).run (agrees_root options file lexemes) ?_
  rw [blocks_root]
  exact List.isChain_singleton _

end Root

/-! ### Reachable states -/

section Reachable

variable {options : Options} {file : String} {lexemes : List Lexeme} {s : State}

/-- The two readings may be the same. -/
theorem Reachable.tracks (h : Reachable options file lexemes s) :
    Tracks (rootConfig options options file lexemes) s s := by
  induction h with
  | root => exact tracks_root options options file lexemes
  | step hs hcontinues ih =>
    have hahead := Cursor.ahead_ne_nil_of_atEnd ((not_finished_iff _).mp hcontinues).1
    exact ih.step hs.agrees hs.stacked hahead

/-- Every reachable state comes from the root state by acts. -/
theorem Reachable.acts (h : Reachable options file lexemes s) :
    (State.root options file lexemes).Acts s :=
  h.tracks.steps.acts (tracks_root options options file lexemes).stands

theorem Reachable.steps_step (h : Reachable options file lexemes s) (hcontinues : ¬ s.Finished) :
    Config.Steps ⟨s.site, s.draft, s.draft⟩ ⟨s.step.site, s.step.draft, s.step.draft⟩ := by
  have htracks := h.tracks
  have hahead := Cursor.ahead_ne_nil_of_atEnd (s.not_finished_iff.mp hcontinues).1
  have hhere : Tracks ⟨s.site, s.draft, s.draft⟩ s s := ⟨htracks.twins, .refl, htracks.stands⟩
  exact (hhere.step h.agrees h.stacked hahead).steps

theorem Reachable.acts_step (h : Reachable options file lexemes s) (hcontinues : ¬ s.Finished) :
    s.Acts s.step :=
  (h.steps_step hcontinues).acts h.tracks.stands

/-- Every entry of a reachable state was made from a phrase of the source. -/
theorem Reachable.exists_madeAt (h : Reachable options file lexemes s) {i : EntryId}
    {e : Entry} (he : s.draft.builder.entry? i = some e) :
    ∃ (c : Cursor) (e₀ : Entry), (Cursor.ofLexemes lexemes).Reaches c ∧ e₀.MadeAt c ∧
      e₀.Keeps e := by
  have hacts : (initial options file lexemes).Acts s :=
    Relation.ReflTransGen.trans (acts_root options file lexemes) h.acts
  obtain ⟨e₀, ⟨c, hc, hmade⟩, hkeeps⟩ :=
    (PascalOutline.Acts.grows hacts).1.new i e he (Nat.zero_le i)
  exact ⟨c, e₀, hc, hmade, hkeeps⟩

end Reachable

end State

end PascalOutline
