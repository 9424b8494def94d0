import PascalOutline.Proofs.Recognizer.Fork

/-! # Steps on two sources that begin alike

  One step takes two states that share the stem of a fork to two states that
  share it, unless the first one is past it (`State.Shares.step`). A step that
  closes blocks passes no token or only an `end`, and looks at the token behind
  it; so it is the last two tokens of the stem that the final `end.` may be.
-/

namespace PascalOutline

namespace State

open Cursor (Reaches reaches_advance)

variable {f : Fork} {s t : State}

namespace Shares

/-! ### Closing blocks -/

theorem closeTop (h : Shares f s t) {stop stop' : Location} (hstop : stop' = stop) :
    Shares f (s.closeTop stop) (t.closeTop stop') := by
  subst hstop
  have hpop := h.draft.build (·.pop stop')
  rw [State.closeTop, State.closeTop, h.blocks]
  split
  · exact h
  · exact ⟨h.cursor, h.draft, rfl, h.diagnostics, h.stopped⟩
  · exact h
  · exact ⟨h.cursor, hpop, rfl, h.diagnostics, h.stopped⟩

theorem closeTimes (h : Shares f s t) {stop stop' : Location} (hstop : stop' = stop) (n : Nat) :
    Shares f (s.closeTimes stop n) (t.closeTimes stop' n) := by
  induction n generalizing s t with
  | zero => exact h
  | succ n ih => exact ih (h.closeTop hstop)

theorem countBlocks (h : Shares f s t) (p : Block → Bool) : t.countBlocks p = s.countBlocks p := by
  rw [State.countBlocks, State.countBlocks, h.blocks]

theorem closeToModule (h : Shares f s t) : Shares f s.closeToModule t.closeToModule := by
  have hclosed := h.closeTimes h.cursor.prevStop (s.countBlocks fun block => !block.isModule)
  unfold State.closeToModule
  dsimp only
  rw [h.countBlocks]
  split
  · exact hclosed
  · refine hclosed.log ?_
    rw [h.cursor.text, h.cursor.location]

theorem closeContainers (h : Shares f s t) : Shares f s.closeContainers t.closeContainers := by
  have hclosed := h.closeTimes h.cursor.prevStop (s.countBlocks Block.isContainer)
  unfold State.closeContainers
  dsimp only
  rw [h.countBlocks]
  refine hclosed.log ?_
  rw [h.cursor.location]

theorem closeAll (h : Shares f s t) : Shares f s.closeAll t.closeAll := by
  have hclosed := h.closeTimes h.cursor.prevStop (s.blocks.length - 1)
  rw [State.closeAll, State.closeAll, h.blocks]
  exact ⟨hclosed.cursor, hclosed.draft, hclosed.blocks, hclosed.diagnostics, rfl⟩

theorem closeBodiless (h : Shares f s t) : Shares f s.closeBodiless t.closeBodiless := by
  refine (h.log ?_).closeTop h.cursor.prevStop
  rw [h.cursor.location]

theorem closeEntry (h : Shares f s t) (id : EntryId) (scope : Scope) :
    Shadows f (s.closeEntry id scope) (t.closeEntry id scope) := by
  -- What was read between the `end` and the semicolon was read on both sides.
  have hread : ∀ (hints : List String) {c d : Cursor},
      Cursor.Shadows f (c.passSymbol ";") (d.passSymbol ";") →
      Shadows f
        (((State.moveTo { s with blocks := s.blocks.tail } (c.passSymbol ";")).build fun b =>
          (b.modify id fun e => { e with specifiers := e.specifiers ++ hints }).pop
            (c.passSymbol ";").prevStop).itemDone [id])
        (((State.moveTo { t with blocks := t.blocks.tail } (d.passSymbol ";")).build fun b =>
          (b.modify id fun e => { e with specifiers := e.specifiers ++ hints }).pop
            (d.passSymbol ";").prevStop).itemDone [id]) := by
    intro hints c d hcd bdone
    have hdone := hcd bdone
    have htail : Shares f { s with blocks := s.blocks.tail } { t with blocks := t.blocks.tail } :=
      ⟨h.cursor, h.draft, congrArg List.tail h.blocks, h.diagnostics, h.stopped⟩
    refine ((htail.moveTo hdone).build ?_).itemDone rfl
    rw [hdone.prevStop]
  have hsame := hread [] (h.cursor.shadows.passSymbol ";")
  cases scope with
  | container kind visibility decls =>
    intro bdone
    have bhints : s.cursor.directives.2.Before f.size :=
      ((Reaches.refl _).passSymbol ";").before bdone
    unfold State.closeEntry at bdone ⊢
    dsimp only at bdone ⊢
    rw [h.cursor.directives bhints]
    exact hread _ (h.cursor.shadows.directives.passSymbol ";") bdone
  | module unitPart decls => exact hsame
  | routine phase decls => exact hsame
  | statements => exact hsame

end Shares

namespace Shadows

theorem log (h : Shadows f s t) {e e' : Event} (he : Shares f s t → e' = e) :
    Shadows f (s.log e) (t.log e') :=
  h.map rfl fun hs => hs.log (he hs)

theorem closeAll (h : Shadows f s t) : Shadows f s.closeAll t.closeAll :=
  h.map (s.closes_closeTimes _).cursor Shares.closeAll

theorem closeEntry (h : Shadows f s t) (id : EntryId) (scope : Scope) :
    Shadows f (s.closeEntry id scope) (t.closeEntry id scope) := by
  refine .of_reaches (c := s.cursor) (Reaches.passSymbol ?_ ";") fun hbefore =>
    (h hbefore).closeEntry id scope
  split
  · exact (Reaches.refl _).directives
  · exact .refl _

end Shadows

namespace Shares

/-- Everything before an `end` is examined. -/
theorem sync (h : Shares f s t) : Shares f { s with draft := s.draft.sync s.cursor }
    { t with draft := t.draft.sync t.cursor } :=
  ⟨h.cursor, h.draft.sync h.cursor, h.blocks, h.diagnostics, h.stopped⟩

theorem closeBlock (h : Shares f s t) : Shadows f s.closeBlock t.closeBlock := by
  have hsynced := h.sync
  unfold State.closeBlock
  dsimp only
  generalize ({ s with draft := s.draft.sync s.cursor } : State) = synced at hsynced ⊢
  generalize ({ t with draft := t.draft.sync t.cursor } : State) = synced' at hsynced ⊢
  have hpassed := hsynced.next
  have hsurplus := hpassed.log fun hs => congrArg (Event.surplusEnd ·.line) hs.cursor.prevStop
  rw [h.cursor.nthIsSymbol Nat.one_lt_two, h.blocks]
  -- The final `end` is passed with its point, any other one alone.
  refine .ite (hsynced.moves (h.cursor.shadows.advance 2)).closeAll ?_
  split
  · exact hpassed.map rfl fun hs => ⟨hs.cursor, hs.draft, rfl, hs.diagnostics, hs.stopped⟩
  · split
    · exact hsurplus
    · exact hpassed.closeEntry _ _
  · exact hsurplus

/-! ### Steps by block -/

theorem beginPart (h : Shares f s t) (decls : DeclPart) :
    Shadows f (s.beginPart decls) (t.beginPart decls) :=
  h.nextTransparent.setDecls decls

theorem nameStep (h : Shares f s t) (decls : DeclPart) :
    Shadows f (s.nameStep decls) (t.nameStep decls) := by
  unfold State.nameStep
  split
  · exact h.typeDecl none
  · exact h.valueDecl .const none false
  · exact h.valueDecl .var none false
  · exact h.next

theorem plainStep (h : Shares f s t) (decls : DeclPart) :
    Shadows f (s.plainStep decls) (t.plainStep decls) := by
  unfold State.plainStep
  rw [h.cursor.atSymbol, h.cursor.atName]
  exact .ite h.skipAttribute (.ite (h.nameStep decls) h.next)

theorem moduleStep (h : Shares f s t) (id : EntryId) (decls : DeclPart) :
    Shadows f (s.moduleStep id decls) (t.moduleStep id decls) := by
  unfold State.moduleStep
  rw [h.keyword?, h.classMemberFollows]
  split
  · exact h.nextTransparent.setScope _
  · exact h.nextTransparent.setScope _
  · exact h.usesClause id
  · exact h.usesClause id
  · exact h.usesClause id
  · exact h.beginPart _
  · exact h.beginPart _
  · exact h.beginPart _
  · exact h.beginPart _
  · exact h.beginPart _
  · exact h.skipStatement.setDecls _
  · exact h.skipStatement.setDecls _
  · exact h.openSection
  · exact h.openSection
  · exact h.next.openBlock _
  · exact h.next.openBlock _
  · exact h.closeBlock
  · exact .ite (h.routineDecl none) h.next
  · exact .ite (h.routineDecl none) h.next
  · exact h.plainStep decls

theorem visibility? (h : Shares f s t) : t.visibility? = s.visibility? := by
  rw [State.visibility?, State.visibility?, h.keyword?, h.cursor.nthKeyword? Nat.one_lt_two]

theorem visibilityStep (h : Shares f s t) (kind : EntryKind) (visibility : Visibility) :
    Shadows f (s.visibilityStep kind visibility) (t.visibilityStep kind visibility) := by
  unfold State.visibilityStep
  dsimp only
  rw [h.cursor.atKeyword]
  split
  · exact h.nextTransparent.nextTransparent.setScope _
  · exact h.nextTransparent.setScope _

theorem memberNameStep (h : Shares f s t) (visibility : Visibility) (decls : DeclPart) :
    Shadows f (s.memberNameStep visibility decls) (t.memberNameStep visibility decls) := by
  unfold State.memberNameStep
  split
  · exact h.typeDecl _
  · exact h.valueDecl _ _ _
  · exact h.valueDecl _ _ _
  · exact h.next
  · exact h.valueDecl _ _ _

theorem memberSymbolStep (h : Shares f s t) (decls : DeclPart) :
    Shadows f (s.memberSymbolStep decls) (t.memberSymbolStep decls) := by
  unfold State.memberSymbolStep
  rw [h.cursor.atSymbol, h.cursor.atSymbol]
  split
  · exact .ite (h.setDecls _).next (.ite (h.setDecls _).next h.next)
  · exact h.next

theorem plainMemberStep (h : Shares f s t) (visibility : Visibility) (decls : DeclPart) :
    Shadows f (s.plainMemberStep visibility decls) (t.plainMemberStep visibility decls) := by
  unfold State.plainMemberStep
  dsimp only
  rw [h.cursor.atSymbol, h.cursor.atName]
  exact .ite h.skipAttribute
    (.ite (h.memberNameStep visibility decls) (h.memberSymbolStep decls))

theorem classWordStep (h : Shares f s t) (visibility : Visibility) :
    Shadows f (s.classWordStep visibility) (t.classWordStep visibility) := by
  unfold State.classWordStep
  rw [h.cursor.nthKeyword? Nat.one_lt_two, h.classMemberFollows]
  exact .ite (h.nextTransparent.nextTransparent.setDecls _) (.ite (h.propertyDecl visibility)
    (.ite (h.routineDecl _) h.next))

theorem memberStep (h : Shares f s t) (kind : EntryKind) (visibility : Visibility)
    (decls : DeclPart) :
    Shadows f (s.memberStep kind visibility decls) (t.memberStep kind visibility decls) := by
  unfold State.memberStep
  rw [h.keyword?]
  split
  · exact h.beginPart _
  · exact h.classWordStep visibility
  · exact h.beginPart _
  · exact h.beginPart _
  · exact h.propertyDecl visibility
  · exact .ite (h.variantPart visibility decls) h.next
  · exact h.closeBlock
  · exact h.closeToModule.shadows
  · exact h.closeToModule.shadows
  · exact h.closeToModule.shadows
  · exact h.closeContainers.shadows
  · exact .ite (h.routineDecl _) h.next
  · exact h.plainMemberStep visibility decls

theorem containerStep (h : Shares f s t) (kind : EntryKind) (visibility : Visibility)
    (decls : DeclPart) :
    Shadows f (s.containerStep kind visibility decls) (t.containerStep kind visibility decls) := by
  unfold State.containerStep
  rw [h.visibility?]
  split
  · exact h.visibilityStep kind _
  · exact h.memberStep kind visibility decls

theorem routineStep (h : Shares f s t) (decls : DeclPart) :
    Shadows f (s.routineStep decls) (t.routineStep decls) := by
  unfold State.routineStep
  rw [h.keyword?, h.classMemberFollows]
  split
  · exact h.next.setScope _
  · exact h.next.setScope _
  · exact h.beginPart _
  · exact h.beginPart _
  · exact h.beginPart _
  · exact h.beginPart _
  · exact h.beginPart _
  · exact h.skipStatement
  · exact .ite (h.routineDecl none) h.next
  · exact h.closeBodiless.shadows
  · exact h.closeToModule.shadows
  · exact h.closeToModule.shadows
  · exact h.closeToModule.shadows
  · exact .ite (h.routineDecl none) h.next
  · exact h.plainStep decls

theorem statementStep (h : Shares f s t) : Shadows f s.statementStep t.statementStep := by
  unfold State.statementStep
  rw [h.cursor.keyword?]
  split
  · exact h.next.openBlock _
  · exact h.next.openBlock _
  · exact h.next.openBlock _
  · exact h.next.openBlock _
  · exact h.next.openBlock _
  · exact h.closeBlock
  · exact h.closeToModule.shadows
  · exact h.closeToModule.shadows
  · exact h.closeToModule.shadows
  · exact h.next

theorem asmStep (h : Shares f s t) : Shadows f s.asmStep t.asmStep := by
  unfold State.asmStep
  rw [h.cursor.atKeyword]
  exact .ite h.closeBlock h.next

/-- The step lemma: one step takes states that share the stem to states that
    share it, as long as two of its tokens are ahead. -/
theorem step (h : Shares f s t) : Shadows f s.step t.step := by
  unfold State.step
  rw [h.blocks]
  split
  · exact shadows ⟨h.cursor, h.draft, rfl, h.diagnostics, rfl⟩
  · split
    · exact h.asmStep
    · exact h.statementStep
  · split
    · exact h.moduleStep _ _
    · exact h.containerStep _ _ _
    · exact h.routineStep _
    · exact h.statementStep
    · exact h.asmStep
    · exact h.statementStep

/-! ### A whole run -/

/-- Neither state is finished while the stem goes on. -/
theorem finished_iff (h : Shares f s t) : t.Finished ↔ s.Finished := by
  obtain ⟨hs, ht⟩ := h.cursor.atEnd
  rw [Finished, Finished, h.stopped, hs, ht]

theorem makeRoot (h : Shares f s t) (file : String) :
    Shadows f (s.makeRoot file) (t.makeRoot file) := by
  have hkind : moduleKind? t.cursor = moduleKind? s.cursor := by
    rw [moduleKind?, moduleKind?, h.cursor.keyword?, h.cursor.nthIsName Nat.one_lt_two]
  unfold State.makeRoot
  dsimp only
  rw [hkind, h.nextId]
  split
  · exact (h.moduleHeader _).openBlock _
  · exact ((h.build rfl).openBlock rfl).shadows

end Shares

section Reachable

variable {options : Options} {file : String}

theorem shares_initial (hbefore : (Cursor.ofLexemes f.leftLexemes).Before f.size) :
    Shares f (initial options file f.leftLexemes) (initial options file f.rightLexemes) where
  cursor := ⟨rfl, rfl, rfl, hbefore⟩
  draft := ⟨rfl, rfl⟩
  blocks := rfl
  diagnostics := rfl
  stopped := rfl

/-- The run lemma: every state of the first run before the last two tokens of
    the stem has a state of the second run that shares the stem with it. -/
theorem Reachable.exists_shares (h : Reachable options file f.leftLexemes s)
    (hbefore : s.cursor.Before f.size) :
    ∃ t, Reachable options file f.rightLexemes t ∧ Shares f s t := by
  induction h with
  | root =>
    have hinitial := @shares_initial f options file
      ((reaches_root options file f.leftLexemes).before hbefore)
    exact ⟨_, .root, hinitial.makeRoot file hbefore⟩
  | step _ hcontinues ih =>
    -- Steps do not move back, so the state before the step was in the stem too.
    have hreaches := (effect_step_of_not_finished hcontinues).builds.reaches
    obtain ⟨t, ht, hshares⟩ := ih (hreaches.before hbefore)
    exact ⟨t.step, ht.step (hshares.finished_iff.not.mpr hcontinues), hshares.step hbefore⟩

end Reachable

end State

end PascalOutline
