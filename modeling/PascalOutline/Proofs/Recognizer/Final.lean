import PascalOutline.Proofs.Recognizer.Blocks
import PascalOutline.Proofs.Recognizer.Lockstep

/-! # The final end

  Only one thing stops the recognizer before its tokens are used up: an `end`
  with a point behind it. `State.stopsAtEnd_step` says that every step either
  leaves the recognizer running or is the step over that `end`, in whatever
  block it stands. After it the module is the only block.
-/

namespace PascalOutline.State

/-- The last `end` of the module stands at the cursor. -/
structure AtFinalEnd (s : State) : Prop where
  /-- The next token is an `end`. -/
  keyword : s.cursor.keyword? = some .end_
  /-- The one after it is a point. -/
  point : s.cursor.nthIsSymbol 1 "." = true

/-- The state after the final `end.` -/
def finalEnd (s : State) : State :=
  (({ s with draft := s.draft.sync s.cursor } : State).moveTo (s.cursor.advance 2)).closeAll

/-- From `s` to `t` the recognizer stops only if `s` stands at the final `end`,
    and then everything is closed. -/
def StopsAtEnd (s t : State) : Prop :=
  t.stopped = s.stopped ∨ s.AtFinalEnd ∧ t = s.finalEnd

/-! ### What does not stop the recognizer -/

@[simp] theorem stopped_setScope (s : State) (scope : Scope) :
    (s.setScope scope).stopped = s.stopped := by
  unfold setScope
  split <;> rfl

@[simp] theorem stopped_setDecls (s : State) (decls : DeclPart) :
    (s.setDecls decls).stopped = s.stopped := by
  unfold setDecls
  split <;> simp

@[simp] theorem stopped_closeTop (s : State) (stop : Location) :
    (s.closeTop stop).stopped = s.stopped := by
  unfold closeTop
  split <;> rfl

@[simp] theorem stopped_closeTimes (s : State) (stop : Location) (n : Nat) :
    (s.closeTimes stop n).stopped = s.stopped := by
  induction n generalizing s with
  | zero => rfl
  | succ n ih => simp [closeTimes, ih]

@[simp] theorem stopped_log (s : State) (e : Event) : (s.log e).stopped = s.stopped := rfl

@[simp] theorem stopped_closeToModule (s : State) : s.closeToModule.stopped = s.stopped := by
  unfold closeToModule
  dsimp only
  split <;> simp

@[simp] theorem stopped_closeContainers (s : State) : s.closeContainers.stopped = s.stopped := by
  simp [closeContainers]

@[simp] theorem stopped_closeBodiless (s : State) : s.closeBodiless.stopped = s.stopped := by
  simp [closeBodiless]

/-! ### One step -/

theorem StopsAtEnd.of_stopped {s t : State} (h : t.stopped = s.stopped) : s.StopsAtEnd t :=
  .inl h

theorem Declares.stopsAtEnd {s t : State} {c : Cursor} {forms : List Form}
    (h : Declares c s t forms) : s.StopsAtEnd t :=
  .inl h.stopped

theorem Declares.stopsAtEnd_setDecls {s t : State} {c : Cursor} {forms : List Form}
    (h : Declares c s t forms) (decls : DeclPart) : s.StopsAtEnd (t.setDecls decls) :=
  .inl ((t.stopped_setDecls decls).trans h.stopped)

theorem Declares.stopsAtEnd_setScope {s t : State} {c : Cursor} {forms : List Form}
    (h : Declares c s t forms) (scope : Scope) : s.StopsAtEnd (t.setScope scope) :=
  .inl ((t.stopped_setScope scope).trans h.stopped)

section Step

variable {s : State}

theorem cursor_keyword?_of_keyword? {kw : Keyword} (h : s.keyword? = some kw) :
    s.cursor.keyword? = some kw :=
  (Option.filter_eq_some_iff.mp h).1

theorem closeBlock_of_point (h : s.cursor.nthIsSymbol 1 "." = true) :
    s.closeBlock = s.finalEnd := by
  unfold closeBlock finalEnd
  dsimp only
  rw [if_pos h]

/-- An `end` before the body of a routine closes the routine and is not passed;
    in every other block it is passed. -/
theorem step_of_end {top : Block} {rest : List Block} (h : s.cursor.keyword? = some .end_)
    (hblocks : s.blocks = top :: rest) :
    s.step = if top.form = .declarations then s.closeBodiless else s.closeBlock := by
  have hword : s.keyword? = some .end_ := by
    rw [State.keyword?, h]
    rfl
  have hstatements : s.statementStep = s.closeBlock := by
    rw [statementStep, h]
  have hasm : s.asmStep = s.closeBlock := by
    rw [asmStep, Cursor.atKeyword, h]
    rfl
  unfold step
  rw [hblocks]
  rcases top with ⟨id, scope⟩ | asm
  · cases scope with
    | module unitPart decls =>
      dsimp only
      rw [moduleStep, hword]
      rfl
    | container kind visibility decls =>
      dsimp only
      rw [containerStep, visibility?, memberStep, hword]
      rfl
    | routine phase decls =>
      cases phase with
      | declarations =>
        dsimp only
        rw [routineStep, hword]
        rfl
      | body => exact hstatements
      | asm => exact hasm
    | statements => exact hstatements
  · cases asm
    · exact hstatements
    · exact hasm

theorem stopsAtEnd_closeBlock (h : s.cursor.keyword? = some .end_) :
    s.StopsAtEnd s.closeBlock := by
  by_cases hpoint : s.cursor.nthIsSymbol 1 "." = true
  · exact .inr ⟨⟨h, hpoint⟩, closeBlock_of_point hpoint⟩
  · refine .inl ?_
    unfold closeBlock
    dsimp only
    rw [if_neg hpoint]
    split
    · rfl
    · split <;> rfl
    · rfl

variable (h : s.cursor.ahead ≠ [])
include h

theorem stopsAtEnd_plainStep (decls : DeclPart) : s.StopsAtEnd (s.plainStep decls) := by
  unfold plainStep nameStep
  split
  next hattribute => exact (declares_skipAttribute hattribute).stopsAtEnd
  next =>
    split
    · split
      · exact (declares_typeDecl h _).stopsAtEnd
      · exact (declares_valueDecl h _ _ _).stopsAtEnd
      · exact (declares_valueDecl h _ _ _).stopsAtEnd
      · exact (declares_next h).stopsAtEnd
    · exact (declares_next h).stopsAtEnd

theorem stopsAtEnd_beginPart (decls : DeclPart) : s.StopsAtEnd (s.beginPart decls) :=
  (declares_nextTransparent h).stopsAtEnd_setDecls decls

/-- A routine may follow `class`, or the word is passed. -/
theorem stopsAtEnd_ite_routineDecl (condition : Bool) (member : Option Visibility) :
    s.StopsAtEnd (if condition then s.routineDecl member else s.next) := by
  split
  · exact (declares_routineDecl h member).stopsAtEnd
  · exact (declares_next h).stopsAtEnd

theorem stopsAtEnd_moduleStep (id : EntryId) (decls : DeclPart) :
    s.StopsAtEnd (s.moduleStep id decls) := by
  unfold moduleStep
  split
  · exact (declares_nextTransparent h).stopsAtEnd_setScope _
  · exact (declares_nextTransparent h).stopsAtEnd_setScope _
  · exact (declares_usesClause h id).stopsAtEnd
  · exact (declares_usesClause h id).stopsAtEnd
  · exact (declares_usesClause h id).stopsAtEnd
  · exact stopsAtEnd_beginPart h _
  · exact stopsAtEnd_beginPart h _
  · exact stopsAtEnd_beginPart h _
  · exact stopsAtEnd_beginPart h _
  · exact stopsAtEnd_beginPart h _
  · exact (declares_skipStatement h).stopsAtEnd_setDecls _
  · exact (declares_skipStatement h).stopsAtEnd_setDecls _
  · exact (declares_openSection h).stopsAtEnd
  · exact (declares_openSection h).stopsAtEnd
  · exact .of_stopped rfl
  · exact .of_stopped rfl
  next hend => exact stopsAtEnd_closeBlock (cursor_keyword?_of_keyword? hend)
  · exact stopsAtEnd_ite_routineDecl h _ _
  · exact stopsAtEnd_ite_routineDecl h _ _
  · exact stopsAtEnd_plainStep h decls

theorem stopsAtEnd_visibilityStep (kind : EntryKind) (visibility : Visibility) :
    s.StopsAtEnd (s.visibilityStep kind visibility) := by
  unfold visibilityStep
  dsimp only
  split
  · exact (declares_nextTransparent_nextTransparent h).stopsAtEnd_setScope _
  · exact (declares_nextTransparent h).stopsAtEnd_setScope _

theorem stopsAtEnd_memberNameStep (visibility : Visibility) (decls : DeclPart) :
    s.StopsAtEnd (s.memberNameStep visibility decls) := by
  unfold memberNameStep
  split
  · exact (declares_typeDecl h _).stopsAtEnd
  · exact (declares_valueDecl h _ _ _).stopsAtEnd
  · exact (declares_valueDecl h _ _ _).stopsAtEnd
  · exact (declares_next h).stopsAtEnd
  · exact (declares_valueDecl h _ _ _).stopsAtEnd

omit h in
theorem stopsAtEnd_memberSymbolStep (decls : DeclPart) :
    s.StopsAtEnd (s.memberSymbolStep decls) := by
  unfold memberSymbolStep
  split
  · -- Parentheses are counted; the recognizer goes on.
    split
    · exact .of_stopped (stopped_setDecls s _)
    · split
      · exact .of_stopped (stopped_setDecls s _)
      · exact .of_stopped rfl
  · exact .of_stopped rfl

theorem stopsAtEnd_plainMemberStep (visibility : Visibility) (decls : DeclPart) :
    s.StopsAtEnd (s.plainMemberStep visibility decls) := by
  unfold plainMemberStep
  dsimp only
  split_ifs with hbracket
  · exact (declares_skipAttribute (Bool.and_eq_true_iff.mp hbracket).1).stopsAtEnd
  · exact stopsAtEnd_memberNameStep h visibility decls
  · exact stopsAtEnd_memberSymbolStep decls

theorem stopsAtEnd_classWordStep (visibility : Visibility) :
    s.StopsAtEnd (s.classWordStep visibility) := by
  unfold classWordStep
  split
  · exact (declares_nextTransparent_nextTransparent h).stopsAtEnd_setDecls _
  · split
    · exact (declares_propertyDecl h _).stopsAtEnd
    · exact stopsAtEnd_ite_routineDecl h _ _

theorem stopsAtEnd_memberStep (kind : EntryKind) (visibility : Visibility) (decls : DeclPart) :
    s.StopsAtEnd (s.memberStep kind visibility decls) := by
  unfold memberStep
  split
  · exact stopsAtEnd_beginPart h _
  · exact stopsAtEnd_classWordStep h visibility
  · exact stopsAtEnd_beginPart h _
  · exact stopsAtEnd_beginPart h _
  · exact (declares_propertyDecl h visibility).stopsAtEnd
  · split
    · obtain ⟨t, decls', hdeclares, heq, _⟩ := declares_variantPart h visibility decls
      rw [heq]
      exact hdeclares.stopsAtEnd_setDecls decls'
    · exact (declares_next h).stopsAtEnd
  next hend => exact stopsAtEnd_closeBlock (cursor_keyword?_of_keyword? hend)
  · exact .of_stopped s.stopped_closeToModule
  · exact .of_stopped s.stopped_closeToModule
  · exact .of_stopped s.stopped_closeToModule
  · exact .of_stopped s.stopped_closeContainers
  · exact stopsAtEnd_ite_routineDecl h _ _
  · exact stopsAtEnd_plainMemberStep h visibility decls

theorem stopsAtEnd_containerStep (kind : EntryKind) (visibility : Visibility) (decls : DeclPart) :
    s.StopsAtEnd (s.containerStep kind visibility decls) := by
  unfold containerStep
  split
  · exact stopsAtEnd_visibilityStep h kind _
  · exact stopsAtEnd_memberStep h kind visibility decls

theorem stopsAtEnd_routineStep (decls : DeclPart) : s.StopsAtEnd (s.routineStep decls) := by
  unfold routineStep
  split
  · exact (declares_next h).stopsAtEnd_setScope _
  · exact (declares_next h).stopsAtEnd_setScope _
  · exact stopsAtEnd_beginPart h _
  · exact stopsAtEnd_beginPart h _
  · exact stopsAtEnd_beginPart h _
  · exact stopsAtEnd_beginPart h _
  · exact stopsAtEnd_beginPart h _
  · exact (declares_skipStatement h).stopsAtEnd
  · exact stopsAtEnd_ite_routineDecl h _ _
  · exact .of_stopped s.stopped_closeBodiless
  · exact .of_stopped s.stopped_closeToModule
  · exact .of_stopped s.stopped_closeToModule
  · exact .of_stopped s.stopped_closeToModule
  · exact stopsAtEnd_ite_routineDecl h _ _
  · exact stopsAtEnd_plainStep h decls

omit h in
theorem stopsAtEnd_statementStep : s.StopsAtEnd s.statementStep := by
  unfold statementStep
  split
  · exact .of_stopped rfl
  · exact .of_stopped rfl
  · exact .of_stopped rfl
  · exact .of_stopped rfl
  · exact .of_stopped rfl
  next hend => exact stopsAtEnd_closeBlock hend
  · exact .of_stopped s.stopped_closeToModule
  · exact .of_stopped s.stopped_closeToModule
  · exact .of_stopped s.stopped_closeToModule
  · exact .of_stopped rfl

omit h in
theorem stopsAtEnd_asmStep : s.StopsAtEnd s.asmStep := by
  unfold asmStep
  split
  next hend => exact stopsAtEnd_closeBlock (of_decide_eq_true hend)
  next => exact .of_stopped rfl

/-- A step from a state with a block stops the recognizer only at the final
    `end.` -/
theorem stopsAtEnd_step (hblocks : s.blocks ≠ []) : s.StopsAtEnd s.step := by
  unfold step
  split
  next hnil => exact absurd hnil hblocks
  next asm _ _ =>
    split
    · exact stopsAtEnd_asmStep
    · exact stopsAtEnd_statementStep
  next id scope _ _ =>
    split
    · exact stopsAtEnd_moduleStep h id _
    · exact stopsAtEnd_containerStep h _ _ _
    · exact stopsAtEnd_routineStep h _
    · exact stopsAtEnd_statementStep
    · exact stopsAtEnd_asmStep
    · exact stopsAtEnd_statementStep

end Step

/-! ### Every reachable state -/

section Reachable

variable {options : Options} {file : String} {lexemes : List Lexeme} {s : State}

theorem Reachable.blocks_ne_nil (h : Reachable options file lexemes s) : s.blocks ≠ [] := by
  obtain ⟨bottom, hlast, _⟩ := h.agrees.grounded
  exact List.ne_nil_of_mem (List.mem_of_getLast? hlast)

/-- The state in which a run stops before the tokens are used up is that after
    a final `end.` -/
theorem Reachable.exists_finalEnd (h : Reachable options file lexemes s)
    (hstopped : s.stopped = true) :
    ∃ t, Reachable options file lexemes t ∧ ¬ t.Finished ∧ t.AtFinalEnd ∧ s = t.finalEnd := by
  cases h with
  | root =>
    rw [stopped_root] at hstopped
    cases hstopped
  | @step t ht hcontinues =>
    obtain ⟨htokens, hrunning⟩ := t.not_finished_iff.mp hcontinues
    rcases stopsAtEnd_step (Cursor.ahead_ne_nil_of_atEnd htokens) ht.blocks_ne_nil with hsame | hend
    · rw [hsame, hrunning] at hstopped
      cases hstopped
    · exact ⟨t, ht, hcontinues, hend⟩

/-- After the final `end.` only the module is open. -/
theorem Reachable.blocks_of_stopped (h : Reachable options file lexemes s)
    (hstopped : s.stopped = true) : ∃ bottom, s.blocks = [bottom] ∧ bottom.isModule = true := by
  obtain ⟨t, ht, _, _, rfl⟩ := h.exists_finalEnd hstopped
  obtain ⟨bottom, _, hmodule, hblocks⟩ :=
    blocks_closeAll (s := ({ t with draft := t.draft.sync t.cursor } : State).moveTo
      (t.cursor.advance 2)) ht.stacked ht.agrees.grounded
  exact ⟨bottom, hblocks, hmodule⟩

/-- After the final `end.` only the root is open. -/
theorem Reachable.stack_of_stopped (h : Reachable options file lexemes s)
    (hstopped : s.stopped = true) : s.draft.builder.stack = [0] := by
  obtain ⟨bottom, hblocks, hmodule⟩ := h.blocks_of_stopped hstopped
  have hstack := h.agrees.stack
  rw [hblocks] at hstack
  obtain ⟨id, hid⟩ : ∃ id, s.draft.builder.stack = [id] := by
    rw [← hstack]
    rcases bottom with ⟨id, scope⟩ | asm
    · exact ⟨id, rfl⟩
    · cases hmodule
  have hroot := h.agrees.arena.root_open
  rw [hid] at hroot ⊢
  rw [List.mem_singleton.mp hroot]

end Reachable

end PascalOutline.State
