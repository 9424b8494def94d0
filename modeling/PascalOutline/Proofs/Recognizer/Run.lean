import Mathlib.Logic.Function.Iterate
import PascalOutline.Proofs.Recognizer.Step
import PascalOutline.Recognizer.Run

/-! # Progress and termination

  While tokens are left, a step stops the recognizer, passes a token, or
  closes a block without moving back. So the number of tokens left and the
  number of open blocks, compared in this order, decrease with every step, and
  a run is a finite number of steps and nothing else: its fallback is never
  taken.

  `State.Reachable` collects the states between the steps of a run. What holds
  of the root state and is kept by every step holds of all of them.
-/

namespace PascalOutline.State

/-! ### One step -/

/-- No step follows. -/
def Finished (s : State) : Prop :=
  s.stopped = true ∨ s.cursor.atEnd = true

/-- How far a state is from the end: by the tokens that are left, then by the
    blocks that are open. -/
def remaining (s : State) : Nat × Nat :=
  (s.cursor.left, s.blocks.length)

/-- From `s` to `t` the recognizer stopped, or moved on, or closed a block
    where it stands; it never moved back. -/
structure Advances (s t : State) : Prop where
  /-- The cursor does not move back. -/
  forward : s.cursor.pos ≤ t.cursor.pos
  /-- Something was done. -/
  progress : t.stopped = true ∨ s.cursor.pos < t.cursor.pos ∨
    t.cursor.pos = s.cursor.pos ∧ t.blocks.length < s.blocks.length

/-- From `s` to `t` nothing was done: the cursor stands where it stood, and no
    block was closed. -/
def Stalls (s t : State) : Prop :=
  t.cursor.pos = s.cursor.pos ∧ s.blocks.length ≤ t.blocks.length ∧ t.stopped = false

section Step

variable {s t : State}

theorem Effect.advances (h : s.Effect t) : s.Advances t := by
  refine ⟨h.builds.reaches.pos_le, ?_⟩
  rcases h.progress with hstopped | hpasses | ⟨hcursor, hclosed⟩
  · exact Or.inl hstopped
  · exact Or.inr (Or.inl hpasses.pos_lt)
  · exact Or.inr (Or.inr ⟨by rw [hcursor], hclosed⟩)

theorem Advances.not_stalls (h : s.Advances t) : ¬ s.Stalls t := by
  rintro ⟨hpos, hblocks, hrunning⟩
  rcases h.progress with hstopped | hmoved | ⟨_, hclosed⟩
  · rw [hrunning] at hstopped
    cases hstopped
  · omega
  · omega

theorem Effect.remaining_lt (h : s.Effect t) (hrunning : t.stopped = false) :
    Prod.Lex (· < ·) (· < ·) t.remaining s.remaining := by
  rcases h.progress with hstopped | hpasses | ⟨hcursor, hclosed⟩
  · rw [hrunning] at hstopped
    cases hstopped
  · exact .left _ _ hpasses.left_lt
  · rw [remaining, remaining, hcursor]
    exact .right _ hclosed

/-- A step opens at most one block, so it leaves less work to do. -/
theorem Effect.work_lt (h : s.Effect t) (hrunning : t.stopped = false) : t.work < s.work := by
  have hlength := h.blocks.length_le
  unfold work
  rcases h.progress with hstopped | hpasses | ⟨hcursor, hclosed⟩
  · rw [hrunning] at hstopped
    cases hstopped
  · have hleft := hpasses.left_lt
    omega
  · rw [hcursor]
    omega

end Step

/-! ### A run -/

theorem not_finished_iff (s : State) :
    ¬ s.Finished ↔ s.cursor.atEnd = false ∧ s.stopped = false := by
  rw [Finished, not_or, Bool.not_eq_true, Bool.not_eq_true, and_comm]

theorem run_of_finished {s : State} (h : s.Finished) : s.run = s := by
  have hcondition : (s.stopped || s.cursor.atEnd) = true := by
    rcases h with hstopped | hend
    · rw [hstopped, Bool.true_or]
    · rw [hend, Bool.or_true]
  rw [run, if_pos hcondition]

/-- A run takes a step and goes on; its fallback is not taken. -/
theorem run_eq_run_step {s : State} (htokens : s.cursor.atEnd = false)
    (hrunning : s.stopped = false) : s.run = s.step.run := by
  have heffect := effect_step (Cursor.ahead_ne_nil_of_atEnd htokens)
  have hcondition : ¬ (s.stopped || s.cursor.atEnd) = true := by
    rw [htokens, hrunning]
    exact Bool.false_ne_true
  -- Only the run on the left is opened.
  conv => lhs; rw [run, if_neg hcondition]
  dsimp only
  cases hstopped : s.step.stopped with
  | true =>
    rw [if_pos rfl]
    exact (run_of_finished (Or.inl hstopped)).symm
  | false => rw [if_neg Bool.false_ne_true, if_pos (heffect.work_lt hstopped)]

/-- A run is a number of steps, each of them from a state that is not
    finished, to one that is. -/
theorem exists_run_eq_iterate (s : State) :
    ∃ n, s.run = step^[n] s ∧ s.run.Finished ∧ ∀ m < n, ¬ (step^[m] s).Finished := by
  by_cases hdone : s.Finished
  · rw [run_of_finished hdone]
    exact ⟨0, rfl, hdone, fun m hm => absurd hm (Nat.not_lt_zero m)⟩
  · -- One step, and then the steps of a state that is closer to the end.
    obtain ⟨htokens, hrunning⟩ := s.not_finished_iff.mp hdone
    have heffect := effect_step (Cursor.ahead_ne_nil_of_atEnd htokens)
    have hrest : ∃ n, s.step.run = step^[n] s.step ∧ s.step.run.Finished ∧
        ∀ m < n, ¬ (step^[m] s.step).Finished := by
      cases hstopped : s.step.stopped with
      | true =>
        rw [run_of_finished (Or.inl hstopped)]
        exact ⟨0, rfl, Or.inl hstopped, fun m hm => absurd hm (Nat.not_lt_zero m)⟩
      | false =>
        have hdecreases := heffect.remaining_lt hstopped
        exact exists_run_eq_iterate s.step
    obtain ⟨n, hrun, hfinished, hbefore⟩ := hrest
    rw [run_eq_run_step htokens hrunning]
    refine ⟨n + 1, hrun, hfinished, ?_⟩
    intro m hm
    cases m with
    | zero => exact hdone
    | succ m => exact hbefore m (Nat.lt_of_succ_lt_succ hm)
termination_by s.remaining
decreasing_by exact hdecreases

/-- Progress and termination, for every state, reachable or not. A step from
    a state with tokens left moves on, or closes a block, or stops; it does
    not stall, so the fallback of a run is not taken, and it is closer to the
    end by the tokens that are left and then by the open blocks. Hence a run
    is a finite number of steps. -/
theorem advances_step_and_run_finishes (s : State) :
    (s.cursor.atEnd = false → s.stopped = false →
      s.Advances s.step ∧ ¬ s.Stalls s.step ∧
        (s.step.stopped = false → s.step.work < s.work ∧
          Prod.Lex (· < ·) (· < ·) s.step.remaining s.remaining) ∧
        s.run = s.step.run) ∧
      ∃ n, s.run = step^[n] s ∧ s.run.Finished ∧ ∀ m < n, ¬ (step^[m] s).Finished := by
  refine ⟨?_, s.exists_run_eq_iterate⟩
  intro htokens hrunning
  have heffect := effect_step (Cursor.ahead_ne_nil_of_atEnd htokens)
  refine ⟨heffect.advances, heffect.advances.not_stalls, ?_, run_eq_run_step htokens hrunning⟩
  intro hnext
  exact ⟨heffect.work_lt hnext, heffect.remaining_lt hnext⟩

/-- A routine without a body is closed at an `end` that is not passed. -/
theorem advances_at_end_of_bodiless_routine :
    let s := ((initial {} "a.pas" (Lexer.lex false "procedure p; end;")).makeRoot "a.pas").step
    (s.cursor.atEnd = false ∧ s.stopped = false) ∧
      (s.step.cursor.pos = s.cursor.pos ∧ s.step.blocks.length < s.blocks.length) ∧
      s.Advances s.step ∧ ¬ s.Stalls s.step ∧ s.run = s.step.run := by
  intro s
  have htokens : s.cursor.atEnd = false := by decide +kernel
  have hrunning : s.stopped = false := by decide +kernel
  obtain ⟨hadvances, hstalls, _, hrun⟩ := (advances_step_and_run_finishes s).1 htokens hrunning
  refine ⟨⟨htokens, hrunning⟩, ?_, hadvances, hstalls, hrun⟩
  decide +kernel

/-! ### Reachable states -/

/-- The state before the first step. -/
def root (options : Options) (file : String) (lexemes : List Lexeme) : State :=
  (initial options file lexemes).makeRoot file

/-- The states between the steps of a run. -/
inductive Reachable (options : Options) (file : String) (lexemes : List Lexeme) : State → Prop where
  /-- The first one. -/
  | root : Reachable options file lexemes (root options file lexemes)
  /-- The one after a step. -/
  | step {s : State} (h : Reachable options file lexemes s) (hcontinues : ¬ s.Finished) :
      Reachable options file lexemes s.step

section Reachable

variable {options : Options} {file : String} {lexemes : List Lexeme}

theorem Reachable.iterate {s : State} (h : Reachable options file lexemes s) (n : Nat)
    (hcontinues : ∀ m < n, ¬ (State.step^[m] s).Finished) :
    Reachable options file lexemes (State.step^[n] s) := by
  induction n with
  | zero => exact h
  | succ n ih =>
    rw [Function.iterate_succ_apply']
    have hbefore := ih fun m hm => hcontinues m (Nat.lt_succ_of_lt hm)
    exact hbefore.step (hcontinues n (Nat.lt_succ_self n))

/-- A run ends in a reachable state. -/
theorem reachable_run (options : Options) (file : String) (lexemes : List Lexeme) :
    Reachable options file lexemes (root options file lexemes).run := by
  obtain ⟨n, hrun, _, hbefore⟩ := exists_run_eq_iterate (root options file lexemes)
  rw [hrun]
  exact Reachable.root.iterate n hbefore

/-- A run goes through every reachable state. -/
theorem Reachable.run_eq {s : State} (h : Reachable options file lexemes s) :
    (State.root options file lexemes).run = s.run := by
  induction h with
  | root => rfl
  | @step s _ hcontinues ih =>
    obtain ⟨htokens, hrunning⟩ := s.not_finished_iff.mp hcontinues
    rw [ih, run_eq_run_step htokens hrunning]

theorem effect_step_of_not_finished {s : State} (h : ¬ s.Finished) : s.Effect s.step :=
  effect_step (Cursor.ahead_ne_nil_of_atEnd (s.not_finished_iff.mp h).1)

/-- What holds of the root state and is kept by the effect of a step holds of
    every reachable state. -/
theorem Reachable.induct {motive : State → Prop} {s : State}
    (h : Reachable options file lexemes s) (hroot : motive (State.root options file lexemes))
    (hstep : ∀ s t, s.Effect t → motive s → motive t) : motive s := by
  induction h with
  | root => exact hroot
  | step _ hcontinues ih => exact hstep _ _ (effect_step_of_not_finished hcontinues) ih

end Reachable

/-! ### The end -/

theorem documents_finish (s : State) : s.draft.Documents s.finish.draft := by
  have hfinish := s.draft.documents_finish s.cursor
  unfold finish
  show s.draft.builder.Documents (Draft.logIf _ _ _).builder
  rw [Draft.builder_logIf, Draft.builder_logIf]
  exact hfinish

/-! ### The root state -/

/-- A builder with a single entry, up to its texts, which is open. -/
def OnlyRoot (b : Builder) : Prop :=
  ∃ (empty : Builder) (e : Entry), empty.entries.size = 0 ∧ empty.stack = [] ∧
    (empty.push e).SameFrame b

section Root

variable (options : Options) (file : String) (lexemes : List Lexeme)

/-- A module header makes the first entry. -/
theorem exists_moduleHeader_eq (kind : EntryKind) :
    ∃ t e, (initial options file lexemes).moduleHeader kind = t.pushItem e ∧
      (initial options file lexemes).Edits t ∧ (Cursor.ofLexemes lexemes).Reaches t.cursor := by
  have hedits := (Edits.refl (initial options file lexemes)).takeLeading
  -- The state before the entry is made is read off the definition.
  refine ⟨_, _, rfl, (hedits.moveTo _).checkName _ _ _, ?_⟩
  rw [cursor_checkName]
  refine Cursor.Reaches.passSymbol (Cursor.Reaches.passHeaderRest ?_) ";"
  exact ((Cursor.Reaches.refl _).next.advance _).passGroup "(" ")"

theorem onlyRoot_root : OnlyRoot (root options file lexemes).draft.builder := by
  unfold root makeRoot
  dsimp only
  split
  next kind _ =>
    obtain ⟨t, e, heq, hedits, _⟩ := exists_moduleHeader_eq options file lexemes kind
    rw [heq]
    exact ⟨t.draft.builder, e, hedits.frame.size, hedits.frame.stack, t.sameFrame_pushItem e⟩
  next => exact ⟨{ file }, _, rfl, rfl, .refl _⟩

theorem blocks_root :
    (root options file lexemes).blocks = [.entry 0 (.module .heading .none)] := by
  unfold root makeRoot
  dsimp only
  split
  next kind _ =>
    obtain ⟨t, e, heq, hedits, _⟩ := exists_moduleHeader_eq options file lexemes kind
    rw [heq]
    exact congrArg (List.cons _) hedits.blocks
  next => rfl

theorem reaches_root :
    (Cursor.ofLexemes lexemes).Reaches (root options file lexemes).cursor := by
  unfold root makeRoot
  dsimp only
  split
  next kind _ =>
    obtain ⟨t, e, heq, _, hreaches⟩ := exists_moduleHeader_eq options file lexemes kind
    rw [heq]
    exact hreaches
  next => exact .refl _

theorem agrees_root : (root options file lexemes).Agrees := by
  obtain ⟨empty, e, hsize, hstack, hframe⟩ := onlyRoot_root options file lexemes
  have hblocks := blocks_root options file lexemes
  constructor
  case arena => exact (Builder.arena_push_of_empty hsize hstack e).of_sameFrame hframe
  case grounded =>
    rw [hblocks]
    exact ⟨_, rfl, rfl⟩
  case stack =>
    rw [hblocks, hframe.stack]
    show [0] = empty.nextId :: empty.stack
    rw [hstack, Builder.nextId, hsize]

end Root

end PascalOutline.State
