import Mathlib.Data.List.Chain
import PascalOutline.Proofs.Recognizer.Run

/-! # The stack of blocks

  The recognizer keeps two stacks, its blocks and the open entries of the
  builder, and changes them apart. Between any two steps they agree, and the
  blocks stand in a legal order (`Nesting`): the module, routines inside of
  each other, and then types inside of each other, or the body of the last
  routine or of a section with its statements, or assembler code.

  The order is a matter of neighbours: `Form.admits` says which block may
  stand inside of which, every change of the stack respects it
  (`Stacked.of_blockChange`), and the legal orders are the chains of blocks
  that admit each other.
-/

namespace PascalOutline

/-! ### Blocks that admit each other -/

/-- Each block, innermost first, is admitted by the one around it. -/
def Stacked (blocks : List Block) : Prop :=
  blocks.IsChain fun block below => block.form ∈ below.form.admits

theorem Form.module_not_mem_admits (form : Form) : .module ∉ form.admits := by
  cases form <;> decide

/-- A routine that goes on to its body is admitted where it stands. -/
theorem Form.mem_admits_of_mem_becomes {form form' below : Form} (h : form' ∈ form.becomes)
    (hform : form ∈ below.admits) : form' ∈ below.admits := by
  cases form with
  | declarations =>
    -- A routine stands in the module or in the declarations of another one.
    cases below with
    | module | declarations =>
      simp only [becomes, List.mem_cons, List.not_mem_nil, or_false] at h
      rcases h with rfl | rfl | rfl <;> decide
    | _ => exact absurd hform (by decide)
  | _ =>
    rw [List.mem_singleton.mp h]
    exact hform

theorem Stacked.of_blockChange {blocks blocks' : List Block} (h : Stacked blocks)
    (hchange : BlockChange blocks blocks') : Stacked blocks' := by
  cases hchange with
  | @rescoped id scope scope' rest hform _ =>
    cases rest with
    | nil => exact List.isChain_singleton _
    | cons below rest =>
      obtain ⟨hbelow, hrest⟩ := List.isChain_cons_cons.mp h
      exact List.isChain_cons_cons.mpr ⟨Form.mem_admits_of_mem_becomes hform hbelow, hrest⟩
  | opened hform _ => exact List.isChain_cons_cons.mpr ⟨hform, h⟩
  | closed _ _ => exact h.right_of_append

/-! ### Legal orders -/

/-- Blocks of statements, outermost first; only the innermost one may be
    assembler code. -/
structure Statements (blocks : List Block) : Prop where
  /-- All blocks are nameless. -/
  nameless : ∀ block ∈ blocks, block.form ∈ [Form.statements, Form.assembler]
  /-- Only the last one may be assembler code. -/
  outer : ∀ block ∈ blocks.dropLast, block.form = .statements

/-- The orders in which blocks may stand, outermost first. -/
inductive Nesting : List Block → Prop where
  /-- Routines, and types inside of each other. -/
  | containers {module : Block} (routines : List Block) {types : List Block}
      (hmodule : module.form = .module)
      (hroutines : ∀ block ∈ routines, block.form = .declarations)
      (htypes : ∀ block ∈ types, block.form = .container) :
      Nesting (module :: (routines ++ types))
  /-- Routines, the innermost one in its body, and statements. -/
  | body {module routine : Block} (routines : List Block) {nested : List Block}
      (hmodule : module.form = .module)
      (hroutines : ∀ block ∈ routines, block.form = .declarations)
      (hroutine : routine.form = .body) (hnested : Statements nested) :
      Nesting (module :: (routines ++ routine :: nested))
  /-- A section directly inside of the module, and statements. -/
  | section_ {module block : Block} {nested : List Block} (hmodule : module.form = .module)
      (hsection : block.form = .section_) (hnested : Statements nested) :
      Nesting (module :: block :: nested)
  /-- Statements directly inside of the module. -/
  | statements {module : Block} {nested : List Block} (hmodule : module.form = .module)
      (hnested : Statements nested) : Nesting (module :: nested)
  /-- Routines, the innermost one in its assembler code. -/
  | asm {module routine : Block} (routines : List Block) (hmodule : module.form = .module)
      (hroutines : ∀ block ∈ routines, block.form = .declarations)
      (hroutine : routine.form = .asm) : Nesting (module :: (routines ++ [routine]))

/-- The same order, outermost first. -/
def Upright (blocks : List Block) : Prop :=
  blocks.IsChain fun below block => block.form ∈ below.form.admits

section Upright

variable {below : Block} {blocks : List Block}

theorem eq_nil_of_upright (h : Upright (below :: blocks)) (hbelow : below.form.admits = []) :
    blocks = [] := by
  cases blocks with
  | nil => rfl
  | cons block _ =>
    have hblock := (List.isChain_cons_cons.mp h).1
    rw [hbelow] at hblock
    cases hblock

theorem statements_of_form (h : Upright (below :: blocks))
    (hbelow : below.form ∈ [Form.statements, Form.assembler]) : Statements (below :: blocks) := by
  induction blocks generalizing below with
  | nil =>
    refine ⟨List.forall_mem_singleton.mpr hbelow, ?_⟩
    exact List.forall_mem_nil _
  | cons block blocks ih =>
    obtain ⟨hblock, hrest⟩ := List.isChain_cons_cons.mp h
    -- Assembler code holds no blocks.
    have hform : below.form = .statements := by
      rcases List.mem_cons.mp hbelow with hform | hform
      · exact hform
      · rw [List.mem_singleton.mp hform] at hblock
        cases hblock
    rw [hform] at hblock
    have hnested := ih hrest hblock
    refine ⟨List.forall_mem_cons.mpr ⟨hbelow, hnested.nameless⟩, ?_⟩
    rw [List.dropLast_cons_cons]
    exact List.forall_mem_cons.mpr ⟨hform, hnested.outer⟩

theorem statements_of_upright (h : Upright (below :: blocks))
    (hbelow : below.form.admits = [.statements, .assembler]) : Statements blocks := by
  cases blocks with
  | nil =>
    constructor
    · exact List.forall_mem_nil _
    · exact List.forall_mem_nil _
  | cons block blocks =>
    obtain ⟨hblock, hrest⟩ := List.isChain_cons_cons.mp h
    rw [hbelow] at hblock
    exact statements_of_form hrest hblock

theorem containers_of_upright (h : Upright (below :: blocks)) (hbelow : below.form = .container) :
    ∀ block ∈ blocks, block.form = .container := by
  induction blocks generalizing below with
  | nil => exact List.forall_mem_nil _
  | cons block blocks ih =>
    obtain ⟨hblock, hrest⟩ := List.isChain_cons_cons.mp h
    rw [hbelow] at hblock
    have hcontainer : block.form = .container := List.mem_singleton.mp hblock
    intro other hother
    rcases List.mem_cons.mp hother with rfl | hother
    · exact hcontainer
    · exact ih hrest hcontainer other hother

/-- What stands inside of the declarations of a routine. -/
theorem exists_routines_of_upright (h : Upright (below :: blocks))
    (hbelow : below.form = .declarations) :
    ∃ routines inner, blocks = routines ++ inner ∧
      (∀ block ∈ routines, block.form = .declarations) ∧
      ((∀ block ∈ inner, block.form = .container) ∨
        (∃ routine nested, inner = routine :: nested ∧ routine.form = .body ∧ Statements nested) ∨
        ∃ routine, inner = [routine] ∧ routine.form = .asm) := by
  induction blocks generalizing below with
  | nil =>
    refine ⟨[], [], rfl, ?_, Or.inl ?_⟩
    · exact List.forall_mem_nil _
    · exact List.forall_mem_nil _
  | cons block blocks ih =>
    obtain ⟨hblock, hrest⟩ := List.isChain_cons_cons.mp h
    have hnone : ∀ block ∈ ([] : List Block), block.form = .declarations := List.forall_mem_nil _
    rw [hbelow] at hblock
    simp only [Form.admits, List.mem_cons, List.not_mem_nil, or_false] at hblock
    rcases hblock with hform | hform | hform | hform
    · -- From a type on there are only types.
      refine ⟨[], block :: blocks, rfl, hnone, Or.inl ?_⟩
      exact List.forall_mem_cons.mpr ⟨hform, containers_of_upright hrest hform⟩
    · -- Another routine in its declarations: the same again inside of it.
      obtain ⟨routines, inner, heq, hroutines, hinner⟩ := ih hrest hform
      refine ⟨block :: routines, inner, by rw [heq]; rfl, ?_, hinner⟩
      exact List.forall_mem_cons.mpr ⟨hform, hroutines⟩
    · -- The body of a routine holds statements only.
      refine ⟨[], block :: blocks, rfl, hnone, Or.inr (Or.inl ⟨block, blocks, rfl, hform, ?_⟩)⟩
      exact statements_of_upright hrest (by rw [hform]; rfl)
    · -- Assembler code holds nothing.
      refine ⟨[], block :: blocks, rfl, hnone, Or.inr (Or.inr ⟨block, ?_, hform⟩)⟩
      rw [eq_nil_of_upright hrest (by rw [hform]; rfl)]

/-- Blocks that admit each other stand in a legal order. -/
theorem nesting_of_upright (h : Upright (below :: blocks)) (hbelow : below.form = .module) :
    Nesting (below :: blocks) := by
  have hnone : ∀ form : Form, ∀ block ∈ ([] : List Block), block.form = form :=
    fun _ => List.forall_mem_nil _
  cases blocks with
  | nil => exact .containers [] hbelow (hnone _) (hnone _)
  | cons block blocks =>
    obtain ⟨hblock, hrest⟩ := List.isChain_cons_cons.mp h
    rw [hbelow] at hblock
    cases hform : block.form with
    | module =>
      rw [hform] at hblock
      exact absurd hblock (Form.module_not_mem_admits _)
    | container =>
      refine .containers [] hbelow (hnone _) ?_
      exact List.forall_mem_cons.mpr ⟨hform, containers_of_upright hrest hform⟩
    | declarations =>
      obtain ⟨routines, inner, rfl, hroutines, hinner⟩ := exists_routines_of_upright hrest hform
      have hall : ∀ other ∈ block :: routines, other.form = .declarations :=
        List.forall_mem_cons.mpr ⟨hform, hroutines⟩
      rcases hinner with
        htypes | ⟨routine, nested, rfl, hroutine, hnested⟩ | ⟨routine, rfl, hroutine⟩
      · exact .containers (block :: routines) hbelow hall htypes
      · exact .body (block :: routines) hbelow hall hroutine hnested
      · exact .asm (block :: routines) hbelow hall hroutine
    | body =>
      refine .body [] hbelow (hnone _) hform ?_
      exact statements_of_upright hrest (by rw [hform]; rfl)
    | asm =>
      rw [eq_nil_of_upright hrest (by rw [hform]; rfl)]
      exact .asm [] hbelow (hnone _) hform
    | section_ =>
      exact .section_ hbelow hform (statements_of_upright hrest (by rw [hform]; rfl))
    | statements => exact .statements hbelow (statements_of_form hrest (by rw [hform]; decide))
    | assembler => exact .statements hbelow (statements_of_form hrest (by rw [hform]; decide))

end Upright

/-! ### What follows from the order -/

theorem Scope.form_not_mem_statements (scope : Scope) :
    scope.form ∉ [Form.statements, Form.assembler] := by
  match scope with
  | .module _ _ => show Form.module ∉ _; decide
  | .container _ _ _ => show Form.container ∉ _; decide
  | .routine .declarations _ => show Form.declarations ∉ _; decide
  | .routine .body _ => show Form.body ∉ _; decide
  | .routine .asm _ => show Form.asm ∉ _; decide
  | .statements => show Form.section_ ∉ _; decide

section Stacked

variable {blocks : List Block}

theorem Stacked.form_ne_module (h : Stacked blocks) :
    ∀ block ∈ blocks.dropLast, block.form ≠ .module := by
  induction blocks with
  | nil => exact List.forall_mem_nil _
  | cons block rest ih =>
    cases rest with
    | nil => exact List.forall_mem_nil _
    | cons below others =>
      obtain ⟨hblock, hrest⟩ := List.isChain_cons_cons.mp h
      rw [List.dropLast_cons_cons]
      refine List.forall_mem_cons.mpr ⟨?_, ih hrest⟩
      intro hmodule
      rw [hmodule] at hblock
      exact Form.module_not_mem_admits _ hblock

/-- What stands inside of statements is nameless, so the innermost block is. -/
theorem Stacked.head_of_statements (h : Stacked blocks) {asm : Bool}
    (hblock : .statements asm ∈ blocks) : ∃ asm' rest, blocks = .statements asm' :: rest := by
  induction blocks with
  | nil => cases hblock
  | cons block rest ih =>
    rcases List.mem_cons.mp hblock with rfl | hblock
    · exact ⟨asm, rest, rfl⟩
    · obtain ⟨asm', others, rfl⟩ := ih h.tail hblock
      have hform := (List.isChain_cons_cons.mp h).1
      match block with
      | .statements asm'' => exact ⟨asm'', _, rfl⟩
      | .entry id scope =>
        -- Inside of a nameless block there is no block with an entry.
        have hnone : scope.form ∉ [Form.statements, Form.assembler] := scope.form_not_mem_statements
        cases asm' with
        | false => exact absurd hform hnone
        | true => cases hform

end Stacked

namespace State

theorem blocks_closeAll {s : State} (hstacked : Stacked s.blocks) (hgrounded : Grounded s.blocks) :
    ∃ bottom, s.blocks.getLast? = some bottom ∧ bottom.isModule = true ∧
      s.closeAll.blocks = [bottom] := by
  obtain ⟨bottom, hlast, hform⟩ := hgrounded
  refine ⟨bottom, hlast, bottom.isModule_iff.mpr hform, ?_⟩
  -- All blocks but the outermost one are closed, and none of them is a module
  -- at which closing would stop.
  have hclosed : s.closeAll.blocks = s.blocks.drop (s.blocks.length - 1) := by
    apply blocks_closeTimes
    rw [← List.dropLast_eq_take]
    exact hstacked.form_ne_module
  have hsplit := List.dropLast_append_getLast? bottom hlast
  have hdrop : (s.blocks.dropLast ++ [bottom]).drop (s.blocks.length - 1) = [bottom] :=
    List.drop_left' List.length_dropLast
  rw [hsplit] at hdrop
  rw [hclosed, hdrop]

theorem size_closeTop (s : State) (stop : Location) :
    (s.closeTop stop).draft.builder.entries.size = s.draft.builder.entries.size := by
  unfold closeTop
  split
  · rfl
  · rfl
  · rfl
  · exact Builder.size_entries_pop _ _

theorem nextId_closeTimes (s : State) (stop : Location) (n : Nat) :
    (s.closeTimes stop n).nextId = s.nextId := by
  induction n generalizing s with
  | zero => rfl
  | succ n ih => exact (ih _).trans (s.size_closeTop stop)

theorem nextId_closeToModule (s : State) : s.closeToModule.nextId = s.nextId := by
  have htimes := s.nextId_closeTimes s.cursor.prevStop (s.countBlocks fun block => !block.isModule)
  unfold closeToModule
  dsimp only
  split
  · exact htimes
  · exact htimes

theorem nextId_closeBlock {s : State} {asm : Bool} {rest : List Block}
    (hblocks : s.blocks = .statements asm :: rest) : s.closeBlock.nextId = s.nextId := by
  have hsync := (s.draft.sameFrame_sync s.cursor).size
  unfold closeBlock
  dsimp only
  rw [hblocks]
  split
  · exact (nextId_closeTimes _ _ _).trans hsync
  · exact hsync

/-- Statements declare nothing. -/
theorem nextId_step_of_statements {s : State} {asm : Bool} {rest : List Block}
    (hblocks : s.blocks = .statements asm :: rest) : s.step.nextId = s.nextId := by
  have hend := nextId_closeBlock hblocks
  unfold step
  rw [hblocks]
  dsimp only
  cases asm with
  | true =>
    rw [if_pos rfl, asmStep]
    split
    · exact hend
    · rfl
  | false =>
    rw [if_neg Bool.false_ne_true]
    unfold statementStep
    split
    · rfl
    · rfl
    · rfl
    · rfl
    · rfl
    · exact hend
    · exact s.nextId_closeToModule
    · exact s.nextId_closeToModule
    · exact s.nextId_closeToModule
    · rfl

/-! ### Every reachable state -/

/-- The blocks and the builder of a state agree, and the blocks stand in a
    legal order. -/
structure Legal (s : State) : Prop where
  /-- The entries that the blocks hold open, outermost first, are those that
      the builder has open. -/
  entries : s.blocks.reverse.filterMap Block.entryId? = s.draft.builder.stack.reverse
  /-- The outermost block is the module, and no other one is. -/
  module : ∃ bottom above, s.blocks.reverse = bottom :: above ∧ bottom.isModule = true ∧
    ∀ block ∈ above, block.isModule = false
  /-- The blocks stand in a legal order. -/
  nesting : Nesting s.blocks.reverse

theorem legal_of_agrees {s : State} (hs : s.Agrees) (hstacked : Stacked s.blocks) : s.Legal := by
  obtain ⟨bottom, hlast, hform⟩ := hs.grounded
  have hsplit : s.blocks.reverse = bottom :: s.blocks.dropLast.reverse := by
    rw [← List.dropLast_append_getLast? bottom hlast, List.reverse_append, List.dropLast_concat]
    rfl
  constructor
  case entries => rw [List.filterMap_reverse, hs.stack]
  case module =>
    refine ⟨bottom, s.blocks.dropLast.reverse, hsplit, bottom.isModule_iff.mpr hform, ?_⟩
    intro block hblock
    rw [Bool.eq_false_iff, ne_eq, block.isModule_iff]
    exact hstacked.form_ne_module block (List.mem_reverse.mp hblock)
  case nesting =>
    have hupright : Upright s.blocks.reverse := List.isChain_reverse.mpr hstacked
    rw [hsplit] at hupright ⊢
    exact nesting_of_upright hupright hform

section Reachable

variable {options : Options} {file : String} {lexemes : List Lexeme} {s : State}

theorem Reachable.agrees (h : Reachable options file lexemes s) : s.Agrees :=
  h.induct (agrees_root options file lexemes) fun _ _ heffect => heffect.agrees

theorem Reachable.stacked (h : Reachable options file lexemes s) : Stacked s.blocks := by
  refine h.induct (motive := fun s => Stacked s.blocks) ?_ ?_
  · rw [blocks_root]
    exact List.isChain_singleton _
  · intro s t heffect hs
    exact hs.of_blockChange heffect.blocks

end Reachable

/-- Between the steps of a run over any lexemes the two stacks agree and are
    legal. So a step finds a block, the final `end.` leaves only the module,
    and no entry is made inside of statements. -/
theorem legal_of_reachable (options : Options) (file : String) (lexemes : List Lexeme) :
    Reachable options file lexemes (root options file lexemes).run ∧
      ∀ s, Reachable options file lexemes s →
        s.Legal ∧ s.blocks ≠ [] ∧
        (∀ t : State, t.blocks = s.blocks → ∃ bottom, s.blocks.getLast? = some bottom ∧
          bottom.isModule = true ∧ t.closeAll.blocks = [bottom]) ∧
        ((∃ asm, .statements asm ∈ s.blocks) → s.step.nextId = s.nextId) := by
  refine ⟨reachable_run options file lexemes, ?_⟩
  intro s h
  have hlegal := legal_of_agrees h.agrees h.stacked
  refine ⟨hlegal, ?_, ?_, ?_⟩
  · obtain ⟨bottom, hlast, _⟩ := h.agrees.grounded
    exact List.ne_nil_of_mem (List.mem_of_getLast? hlast)
  · intro t hblocks
    rw [← hblocks]
    exact blocks_closeAll (hblocks ▸ h.stacked) (hblocks ▸ h.agrees.grounded)
  · rintro ⟨asm, hblock⟩
    obtain ⟨asm', rest, hblocks⟩ := h.stacked.head_of_statements hblock
    exact nextId_step_of_statements hblocks

/-- Assembler code inside of the body of a routine. -/
theorem legal_inside_of_assembler :
    let lexemes := Lexer.lex false "procedure p; begin asm nop"
    let s := step^[3] (root {} "a.pas" lexemes)
    s.blocks.map Block.form = [.assembler, .body, .module] ∧ s.Legal ∧
      s.step.nextId = s.nextId := by
  intro lexemes s
  have hcontinues : ∀ m < 3, ¬ (step^[m] (root {} "a.pas" lexemes)).Finished := by
    simp only [not_finished_iff]
    decide +kernel
  have hreachable : Reachable {} "a.pas" lexemes s := Reachable.root.iterate 3 hcontinues
  obtain ⟨hlegal, _, _, hnextId⟩ := (legal_of_reachable {} "a.pas" lexemes).2 s hreachable
  refine ⟨by decide +kernel, hlegal, hnextId ⟨true, ?_⟩⟩
  decide +kernel

end State

end PascalOutline
