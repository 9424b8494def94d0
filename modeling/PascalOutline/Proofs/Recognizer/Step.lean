import PascalOutline.Proofs.Recognizer.Declaration
import PascalOutline.Recognizer.Step

/-! # What a step does

  A step makes progress, and it changes the stack of blocks in one of three
  ways: the scope of the innermost block changes, a block is opened inside of
  it, or blocks are closed from the innermost one on. The builder follows:
  what is open there stays what the blocks hold open.

  `State.Effect` says all this about two states, and `State.effect_step` that
  it holds of every step. It is the only place where the functions of a step
  are taken apart; invariants of the recognizer follow from the effect alone.
-/

namespace PascalOutline

/-! ### Changes of the block stack -/

namespace Form

/-- The forms of blocks that may stand directly inside of a block. -/
def admits : Form → List Form
  | module => [container, declarations, body, asm, section_, statements, assembler]
  | container => [container]
  | declarations => [container, declarations, body, asm]
  | body => [statements, assembler]
  | asm => []
  | section_ => [statements, assembler]
  | statements => [statements, assembler]
  | assembler => []

/-- The forms that a block may take on: a routine goes on to its body. -/
def becomes : Form → List Form
  | declarations => [declarations, body, asm]
  | form => [form]

theorem mem_admits_module {form : Form} (h : form ≠ .module) : form ∈ Form.module.admits := by
  cases form with
  | module => exact absurd rfl h
  | _ => decide

theorem mem_becomes (form : Form) : form ∈ form.becomes := by
  cases form <;> decide

end Form

/-- How a step changes the open blocks. -/
inductive BlockChange : List Block → List Block → Prop where
  /-- The innermost block gets another scope. -/
  | rescoped {id : EntryId} {scope scope' : Scope} {rest : List Block}
      (hform : scope'.form ∈ scope.form.becomes) (hdepth : scope'.depth ≤ scope.depth + 1) :
      BlockChange (.entry id scope :: rest) (.entry id scope' :: rest)
  /-- A block is opened inside of the innermost one. -/
  | opened {block below : Block} {rest : List Block} (hform : block.form ∈ below.form.admits)
      (hdepth : block.depth = 0) :
      BlockChange (below :: rest) (block :: below :: rest)
  /-- Blocks are closed, the module not among them; or nothing happens. -/
  | closed (shut : List Block) {rest : List Block} (hform : ∀ block ∈ shut, block.form ≠ .module) :
      BlockChange (shut ++ rest) rest

theorem BlockChange.refl (blocks : List Block) : BlockChange blocks blocks :=
  .closed [] (List.forall_mem_nil _)

theorem BlockChange.length_le {blocks blocks' : List Block} (h : BlockChange blocks blocks') :
    blocks'.length ≤ blocks.length + 1 := by
  cases h with
  | rescoped _ _ => exact Nat.le_succ _
  | opened _ _ => exact Nat.le_refl _
  | closed shut _ =>
    rw [List.length_append]
    omega

/-- The outermost block is the module. -/
def Grounded (blocks : List Block) : Prop :=
  ∃ bottom, blocks.getLast? = some bottom ∧ bottom.form = .module

namespace Grounded

variable {block : Block} {rest : List Block}

theorem cons (h : Grounded rest) (block : Block) : Grounded (block :: rest) := by
  obtain ⟨bottom, hlast, hform⟩ := h
  refine ⟨bottom, ?_, hform⟩
  rw [List.getLast?_cons, hlast]
  rfl

theorem of_cons (h : Grounded (block :: rest)) (hblock : block.form ≠ .module) :
    Grounded rest := by
  obtain ⟨bottom, hlast, hform⟩ := h
  cases rest with
  | nil =>
    -- The outermost block is the module, and no other one can be closed.
    have hbottom : block = bottom := Option.some.inj hlast
    rw [hbottom] at hblock
    exact absurd hform hblock
  | cons next others =>
    rw [List.getLast?_cons_cons] at hlast
    exact ⟨bottom, hlast, hform⟩

theorem ne_nil {blocks : List Block} (h : Grounded blocks) :
    blocks.filterMap Block.entryId? ≠ [] := by
  obtain ⟨bottom, hlast, hform⟩ := h
  have hmem : bottom ∈ blocks := List.mem_of_getLast? hlast
  cases bottom with
  | statements asm => cases asm <;> cases hform
  | entry id scope => exact List.ne_nil_of_mem (List.mem_filterMap.mpr ⟨_, hmem, rfl⟩)

end Grounded

namespace State

/-- The builder agrees with the blocks: what it has open are the entries that
    the blocks hold open. -/
structure Agrees (s : State) : Prop where
  /-- The links of the builder fit together. -/
  arena : s.draft.builder.Arena
  /-- The module is open. -/
  grounded : Grounded s.blocks
  /-- The open entries are those of the blocks. -/
  stack : s.blocks.filterMap Block.entryId? = s.draft.builder.stack

/-- What a step does. -/
structure Effect (s t : State) : Prop where
  /-- Entries are made from the tokens that are passed. -/
  builds : Builds s.place t.place
  /-- The blocks change in one of three ways. -/
  blocks : BlockChange s.blocks t.blocks
  /-- The recognizer stops, or a token is passed, or a block is closed. -/
  progress : t.stopped = true ∨ s.cursor.Passes t.cursor ∨
    t.cursor = s.cursor ∧ t.blocks.length < s.blocks.length
  /-- The builder still agrees with the blocks. -/
  agrees : s.Agrees → t.Agrees

theorem Agrees.log {s : State} (h : s.Agrees) (e : Event) : (s.log e).Agrees :=
  ⟨h.arena, h.grounded, h.stack⟩

theorem Effect.log {s t : State} (h : s.Effect t) (e : Event) : s.Effect (t.log e) :=
  ⟨h.builds, h.blocks, h.progress, fun hs => (h.agrees hs).log e⟩

theorem Effect.ite {s t u : State} {condition : Prop} [Decidable condition]
    (ht : condition → s.Effect t) (hu : ¬ condition → s.Effect u) :
    s.Effect (if condition then t else u) := by
  by_cases h : condition
  · rw [if_pos h]
    exact ht h
  · rw [if_neg h]
    exact hu h

/-! ### Steps that read a declaration -/

section Declared

variable {s t : State} {forms : List Form}

theorem Agrees.of_declares (hs : s.Agrees) (h : Declares s.cursor s t forms) : t.Agrees := by
  have harena : t.draft.builder.Arena := Builder.Arena.of_builds (x := s.place) hs.arena h.builds
  cases h.opens with
  | nothing hblocks hstack =>
    refine ⟨harena, ?_, ?_⟩
    · rw [hblocks]
      exact hs.grounded
    · rw [hblocks, hstack hs.arena]
      exact hs.stack
  | entry id scope _ _ hblocks hstack =>
    refine ⟨harena, ?_, ?_⟩
    · rw [hblocks]
      exact hs.grounded.cons _
    · rw [hblocks, hstack hs.arena, ← hs.stack]
      rfl

theorem Declares.blocks_eq (h : Declares s.cursor s t []) : t.blocks = s.blocks := by
  cases h.opens with
  | nothing hblocks _ => exact hblocks
  | entry _ _ hform => cases hform

/-- A declaration inside of a block that admits what it opens. -/
theorem Declares.effect {below : Block} {rest : List Block} (hblocks : s.blocks = below :: rest)
    (hforms : forms ⊆ below.form.admits) (h : Declares s.cursor s t forms) : s.Effect t := by
  constructor
  case builds => exact h.builds
  case blocks =>
    cases h.opens with
    | nothing hsame _ =>
      rw [hsame]
      exact .refl _
    | entry id scope hform hdepth hopened _ =>
      rw [hopened, hblocks]
      exact .opened (hforms hform) hdepth
  case progress => exact Or.inr (Or.inl h.passes)
  case agrees => exact fun hs => hs.of_declares h

/-- A declaration that opens nothing. -/
theorem Declares.effect_nil (h : Declares s.cursor s t []) : s.Effect t := by
  constructor
  case builds => exact h.builds
  case blocks =>
    rw [h.blocks_eq]
    exact .refl _
  case progress => exact Or.inr (Or.inl h.passes)
  case agrees => exact fun hs => hs.of_declares h

theorem effect_next (h : s.cursor.ahead ≠ []) : s.Effect s.next :=
  (declares_next h).effect_nil

/-- After a declaration the innermost block gets another scope. -/
theorem Declares.effect_setScope {id : EntryId} {scope scope' : Scope} {rest : List Block}
    (hblocks : s.blocks = .entry id scope :: rest) (hform : scope'.form ∈ scope.form.becomes)
    (hdepth : scope'.depth ≤ scope.depth + 1) (h : Declares s.cursor s t []) :
    s.Effect (t.setScope scope') := by
  have hopen : t.blocks = .entry id scope :: rest := h.blocks_eq.trans hblocks
  have hset : t.setScope scope' = { t with blocks := .entry id scope' :: rest } := by
    rw [setScope, hopen]
  rw [hset]
  constructor
  case builds => exact h.builds
  case blocks =>
    rw [hblocks]
    exact .rescoped hform hdepth
  case progress => exact Or.inr (Or.inl h.passes)
  case agrees =>
    intro hs
    have ht := hs.of_declares h
    refine ⟨ht.arena, ?_, ?_⟩
    · have hgrounded := ht.grounded
      rw [hopen] at hgrounded
      cases rest with
      | nil =>
        -- The module stays the module.
        obtain ⟨bottom, hlast, hbottom⟩ := hgrounded
        have hscope : scope.form = .module := by
          rw [← Option.some.inj hlast] at hbottom
          exact hbottom
        rw [hscope] at hform
        exact ⟨_, rfl, List.mem_singleton.mp hform⟩
      | cons next others =>
        obtain ⟨bottom, hlast, hbottom⟩ := hgrounded
        rw [List.getLast?_cons_cons] at hlast
        exact ⟨bottom, by rw [List.getLast?_cons_cons]; exact hlast, hbottom⟩
    · have hstack := ht.stack
      rw [hopen] at hstack
      exact hstack

/-- After a declaration names begin declarations of another form. -/
theorem Declares.effect_setDecls (h : Declares s.cursor s t []) {decls : DeclPart}
    (hdepth : ∀ top rest, s.blocks = top :: rest → decls.depth ≤ top.depth + 1) :
    s.Effect (t.setDecls decls) := by
  have hopen := h.blocks_eq
  unfold setDecls
  split
  next hblocks =>
    have htop := hopen.symm.trans hblocks
    exact h.effect_setScope htop (Form.mem_becomes _) (hdepth _ _ htop)
  next hblocks =>
    have htop := hopen.symm.trans hblocks
    exact h.effect_setScope htop (Form.mem_becomes _) (hdepth _ _ htop)
  next phase _ _ hblocks =>
    have htop := hopen.symm.trans hblocks
    refine h.effect_setScope htop ?_ (hdepth _ _ htop)
    cases phase <;> exact Form.mem_becomes _
  next => exact h.effect_nil

/-- After a declaration names begin declarations outside of any parentheses. -/
theorem Declares.effect_setDecls_of_depth (h : Declares s.cursor s t []) {decls : DeclPart}
    (hdepth : decls.depth = 0) : s.Effect (t.setDecls decls) := by
  refine h.effect_setDecls ?_
  intro top rest _
  rw [hdepth]
  exact Nat.zero_le _

theorem effect_beginPart (h : s.cursor.ahead ≠ []) {decls : DeclPart} (hdepth : decls.depth = 0) :
    s.Effect (s.beginPart decls) :=
  (declares_nextTransparent h).effect_setDecls_of_depth hdepth

/-- A word opens a nameless block. -/
theorem effect_openStatements {below : Block} {rest : List Block} (h : s.cursor.ahead ≠ [])
    (hblocks : s.blocks = below :: rest) {asm : Bool}
    (hform : (Block.statements asm).form ∈ below.form.admits) :
    s.Effect (s.next.openBlock (.statements asm)) := by
  have hnext := declares_next h
  constructor
  case builds => exact hnext.builds
  case blocks =>
    show BlockChange s.blocks (.statements asm :: s.blocks)
    rw [hblocks]
    exact .opened hform rfl
  case progress => exact Or.inr (Or.inl hnext.passes)
  case agrees =>
    intro hs
    exact ⟨hs.arena, hs.grounded.cons _, hs.stack⟩

end Declared

/-! ### Steps that close blocks -/

/-- From `s` to `t` blocks were closed, and no token was passed. -/
structure Closes (s t : State) : Prop where
  /-- The cursor stands where it stood. -/
  cursor : t.cursor = s.cursor
  /-- Entries end with the last token that was passed. -/
  builds : Builds s.place t.place
  /-- The blocks were closed from the innermost one on. -/
  blocks : ∃ shut, s.blocks = shut ++ t.blocks ∧ ∀ block ∈ shut, block.form ≠ .module
  /-- The builder still agrees with the blocks. -/
  agrees : s.Agrees → t.Agrees

namespace Closes

variable {s t u : State}

theorem refl (s : State) : s.Closes s :=
  ⟨rfl, .refl, ⟨[], rfl, List.forall_mem_nil _⟩, id⟩

theorem trans (h : s.Closes t) (h' : t.Closes u) : s.Closes u := by
  obtain ⟨shut, hshut, hform⟩ := h.blocks
  obtain ⟨more, hmore, hform'⟩ := h'.blocks
  refine ⟨h'.cursor.trans h.cursor, h.builds.trans h'.builds, ⟨shut ++ more, ?_, ?_⟩, ?_⟩
  · rw [hshut, hmore, List.append_assoc]
  · intro block hblock
    rcases List.mem_append.mp hblock with hblock | hblock
    · exact hform block hblock
    · exact hform' block hblock
  · intro hs
    exact h'.agrees (h.agrees hs)

theorem blockChange (h : s.Closes t) : BlockChange s.blocks t.blocks := by
  obtain ⟨shut, hshut, hform⟩ := h.blocks
  rw [hshut]
  exact .closed shut hform

theorem effect (h : s.Closes t) (hclosed : t.blocks.length < s.blocks.length) : s.Effect t :=
  ⟨h.builds, h.blockChange, Or.inr (Or.inr ⟨h.cursor, hclosed⟩), h.agrees⟩

end Closes

/-- Inside of the module, the innermost open entry is that of the innermost
    block, and it is not the only one. -/
theorem Agrees.stack_cons {s : State} (hs : s.Agrees) {id : EntryId} {scope : Scope}
    {rest : List Block} (hblocks : s.blocks = .entry id scope :: rest)
    (hform : scope.form ≠ .module) :
    s.draft.builder.stack = id :: rest.filterMap Block.entryId? ∧ Grounded rest := by
  have hstack := hs.stack
  have hgrounded := hs.grounded
  rw [hblocks] at hstack hgrounded
  exact ⟨hstack.symm, hgrounded.of_cons hform⟩

/-- Inside of the module, to close the innermost block takes it off and closes
    its entry, if it has one. -/
theorem closeTop_eq {s : State} {block : Block} {rest : List Block}
    (hblocks : s.blocks = block :: rest) (hform : block.form ≠ .module) (stop : Location) :
    s.closeTop stop = { s.build fun b => b.popTimes stop ([block].filterMap Block.entryId?).length
                          with blocks := rest } := by
  unfold closeTop
  rw [hblocks]
  match block with
  | .statements asm => rfl
  | .entry id (.module unitPart decls) => exact absurd rfl hform
  | .entry id (.container kind visibility decls) => rfl
  | .entry id (.routine phase decls) => rfl
  | .entry id .statements => rfl

theorem blocks_closeTop {s : State} {block : Block} {rest : List Block}
    (hblocks : s.blocks = block :: rest) (hform : block.form ≠ .module) (stop : Location) :
    (s.closeTop stop).blocks = rest := by
  rw [closeTop_eq hblocks hform]

theorem closes_closeTop (s : State) : s.Closes (s.closeTop s.cursor.prevStop) := by
  unfold closeTop
  split
  next => exact .refl s
  next asm rest hblocks =>
    -- A nameless block has no entry, so the builder stays as it is.
    refine ⟨rfl, .refl, ⟨[.statements asm], hblocks, ?_⟩, ?_⟩
    · intro block hblock
      rw [List.mem_singleton.mp hblock]
      cases asm <;> decide
    · intro hs
      have hstack := hs.stack
      have hgrounded := hs.grounded
      rw [hblocks] at hstack hgrounded
      refine ⟨hs.arena, hgrounded.of_cons ?_, hstack⟩
      cases asm <;> decide
  next => exact .refl s
  next id scope rest hmodule hblocks =>
    -- The block and its entry are closed together.
    have hform : scope.form ≠ .module := Scope.form_ne_module hmodule
    have hpop : Builds s.place (s.cursor, s.draft.builder.pop s.cursor.prevStop) := .single .pop
    refine ⟨rfl, hpop, ⟨[.entry id scope], hblocks, ?_⟩, ?_⟩
    · intro block hblock
      rw [List.mem_singleton.mp hblock]
      exact hform
    · intro hs
      obtain ⟨hstack, hgrounded⟩ := hs.stack_cons hblocks hform
      refine ⟨Builder.Arena.of_builds (x := s.place) hs.arena hpop, hgrounded, ?_⟩
      exact (Builder.stack_pop hstack hgrounded.ne_nil _).symm

theorem closes_closeTimes (s : State) (n : Nat) : s.Closes (s.closeTimes s.cursor.prevStop n) := by
  induction n generalizing s with
  | zero => exact .refl s
  | succ n ih =>
    -- The cursor does not move, so all blocks end at the same place.
    have htop := s.closes_closeTop
    have htimes := ih (s.closeTop s.cursor.prevStop)
    rw [htop.cursor] at htimes
    exact htop.trans htimes

/-- Blocks inside of the module are closed one by one. -/
theorem blocks_closeTimes {s : State} {n : Nat} {stop : Location}
    (hform : ∀ block ∈ s.blocks.take n, block.form ≠ .module) :
    (s.closeTimes stop n).blocks = s.blocks.drop n := by
  induction n generalizing s with
  | zero => rfl
  | succ n ih =>
    cases hblocks : s.blocks with
    | nil =>
      -- There is nothing to close any more.
      have htop : s.closeTop stop = s := by
        rw [closeTop, hblocks]
      rw [closeTimes, htop, ih, hblocks, List.drop_nil, List.drop_nil]
      rw [hblocks]
      intro block hblock
      rw [List.take_nil] at hblock
      exact absurd hblock List.not_mem_nil
    | cons block rest =>
      rw [hblocks] at hform
      have htop := blocks_closeTop hblocks (hform block List.mem_cons_self) stop
      rw [closeTimes, ih, htop, List.drop_succ_cons]
      intro below hbelow
      rw [htop] at hbelow
      exact hform below (List.mem_cons_of_mem _ hbelow)

/-- Closing the innermost blocks that pass a test, the module not among them,
    closes all of these. -/
theorem blocks_closeTimes_countBlocks (s : State) {p : Block → Bool}
    (hp : ∀ block, p block = true → block.form ≠ .module) (stop : Location) :
    (s.closeTimes stop (s.countBlocks p)).blocks = s.blocks.drop (s.countBlocks p) := by
  apply blocks_closeTimes
  intro block hblock
  have htake : s.blocks.take (s.countBlocks p) = s.blocks.takeWhile p :=
    (List.prefix_iff_eq_take.mp (List.takeWhile_prefix p)).symm
  rw [htake] at hblock
  exact hp block (List.all_eq_true.mp List.all_takeWhile block hblock)

theorem length_closeTimes_countBlocks_lt {s : State} {p : Block → Bool} {top : Block}
    {rest : List Block} (hblocks : s.blocks = top :: rest) (htop : p top = true)
    (hp : ∀ block, p block = true → block.form ≠ .module) (stop : Location) :
    (s.closeTimes stop (s.countBlocks p)).blocks.length < s.blocks.length := by
  have hcount : s.countBlocks p = (rest.takeWhile p).length + 1 := by
    rw [countBlocks, hblocks, List.takeWhile_cons_of_pos htop, List.length_cons]
  rw [s.blocks_closeTimes_countBlocks hp, List.length_drop, hcount, hblocks, List.length_cons]
  omega

theorem effect_closeToModule {s : State} {top : Block} {rest : List Block}
    (hblocks : s.blocks = top :: rest) (hform : top.form ≠ .module) :
    s.Effect s.closeToModule := by
  have hmodule : ∀ block : Block, (!block.isModule) = true ↔ block.form ≠ .module := by
    intro block
    rw [Bool.not_eq_true', Bool.eq_false_iff, ne_eq, block.isModule_iff]
  have htimes := s.closes_closeTimes (s.countBlocks fun block => !block.isModule)
  have hclosed := htimes.effect (length_closeTimes_countBlocks_lt hblocks ((hmodule top).mpr hform)
    (fun block => (hmodule block).mp) s.cursor.prevStop)
  unfold closeToModule
  dsimp only
  split
  · exact hclosed
  · exact hclosed.log _

theorem effect_closeContainers {s : State} {top : Block} {rest : List Block}
    (hblocks : s.blocks = top :: rest) (hform : top.form = .container) :
    s.Effect s.closeContainers := by
  have htimes := s.closes_closeTimes (s.countBlocks Block.isContainer)
  refine (htimes.effect (length_closeTimes_countBlocks_lt hblocks ?_ ?_ s.cursor.prevStop)).log _
  · exact top.isContainer_iff.mpr hform
  · intro block hblock hmodule
    rw [block.isContainer_iff.mp hblock] at hmodule
    cases hmodule

theorem effect_closeBodiless {s : State} {top : Block} {rest : List Block}
    (hblocks : s.blocks = top :: rest) (hform : top.form ≠ .module) :
    s.Effect s.closeBodiless := by
  have hclosed := closes_closeTop (s.log (.bodilessRoutine s.cursor.location.line))
  have hrest := blocks_closeTop (s := s.log (.bodilessRoutine s.cursor.location.line)) hblocks hform
    s.cursor.prevStop
  refine ⟨hclosed.builds, hclosed.blockChange, Or.inr (Or.inr ⟨hclosed.cursor, ?_⟩), ?_⟩
  · unfold closeBodiless
    rw [hrest, hblocks]
    exact Nat.lt_succ_self _
  · intro hs
    exact hclosed.agrees (hs.log _)

/-- Tokens are passed, and then blocks are closed. -/
theorem Declares.effect_closes {s t u : State} (h : Declares s.cursor s t [])
    (hclosed : t.Closes u) : s.Effect u := by
  refine ⟨h.builds.trans hclosed.builds, ?_, Or.inr (Or.inl ?_), ?_⟩
  · rw [← h.blocks_eq]
    exact hclosed.blockChange
  · rw [hclosed.cursor]
    exact h.passes
  · intro hs
    exact hclosed.agrees (hs.of_declares h)

theorem effect_closeAll {s t : State} (h : Declares s.cursor s t []) : s.Effect t.closeAll := by
  have hclosed := h.effect_closes (t.closes_closeTimes (t.blocks.length - 1))
  -- To stop is progress, whether blocks were left to close or not.
  exact ⟨hclosed.builds, hclosed.blocks, Or.inl rfl, fun hs =>
    ⟨(hclosed.agrees hs).arena, (hclosed.agrees hs).grounded, (hclosed.agrees hs).stack⟩⟩

/-- An open entry is completed, and its block is closed. -/
theorem effect_complete {s t : State} (h : Declares s.cursor s t []) {id : EntryId} {scope : Scope}
    {rest : List Block} (hblocks : s.blocks = .entry id scope :: rest)
    (hform : scope.form ≠ .module) {done : Cursor} (hdone : t.cursor.Reaches done)
    {f : Entry → Entry} (hlinks : ∀ e, (f e).links = e.links) (hends : ∀ e, (f e).ends = e.ends) :
    s.Effect (({ t with blocks := t.blocks.tail }.moveTo done).complete id f) := by
  have hopen : t.blocks = .entry id scope :: rest := h.blocks_eq.trans hblocks
  have htail : t.blocks.tail = rest := by
    rw [hopen]
    rfl
  have hcomplete := builds_complete hlinks hends
    ({ t with blocks := t.blocks.tail }.moveTo done) id
  have hbuilds := (h.builds.tail (.move hdone)).trans hcomplete
  refine ⟨hbuilds, ?_, Or.inr (Or.inl (h.passes.trans_reaches hdone)), ?_⟩
  · show BlockChange s.blocks t.blocks.tail
    rw [htail, hblocks]
    refine .closed [.entry id scope] ?_
    intro block hblock
    rw [List.mem_singleton.mp hblock]
    exact hform
  · intro hs
    obtain ⟨hstack, hgrounded⟩ := (hs.of_declares h).stack_cons hopen hform
    refine ⟨Builder.Arena.of_builds (x := s.place) hs.arena hbuilds, ?_, ?_⟩
    · show Grounded t.blocks.tail
      rw [htail]
      exact hgrounded
    · show t.blocks.tail.filterMap Block.entryId? = _
      rw [htail]
      exact (stack_complete (s := { t with blocks := t.blocks.tail }.moveTo done) hlinks hends
        hstack hgrounded.ne_nil).symm

theorem effect_closeEntry {s t : State} (h : Declares s.cursor s t []) {id : EntryId}
    {scope : Scope} {rest : List Block} (hblocks : s.blocks = .entry id scope :: rest)
    (hform : scope.form ≠ .module) : s.Effect (t.closeEntry id scope) := by
  refine effect_complete h hblocks hform (Cursor.Reaches.passSymbol ?_ ";") ?_ ?_
  · split
    · exact (Cursor.Reaches.refl _).directives
    · exact .refl _
  · intro e
    rfl
  · intro e
    rfl

theorem effect_closeBlock {s : State} (h : s.cursor.ahead ≠ []) : s.Effect s.closeBlock := by
  have hsync : s.Edits { s with draft := s.draft.sync s.cursor } :=
    ⟨s.draft.sameFrame_sync s.cursor, rfl, rfl⟩
  have hpassed : Declares s.cursor s ({ s with draft := s.draft.sync s.cursor } : State).next [] :=
    .of_edits hsync (declares_moveTo (Cursor.passes_next h) _)
  unfold closeBlock
  dsimp only
  by_cases hfinal : s.cursor.nthIsSymbol 1 "." = true
  · -- The final `end.` closes everything.
    rw [if_pos hfinal]
    exact effect_closeAll
      (.of_edits hsync (declares_moveTo (Cursor.passes_advance h Nat.two_pos) _))
  · rw [if_neg hfinal]
    split
    next asm rest hblocks =>
      -- To take the block off is what `closeTop` does with a nameless one.
      have hclosed := hpassed.effect_closes (closes_closeTop _)
      rw [closeTop, show ({ s with draft := s.draft.sync s.cursor } : State).next.blocks
        = .statements asm :: rest from hblocks] at hclosed
      exact hclosed
    next id scope rest hblocks =>
      split
      next => exact hpassed.effect_nil.log _
      -- The module is closed by nothing but the end of the source.
      next hmodule =>
        exact effect_closeEntry hpassed hblocks (Scope.form_ne_module hmodule)
    next => exact hpassed.effect_nil.log _

/-! ### Steps by block -/

section Steps

variable {s : State} {below : Block} {rest : List Block}

theorem effect_nameStep (h : s.cursor.ahead ≠ []) (hblocks : s.blocks = below :: rest)
    (hform : .container ∈ below.form.admits) (decls : DeclPart) :
    s.Effect (s.nameStep decls) := by
  unfold nameStep
  split
  · refine (declares_typeDecl h none).effect hblocks ?_
    exact List.cons_subset.mpr ⟨hform, List.nil_subset _⟩
  · exact (declares_valueDecl h _ _ _).effect_nil
  · exact (declares_valueDecl h _ _ _).effect_nil
  · exact effect_next h

theorem effect_plainStep (h : s.cursor.ahead ≠ []) (hblocks : s.blocks = below :: rest)
    (hform : .container ∈ below.form.admits) (decls : DeclPart) :
    s.Effect (s.plainStep decls) := by
  unfold plainStep
  split
  next hbracket => exact (declares_skipAttribute hbracket).effect_nil
  next =>
    split
    · exact effect_nameStep h hblocks hform decls
    · exact effect_next h

/-- A routine that is not a member of a type. -/
theorem effect_routineDecl_none (h : s.cursor.ahead ≠ []) (hblocks : s.blocks = below :: rest)
    (hform : .declarations ∈ below.form.admits) : s.Effect (s.routineDecl none) :=
  (declares_routineDecl h none).effect hblocks (List.cons_subset.mpr ⟨hform, List.nil_subset _⟩)

theorem effect_moduleStep (h : s.cursor.ahead ≠ []) {unitPart : UnitPart} {decls : DeclPart}
    {id : EntryId} (hblocks : s.blocks = .entry id (.module unitPart decls) :: rest) :
    s.Effect (s.moduleStep id decls) := by
  have hroutine := effect_routineDecl_none h hblocks (Form.mem_admits_module nofun)
  have hsection : [.section_] ⊆ Form.module.admits := by decide
  unfold moduleStep
  -- One case for each word that has a meaning here: those of the parts of the
  -- module, those before declarations, then those that open and close blocks.
  split
  · exact (declares_nextTransparent h).effect_setScope hblocks (Form.mem_becomes _) (Nat.zero_le _)
  · exact (declares_nextTransparent h).effect_setScope hblocks (Form.mem_becomes _) (Nat.zero_le _)
  · exact (declares_usesClause h id).effect_nil
  · exact (declares_usesClause h id).effect_nil
  · exact (declares_usesClause h id).effect_nil
  · exact effect_beginPart h rfl
  · exact effect_beginPart h rfl
  · exact effect_beginPart h rfl
  · exact effect_beginPart h rfl
  · exact effect_beginPart h rfl
  · exact (declares_skipStatement h).effect_setDecls_of_depth rfl
  · exact (declares_skipStatement h).effect_setDecls_of_depth rfl
  · exact (declares_openSection h).effect hblocks hsection
  · exact (declares_openSection h).effect hblocks hsection
  · exact effect_openStatements h hblocks (Form.mem_admits_module nofun)
  · exact effect_openStatements h hblocks (Form.mem_admits_module nofun)
  · exact effect_closeBlock h
  · split
    · exact hroutine
    · exact effect_next h
  · split
    · exact hroutine
    · exact effect_next h
  · exact effect_plainStep h hblocks (Form.mem_admits_module nofun) decls

theorem effect_visibilityStep (h : s.cursor.ahead ≠ []) {kind : EntryKind}
    {visibility : Visibility} {decls : DeclPart} {id : EntryId}
    (hblocks : s.blocks = .entry id (.container kind visibility decls) :: rest)
    (kind' : EntryKind) (visibility' : Visibility) :
    s.Effect (s.visibilityStep kind' visibility') := by
  unfold visibilityStep
  dsimp only
  split
  · exact (declares_nextTransparent_nextTransparent h).effect_setScope hblocks (Form.mem_becomes _)
      (Nat.zero_le _)
  · exact (declares_nextTransparent h).effect_setScope hblocks (Form.mem_becomes _) (Nat.zero_le _)

theorem effect_memberNameStep (h : s.cursor.ahead ≠ []) (hblocks : s.blocks = below :: rest)
    (hform : .container ∈ below.form.admits) (visibility : Visibility) (decls : DeclPart) :
    s.Effect (s.memberNameStep visibility decls) := by
  unfold memberNameStep
  split
  · refine (declares_typeDecl h _).effect hblocks ?_
    exact List.cons_subset.mpr ⟨hform, List.nil_subset _⟩
  · exact (declares_valueDecl h _ _ _).effect_nil
  · exact (declares_valueDecl h _ _ _).effect_nil
  · exact effect_next h
  · exact (declares_valueDecl h _ _ _).effect_nil

theorem setDecls_next (s : State) (decls : DeclPart) :
    (s.setDecls decls).next = s.next.setDecls decls := by
  obtain ⟨cursor, draft, blocks, diagnostics, stopped⟩ := s
  match blocks with
  | [] => rfl
  | .statements _ :: _ => rfl
  | .entry _ (.module _ _) :: _ => rfl
  | .entry _ (.container _ _ _) :: _ => rfl
  | .entry _ (.routine _ _) :: _ => rfl
  | .entry _ .statements :: _ => rfl

theorem effect_memberSymbolStep (h : s.cursor.ahead ≠ []) (hblocks : s.blocks = below :: rest)
    {decls : DeclPart} (hdepth : decls.depth ≤ below.depth) :
    s.Effect (s.memberSymbolStep decls) := by
  have hset (decls' : DeclPart) (hle : decls'.depth ≤ decls.depth + 1) :
      s.Effect (s.setDecls decls').next := by
    rw [setDecls_next]
    refine (declares_next h).effect_setDecls ?_
    intro top others htop
    obtain ⟨rfl, rfl⟩ := List.cons.inj (hblocks.symm.trans htop)
    omega
  unfold memberSymbolStep
  split
  next depth =>
    split
    · exact hset _ (Nat.le_refl _)
    · split
      · exact hset _ (show depth - 1 ≤ depth + 1 by omega)
      · exact effect_next h
  · exact effect_next h

theorem effect_plainMemberStep (h : s.cursor.ahead ≠ []) (hblocks : s.blocks = below :: rest)
    (hform : .container ∈ below.form.admits) (visibility : Visibility) {decls : DeclPart}
    (hdepth : decls.depth ≤ below.depth) : s.Effect (s.plainMemberStep visibility decls) := by
  unfold plainMemberStep
  dsimp only
  refine .ite ?_ ?_
  · intro hbracket
    exact (declares_skipAttribute (Bool.and_eq_true_iff.mp hbracket).1).effect_nil
  · intro _
    split
    · exact effect_memberNameStep h hblocks hform visibility decls
    · exact effect_memberSymbolStep h hblocks hdepth

theorem effect_classWordStep (h : s.cursor.ahead ≠ []) (visibility : Visibility) :
    s.Effect (s.classWordStep visibility) := by
  unfold classWordStep
  split
  · exact (declares_nextTransparent_nextTransparent h).effect_setDecls_of_depth rfl
  · split
    · exact (declares_propertyDecl h visibility).effect_nil
    · split
      · exact (declares_routineDecl h (some visibility)).effect_nil
      · exact effect_next h

theorem effect_memberStep (h : s.cursor.ahead ≠ []) (hblocks : s.blocks = below :: rest)
    (hform : below.form = .container) (kind : EntryKind) (visibility : Visibility)
    {decls : DeclPart} (hdepth : decls.depth ≤ below.depth) :
    s.Effect (s.memberStep kind visibility decls) := by
  have hne : below.form ≠ .module := by
    rw [hform]
    exact nofun
  have hadmits : .container ∈ below.form.admits := by
    rw [hform]
    decide
  unfold memberStep
  split
  · exact effect_beginPart h rfl
  · exact effect_classWordStep h visibility
  · exact effect_beginPart h rfl
  · exact effect_beginPart h rfl
  · exact (declares_propertyDecl h visibility).effect_nil
  · -- Only records and old objects have variants.
    split
    · obtain ⟨t, decls', hdeclares, heq, hsame⟩ := declares_variantPart h visibility decls
      rw [heq]
      refine hdeclares.effect_setDecls ?_
      intro top others htop
      obtain ⟨rfl, rfl⟩ := List.cons.inj (hblocks.symm.trans htop)
      rw [hsame]
      exact Nat.le_succ_of_le hdepth
    · exact effect_next h
  · exact effect_closeBlock h
  · exact effect_closeToModule hblocks hne
  · exact effect_closeToModule hblocks hne
  · exact effect_closeToModule hblocks hne
  · exact effect_closeContainers hblocks hform
  · split
    · exact (declares_routineDecl h (some visibility)).effect_nil
    · exact effect_next h
  · exact effect_plainMemberStep h hblocks hadmits visibility hdepth

theorem effect_containerStep (h : s.cursor.ahead ≠ []) {kind : EntryKind} {visibility : Visibility}
    {decls : DeclPart} {id : EntryId}
    (hblocks : s.blocks = .entry id (.container kind visibility decls) :: rest) :
    s.Effect (s.containerStep kind visibility decls) := by
  unfold containerStep
  split
  · exact effect_visibilityStep h hblocks _ _
  · exact effect_memberStep h hblocks rfl kind visibility (Nat.le_refl _)

theorem effect_routineStep (h : s.cursor.ahead ≠ []) {decls : DeclPart} {id : EntryId}
    (hblocks : s.blocks = .entry id (.routine .declarations decls) :: rest) :
    s.Effect (s.routineStep decls) := by
  have hroutine := effect_routineDecl_none h hblocks
    (show .declarations ∈ Form.declarations.admits by decide)
  unfold routineStep
  split
  · exact (declares_next h).effect_setScope hblocks
      (show .body ∈ Form.declarations.becomes by decide) (Nat.le_succ _)
  · exact (declares_next h).effect_setScope hblocks
      (show .asm ∈ Form.declarations.becomes by decide) (Nat.le_succ _)
  · exact effect_beginPart h rfl
  · exact effect_beginPart h rfl
  · exact effect_beginPart h rfl
  · exact effect_beginPart h rfl
  · exact effect_beginPart h rfl
  · exact (declares_skipStatement h).effect_nil
  · split
    · exact hroutine
    · exact effect_next h
  -- These words pass no token but close the routine at least.
  · exact effect_closeBodiless hblocks nofun
  · exact effect_closeToModule hblocks nofun
  · exact effect_closeToModule hblocks nofun
  · exact effect_closeToModule hblocks nofun
  · split
    · exact hroutine
    · exact effect_next h
  · exact effect_plainStep h hblocks (show .container ∈ Form.declarations.admits by decide) decls

theorem effect_statementStep (h : s.cursor.ahead ≠ []) (hblocks : s.blocks = below :: rest)
    (hform : below.form.admits = [.statements, .assembler]) : s.Effect s.statementStep := by
  have hstatements : (Block.statements false).form ∈ below.form.admits := by
    rw [hform]
    decide
  have hassembler : (Block.statements true).form ∈ below.form.admits := by
    rw [hform]
    decide
  -- The module admits more than statements.
  have hmodule : below.form ≠ .module := by
    intro hmodule
    rw [hmodule] at hform
    cases hform
  unfold statementStep
  split
  · exact effect_openStatements h hblocks hstatements
  · exact effect_openStatements h hblocks hstatements
  · exact effect_openStatements h hblocks hstatements
  · exact effect_openStatements h hblocks hstatements
  · exact effect_openStatements h hblocks hassembler
  · exact effect_closeBlock h
  · exact effect_closeToModule hblocks hmodule
  · exact effect_closeToModule hblocks hmodule
  · exact effect_closeToModule hblocks hmodule
  · exact effect_next h

theorem effect_asmStep (h : s.cursor.ahead ≠ []) : s.Effect s.asmStep := by
  unfold asmStep
  split
  · exact effect_closeBlock h
  · exact effect_next h

/-- What every step does while tokens are left, in whatever state. -/
theorem effect_step (h : s.cursor.ahead ≠ []) : s.Effect s.step := by
  unfold step
  split
  -- Without a block the recognizer stops at once.
  next => exact ⟨.refl, .refl _, Or.inl rfl, fun hs => ⟨hs.arena, hs.grounded, hs.stack⟩⟩
  next asm rest hblocks =>
    cases asm with
    | true => exact effect_asmStep h
    | false => exact effect_statementStep h hblocks rfl
  next id scope rest hblocks =>
    split
    · exact effect_moduleStep h hblocks
    · exact effect_containerStep h hblocks
    · exact effect_routineStep h hblocks
    · exact effect_statementStep h hblocks rfl
    · exact effect_asmStep h
    · exact effect_statementStep h hblocks rfl

end Steps

end State

end PascalOutline
