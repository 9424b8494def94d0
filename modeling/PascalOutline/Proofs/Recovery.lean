import PascalOutline.Proofs.Outline.Closing
import PascalOutline.Proofs.Recognizer.Final

/-! # Resuming at the next part of the module

  A class, a routine or a block of statements may be left open by mistake.
  At `implementation`, `initialization` or `finalization` everything inside of
  the module is closed where it stands, and the word then begins its part of
  the module as if nothing had been left open. Assembler code is the one
  exception: these words mean nothing in it.

  `resumes_at_part` says this of every reachable state, whatever is open. The
  blocks to close are those above the module (`Agrees.exists_blocks_eq`), and
  the builder closes one entry for each block that has one
  (`builder_closeTimes`); where these entries end is the builder's affair
  (`Builder.Unwinds`).
-/

namespace PascalOutline

/-- Whether a keyword begins a part of the module after the declarations of the
    part before it. -/
def Keyword.beginsPart : Keyword → Bool
  | .implementation | .initialization | .finalization => true
  | _ => false

theorem Keyword.beginsPart_cases {kw : Keyword} (h : kw.beginsPart = true) :
    kw = .implementation ∨ kw = .initialization ∨ kw = .finalization := by
  cases kw <;> simp [beginsPart] at h <;> simp

namespace State

/-! ### The blocks above the module -/

/-- The blocks of a state are the module and others inside of it, and the
    module is the root. -/
theorem Agrees.exists_blocks_eq {s : State} (hs : s.Agrees) (hstacked : Stacked s.blocks) :
    ∃ inner unitPart decls, s.blocks = inner ++ [.entry 0 (.module unitPart decls)] ∧
      ∀ block ∈ inner, block.form ≠ .module := by
  obtain ⟨bottom, hlast, hform⟩ := hs.grounded
  have hblocks := (List.dropLast_append_getLast? bottom hlast).symm
  have hinner := hstacked.form_ne_module
  obtain ⟨id, unitPart, decls, rfl⟩ :
      ∃ id unitPart decls, bottom = .entry id (.module unitPart decls) := by
    match bottom with
    | .entry id (.module unitPart decls) => exact ⟨id, unitPart, decls, rfl⟩
    | .entry _ (.container _ _ _) => cases hform
    | .entry _ (.routine phase _) => cases phase <;> cases hform
    | .entry _ .statements => cases hform
    | .statements asm => cases asm <;> cases hform
  refine ⟨s.blocks.dropLast, unitPart, decls, ?_, hinner⟩
  -- The outermost open entry is the root.
  obtain ⟨above, hstack, _⟩ := hs.arena.exists_stack_eq
  have hentries := hs.stack
  rw [hblocks, List.filterMap_append, hstack] at hentries
  have hid : [id] = [0] := (List.append_inj' hentries rfl).2
  rw [← List.singleton_inj.mp hid]
  exact hblocks

/-! ### The builder follows the blocks -/

theorem builder_closeTop {s : State} {block : Block} {rest : List Block}
    (hblocks : s.blocks = block :: rest) (hform : block.form ≠ .module) (stop : Location) :
    (s.closeTop stop).draft.builder
      = s.draft.builder.popTimes stop ([block].filterMap Block.entryId?).length := by
  rw [closeTop_eq hblocks hform]
  rfl

theorem popTimes_add (b : Builder) (stop : Location) (m n : Nat) :
    b.popTimes stop (m + n) = (b.popTimes stop m).popTimes stop n := by
  induction m generalizing b with
  | zero => rw [Nat.zero_add]; rfl
  | succ m ih => rw [Nat.add_right_comm]; exact ih _

/-- The entries of the closed blocks are closed, one after the other. -/
theorem builder_closeTimes {s : State} {shut rest : List Block} (hblocks : s.blocks = shut ++ rest)
    (hform : ∀ block ∈ shut, block.form ≠ .module) (stop : Location) :
    (s.closeTimes stop shut.length).draft.builder
      = s.draft.builder.popTimes stop (shut.filterMap Block.entryId?).length := by
  induction shut generalizing s with
  | nil => rfl
  | cons block shut ih =>
    have hblock := hform block List.mem_cons_self
    have htop := blocks_closeTop hblocks hblock stop
    rw [List.length_cons, closeTimes, ih htop fun b hb => hform b (List.mem_cons_of_mem _ hb),
      builder_closeTop hblocks hblock, ← popTimes_add, ← List.length_append,
      ← List.filterMap_append]
    rfl

/-! ### Everything inside of the module is closed -/

/-- From `s` to `t` everything inside of the module was closed, and no token
    was passed. -/
structure ReturnsToModule (s t : State) : Prop where
  /-- No token was passed. -/
  cursor : t.cursor = s.cursor
  /-- Only the module is open. -/
  module : ∃ unitPart decls, t.blocks = [.entry 0 (.module unitPart decls)]
  /-- Every other entry ends with the last token that was passed, or at its own
      beginning or at the end of its last child if that is later. -/
  entries : s.draft.builder.Unwinds t.draft.builder s.cursor.prevStop
  /-- The recognizer goes on as before. -/
  stopped : t.stopped = s.stopped

section Closing

variable {s : State}

theorem returnsToModule_self (hs : s.Agrees) {unitPart : UnitPart} {decls : DeclPart}
    (hblocks : s.blocks = [.entry 0 (.module unitPart decls)]) : s.ReturnsToModule s := by
  have hstack : s.draft.builder.stack = [0] := by
    rw [← hs.stack, hblocks]
    rfl
  refine ⟨rfl, ⟨unitPart, decls, hblocks⟩, ⟨hstack, ?_, fun _ _ => rfl⟩, rfl⟩
  intro id hid hne
  rw [hstack] at hid
  exact absurd (List.mem_singleton.mp hid) hne

theorem returnsToModule_closeToModule (hs : s.Agrees) (hstacked : Stacked s.blocks) :
    s.ReturnsToModule s.closeToModule := by
  obtain ⟨inner, unitPart, decls, hblocks, hinner⟩ := hs.exists_blocks_eq hstacked
  have hcount : (s.countBlocks fun block => !block.isModule) = inner.length := by
    rw [countBlocks, hblocks, List.takeWhile_append_of_pos]
    · rw [List.takeWhile_cons_of_neg (by simp [Block.isModule]), List.append_nil]
    · intro block hblock
      rw [Bool.not_eq_true', Bool.eq_false_iff, ne_eq, block.isModule_iff]
      exact hinner block hblock
  -- One entry less is closed than there are open ones: the root stays.
  have hlength : (inner.filterMap Block.entryId?).length = s.draft.builder.stack.length - 1 := by
    rw [← hs.stack, hblocks, List.filterMap_append, List.length_append]
    rfl
  have htimes : (s.closeTimes s.cursor.prevStop inner.length).blocks
      = [.entry 0 (.module unitPart decls)] := by
    rw [blocks_closeTimes, hblocks, List.drop_left]
    rw [hblocks, List.take_left]
    exact hinner
  have hbuilder : (s.closeTimes s.cursor.prevStop inner.length).draft.builder
      = s.draft.builder.popTimes s.cursor.prevStop (s.draft.builder.stack.length - 1) := by
    rw [builder_closeTimes hblocks hinner, hlength]
  have hcursor := (s.closes_closeTimes inner.length).cursor
  have hunwinds := hs.arena.unwinds_popTimes s.cursor.prevStop
  rw [← hbuilder] at hunwinds
  unfold closeToModule
  dsimp only
  rw [hcount]
  split
  · exact ⟨hcursor, ⟨unitPart, decls, htimes⟩, hunwinds, by simp⟩
  · exact ⟨hcursor, ⟨unitPart, decls, htimes⟩, hunwinds, by simp⟩

/-! ### The step at the keyword -/

variable {kw : Keyword}

theorem keyword?_of_beginsPart (hkw : s.cursor.keyword? = some kw) (hpart : kw.beginsPart = true) :
    s.keyword? = some kw := by
  rw [State.keyword?, hkw]
  rcases Keyword.beginsPart_cases hpart with rfl | rfl | rfl <;> rfl

theorem statementStep_of_beginsPart (hkw : s.cursor.keyword? = some kw)
    (hpart : kw.beginsPart = true) : s.statementStep = s.closeToModule := by
  unfold statementStep
  rw [hkw]
  rcases Keyword.beginsPart_cases hpart with rfl | rfl | rfl <;> rfl

theorem containerStep_of_beginsPart (hkw : s.cursor.keyword? = some kw)
    (hpart : kw.beginsPart = true) (kind : EntryKind) (visibility : Visibility)
    (decls : DeclPart) : s.containerStep kind visibility decls = s.closeToModule := by
  have hword := keyword?_of_beginsPart hkw hpart
  unfold containerStep visibility? memberStep
  rw [hword]
  rcases Keyword.beginsPart_cases hpart with rfl | rfl | rfl <;> rfl

theorem routineStep_of_beginsPart (hkw : s.cursor.keyword? = some kw)
    (hpart : kw.beginsPart = true) (decls : DeclPart) : s.routineStep decls = s.closeToModule := by
  unfold routineStep
  rw [keyword?_of_beginsPart hkw hpart]
  rcases Keyword.beginsPart_cases hpart with rfl | rfl | rfl <;> rfl

/-- Inside of the module, except in assembler code, the keyword closes
    everything. -/
theorem step_eq_closeToModule (hkw : s.cursor.keyword? = some kw) (hpart : kw.beginsPart = true)
    {top : Block} {rest : List Block} (hblocks : s.blocks = top :: rest)
    (hform : top.form ≠ .module) (hasm : top.form ≠ .asm) (hassembler : top.form ≠ .assembler) :
    s.step = s.closeToModule := by
  unfold step
  rw [hblocks]
  match top with
  | .statements true => exact absurd rfl hassembler
  | .statements false => exact statementStep_of_beginsPart hkw hpart
  | .entry id (.module unitPart decls) => exact absurd rfl hform
  | .entry id (.container kind visibility decls) =>
    exact containerStep_of_beginsPart hkw hpart kind visibility decls
  | .entry id (.routine .declarations decls) => exact routineStep_of_beginsPart hkw hpart decls
  | .entry id (.routine .body decls) => exact statementStep_of_beginsPart hkw hpart
  | .entry id (.routine .asm decls) => exact absurd rfl hasm
  | .entry id .statements => exact statementStep_of_beginsPart hkw hpart

end Closing

/-! ### The step of the module -/

/-- From `t` to `u` the implementation part was begun. -/
structure BeginsImplementation (t u : State) : Prop where
  /-- The keyword was passed. -/
  cursor : u.cursor = t.cursor.next
  /-- The module is in its implementation part, before any declaration. -/
  blocks : u.blocks = [.entry 0 (.module .implementation .none)]
  /-- At most documentation of entries changed. -/
  entries : t.draft.builder.SameUndocumented u.draft.builder

/-- From `t` to `u` a section of the module was opened. -/
structure OpensSection (t u : State) : Prop where
  /-- The keyword was passed. -/
  cursor : u.cursor = t.cursor.next
  /-- The section is the innermost block. -/
  blocks : u.blocks = .entry t.nextId .statements :: t.blocks
  /-- Its entry is a section named by the keyword, and the root holds it. -/
  entry : ∃ e, u.draft.builder.entry? t.nextId = some e ∧ e.kind = .section_ ∧
    e.name = lowered t.cursor.text ∧ e.parent = some 0
  /-- It is the last child of the root. -/
  child : u.draft.builder.lastChild? 0 = some t.nextId
  /-- At most documentation of other entries changed. -/
  others : ∀ id, id ≠ 0 → id ≠ t.nextId →
    (u.draft.builder.entry? id).map Entry.undocumented
      = (t.draft.builder.entry? id).map Entry.undocumented

section Module

variable {t : State} {unitPart : UnitPart} {decls : DeclPart}

theorem beginsImplementation_step (hkw : t.cursor.keyword? = some .implementation)
    (hblocks : t.blocks = [.entry 0 (.module unitPart decls)]) : t.BeginsImplementation t.step := by
  have hstep : t.step = t.nextTransparent.setScope (.module .implementation .none) := by
    unfold step
    rw [hblocks]
    dsimp only
    unfold moduleStep
    rw [keyword?_of_beginsPart hkw rfl]
  have hopen : t.nextTransparent.blocks = [.entry 0 (.module unitPart decls)] := hblocks
  have hset : t.step = { t.nextTransparent with
      blocks := [.entry 0 (.module .implementation .none)] } := by
    rw [hstep, setScope, hopen]
  rw [hset]
  exact ⟨rfl, rfl, Builder.Documents.sameUndocumented
    ((t.draft.documents_sync t.cursor).trans (Draft.documents_skipTransparent _ _))⟩

/-- A new entry stands in the innermost open one; comments among its tokens
    may document it. -/
theorem pushItem_entries (s : State) (e : Entry) {top : EntryId}
    (htop : s.draft.builder.top? = some top) (hlt : top < s.nextId) :
    (∃ found, (s.pushItem e).draft.builder.entry? s.nextId = some found ∧
        found.undocumented = Entry.undocumented { e with
          id := s.nextId, file := s.draft.builder.file, parent := some top, children := #[] }) ∧
      (s.pushItem e).draft.builder.lastChild? top = some s.nextId ∧
      ∀ i, i ≠ top → i ≠ s.nextId →
        ((s.pushItem e).draft.builder.entry? i).map Entry.undocumented
          = (s.draft.builder.entry? i).map Entry.undocumented := by
  have hpush : (s.draft.builder.push e).Documents (s.pushItem e).draft.builder :=
    Draft.documents_itemDone (s.build (·.push e)).draft s.cursor [s.nextId]
  have hsame (i : EntryId) := Builder.Documents.sameUndocumented hpush i
  have hinsert (i : EntryId) : Builder.entry? (s.draft.builder.push e) i
      = Builder.entry? (s.draft.builder.insert e) i := rfl
  have hid : s.draft.builder.nextId = s.nextId := rfl
  simp only [hinsert, Builder.entry?_insert, htop, hid] at hsame
  refine ⟨?_, ?_, ?_⟩
  · have hnew := hsame s.nextId
    rw [if_pos rfl] at hnew
    exact Option.map_eq_some_iff.mp hnew
  · have hlinks := hpush.sameFrame.links top
    rw [Builder.lastChild?_eq_links?, hlinks]
    show ((s.draft.builder.insert e).links? top).bind _ = _
    obtain ⟨l, hl⟩ := Builder.exists_links? (show top < s.draft.builder.entries.size from hlt)
    rw [Builder.links?_insert, hid, if_neg (Nat.ne_of_lt hlt), if_pos htop, hl]
    exact Array.back?_push
  · intro i hne hnew
    have hother := hsame i
    rwa [if_neg hnew, if_neg (fun h => hne (Option.some.inj h).symm)] at hother

theorem opensSection_openSection (hs : t.Agrees)
    (hblocks : t.blocks = [.entry 0 (.module unitPart decls)]) : t.OpensSection t.openSection := by
  have hleading := t.draft.documents_takeLeading t.cursor
  have hframe : t.draft.builder.SameFrame t.takeLeading.2.draft.builder := hleading.sameFrame
  have hnext : t.takeLeading.2.nextId = t.nextId := hframe.size
  have htop : t.takeLeading.2.draft.builder.top? = some 0 := by
    rw [Builder.top?, hframe.stack, ← hs.stack, hblocks]
    rfl
  obtain ⟨e, hkind, hname, heq⟩ : ∃ e : Entry, e.kind = .section_ ∧
      e.name = lowered t.cursor.text ∧
      t.openSection = (t.takeLeading.2.moveTo t.cursor.next).openItem e .statements :=
    ⟨_, rfl, rfl, rfl⟩
  obtain ⟨⟨found, hfound, hsame⟩, hchild, hothers⟩ :=
    pushItem_entries (t.takeLeading.2.moveTo t.cursor.next) e htop (by
      show 0 < t.takeLeading.2.nextId
      rw [hnext]
      exact hs.arena.size_pos)
  have hid : (t.takeLeading.2.moveTo t.cursor.next).nextId = t.nextId := hnext
  rw [hid] at hfound hchild hothers
  rw [heq]
  refine ⟨rfl, ?_, ?_, hchild, ?_⟩
  · show .entry t.takeLeading.2.nextId .statements :: t.blocks = _
    rw [hnext]
  · exact ⟨found, hfound, (congrArg Entry.kind hsame).trans hkind,
      (congrArg Entry.name hsame).trans hname, congrArg Entry.parent hsame⟩
  · intro i hroot hne
    exact (hothers i hroot hne).trans (Builder.Documents.sameUndocumented hleading i)

end Module

/-! ### Every reachable state -/

/-- At a word that begins a part of the module, outside of assembler code, the
    run returns to the module without passing a token. Then it passes the word
    and is in that part. -/
theorem resumes_at_part {options : Options} {file : String} {lexemes : List Lexeme} {s : State}
    (reachable : Reachable options file lexemes s) {kw : Keyword}
    (keyword : s.cursor.keyword? = some kw)
    (part : kw = .implementation ∨ kw = .initialization ∨ kw = .finalization)
    (inner : ∀ block, s.blocks.head? = some block → block.form ≠ .asm ∧ block.form ≠ .assembler) :
    ∃ t, Reachable options file lexemes t ∧ (t = s ∨ t = s.step) ∧ s.ReturnsToModule t ∧
      s.run = t.run ∧ (s.stopped = false → t.run = t.step.run) ∧
      (kw = .implementation → t.BeginsImplementation t.step) ∧
      (kw ≠ .implementation → t.OpensSection t.step) := by
  have hpart : kw.beginsPart = true := by
    rcases part with rfl | rfl | rfl <;> rfl
  have htokens : s.cursor.atEnd = false := by
    rw [Cursor.atEnd, List.isEmpty_eq_false_iff]
    exact Cursor.ahead_of_keyword? keyword
  -- The state with the module only, as far as the run is concerned.
  obtain ⟨t, ht, hstep, hreturns, hrun⟩ : ∃ t, Reachable options file lexemes t ∧
      (t = s ∨ t = s.step) ∧ s.ReturnsToModule t ∧ s.run = t.run := by
    obtain ⟨above, unitPart, decls, hblocks, habove⟩ :=
      reachable.agrees.exists_blocks_eq reachable.stacked
    cases above with
    | nil => exact ⟨s, reachable, .inl rfl, returnsToModule_self reachable.agrees hblocks, rfl⟩
    | cons top others =>
      have hrunning : s.stopped = false := by
        rw [← Bool.not_eq_true]
        intro hstopped
        obtain ⟨bottom, hbottom, hmodule⟩ := reachable.blocks_of_stopped hstopped
        have hlength := congrArg List.length (hblocks.symm.trans hbottom)
        simp at hlength
      have hcontinues : ¬ s.Finished := s.not_finished_iff.mpr ⟨htokens, hrunning⟩
      have hhead : s.blocks.head? = some top := by
        rw [hblocks]
        rfl
      have hclose : s.step = s.closeToModule :=
        step_eq_closeToModule keyword hpart hblocks (habove top List.mem_cons_self)
          (inner top hhead).1 (inner top hhead).2
      refine ⟨s.step, reachable.step hcontinues, .inr rfl, ?_, run_eq_run_step htokens hrunning⟩
      rw [hclose]
      exact returnsToModule_closeToModule reachable.agrees reachable.stacked
  obtain ⟨unitPart, decls, hmodule⟩ := hreturns.module
  have hkw : t.cursor.keyword? = some kw := by
    rw [hreturns.cursor]
    exact keyword
  refine ⟨t, ht, hstep, hreturns, hrun, ?_, ?_, ?_⟩
  · intro hrunning
    exact run_eq_run_step (hreturns.cursor ▸ htokens) (hreturns.stopped.trans hrunning)
  · rintro rfl
    exact beginsImplementation_step hkw hmodule
  · intro hne
    have hsection : t.step = t.openSection := by
      unfold step
      rw [hmodule]
      dsimp only
      unfold moduleStep
      rw [keyword?_of_beginsPart hkw hpart]
      rcases part with rfl | rfl | rfl
      · exact absurd rfl hne
      · rfl
      · rfl
    rw [hsection]
    exact opensSection_openSection ht.agrees hmodule

/-- A class without its `end`, before the implementation part. -/
theorem resumes_at_part_of_open_class :
    let s := step^[3] (root {} "a.pas" (Lexer.lex false "type T = class a: b; implementation"))
    s.blocks.map Block.form = [.container, .module] ∧
      s.cursor.keyword? = some .implementation ∧
      ∃ t, s.ReturnsToModule t ∧ s.run = t.run ∧ t.BeginsImplementation t.step := by
  intro s
  let first := root {} "a.pas" (Lexer.lex false "type T = class a: b; implementation")
  obtain ⟨hforms, hkeyword, hrunning⟩ : s.blocks.map Block.form = [.container, .module] ∧
      s.cursor.keyword? = some .implementation ∧
      ∀ m < 3, (step^[m] first).cursor.atEnd = false ∧ (step^[m] first).stopped = false := by
    decide +kernel
  have hcontinues : ∀ m < 3, ¬ (step^[m] first).Finished := by
    simpa only [not_finished_iff] using hrunning
  have hreachable := Reachable.root.iterate 3 hcontinues
  have hinner : ∀ block, s.blocks.head? = some block →
      block.form ≠ .asm ∧ block.form ≠ .assembler := by
    intro block hblock
    have hform : some block.form = some .container := by
      rw [← Option.map_some, ← hblock, ← List.head?_map, hforms]
      rfl
    rw [Option.some.inj hform]
    decide
  obtain ⟨t, _, _, hreturns, hrun, _, hbegins, _⟩ :=
    resumes_at_part hreachable hkeyword (.inl rfl) hinner
  exact ⟨hforms, hkeyword, t, hreturns, hrun, hbegins rfl⟩

end State

end PascalOutline
