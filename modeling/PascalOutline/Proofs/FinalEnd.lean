import PascalOutline.Proofs.Documentation
import PascalOutline.Proofs.Documentation.Claims
import PascalOutline.Proofs.Outline.Operations
import PascalOutline.Proofs.Recognizer.Final
import PascalOutline.Proofs.Recognizer.ForkStep
import PascalOutline.Scan

/-! # What stands behind the final end

  Two sources that are the same up to the final `end.` have the same outline,
  whatever comes after it, but for the end of the root and for its
  documentation. Both runs come to this `end` in the same state, since no step
  before it looked past it. The rest of the lexemes is examined all the same;
  but the `end` is code and no item ends behind it, so a comment can only wait,
  and without a limit for gaps it waits to the end of the source and then
  documents the root.
-/

namespace PascalOutline

/-- Two outlines are the same but for the end and the documentation of the
    root. -/
structure Outline.SameUpToRootEnd (o o' : Outline) : Prop where
  /-- They are of the same file. -/
  file : o'.file = o.file
  /-- They have the same number of entries. -/
  size : o'.size = o.size
  /-- Every entry but the root is the same, with its documentation. -/
  others : ∀ id, id ≠ 0 → o'.get? id = o.get? id
  /-- The root is the same in every other field. -/
  root : ∃ stop doc, o'.root = { o.root with stop, doc }

theorem Outline.get?_zero (o : Outline) : o.get? 0 = some o.root :=
  Array.getElem?_eq_getElem o.nonempty

/-! ### The root -/

namespace Builder

/-- From `b` to `b'` at most the documentation of the root was changed. -/
def DocumentsRoot (b b' : Builder) : Prop :=
  ∃ g : Entry → Entry, (∀ e, ∃ doc, g e = { e with doc }) ∧ b' = b.modify 0 g

theorem DocumentsRoot.refl (b : Builder) : b.DocumentsRoot b :=
  ⟨fun e => e, fun e => ⟨e.doc, rfl⟩, (b.modify_id 0).symm⟩

theorem documentsRoot_addDoc (b : Builder) (text : String) : b.DocumentsRoot (b.addDoc 0 text) := by
  refine ⟨fun e => e.addDoc text, fun e => ?_, rfl⟩
  by_cases htext : text = ""
  · exact ⟨e.doc, if_pos htext⟩
  · by_cases hdoc : e.doc = ""
    · exact ⟨text, (if_neg htext).trans (if_pos hdoc)⟩
    · exact ⟨e.doc ++ "\n\n" ++ text, (if_neg htext).trans (if_neg hdoc)⟩

section Finish

variable {b : Builder} (hroot : b.hasRoot = true) (hstack : b.stack = [0])
include hroot hstack

/-- If the root alone is open, the end of the source closes no other entry. -/
theorem popTimes_modify (g : Entry → Entry) (eof : Location) :
    (b.modify 0 g).hasRoot = true ∧
      (b.modify 0 g).popTimes eof (b.modify 0 g).unclosed = b.modify 0 g := by
  constructor
  · rw [← hroot]
    simp [hasRoot, Array.isEmpty, modify]
  · rw [unclosed, show (b.modify 0 g).stack = [0] from hstack]
    rfl

theorem get?_finish_modify (g : Entry → Entry) (eof : Location) (id : EntryId) :
    ((b.modify 0 g).finish eof).get? id
      = if id = 0 then
          (b.entry? 0).map fun e => { g e with start := .start, stop := max eof .start }
        else b.entry? id := by
  obtain ⟨hmodified, hclosed⟩ := popTimes_modify hroot hstack g eof
  rw [get?_finish hmodified, hclosed, entry?_modify]
  split
  next hzero =>
    rw [hzero, Option.map_map]
    rfl
  next => rfl

theorem size_finish_modify (g : Entry → Entry) (eof : Location) :
    ((b.modify 0 g).finish eof).size = b.entries.size := by
  obtain ⟨hmodified, hclosed⟩ := popTimes_modify hroot hstack g eof
  unfold finish Outline.size
  dsimp only
  rw [withRoot, if_pos hmodified, hclosed, Array.size_modify, modify, Array.size_modify]

theorem DocumentsRoot.sameUpToRootEnd {b₁ b₂ : Builder} (h₁ : b.DocumentsRoot b₁)
    (h₂ : b.DocumentsRoot b₂) (eof₁ eof₂ : Location) :
    (b₁.finish eof₁).SameUpToRootEnd (b₂.finish eof₂) := by
  obtain ⟨g₁, hg₁, rfl⟩ := h₁
  obtain ⟨g₂, hg₂, rfl⟩ := h₂
  constructor
  case file => rw [file_finish, file_finish]; rfl
  case size => rw [size_finish_modify hroot hstack, size_finish_modify hroot hstack]
  case others =>
    intro id hne
    rw [get?_finish_modify hroot hstack, get?_finish_modify hroot hstack, if_neg hne, if_neg hne]
  case root =>
    have hfirst := (Outline.get?_zero _).symm.trans (get?_finish_modify hroot hstack g₁ eof₁ 0)
    have hsecond := (Outline.get?_zero _).symm.trans (get?_finish_modify hroot hstack g₂ eof₂ 0)
    rw [if_pos rfl] at hfirst hsecond
    cases he : b.entry? 0 with
    | none =>
      rw [he] at hfirst
      cases hfirst
    | some e =>
      obtain ⟨doc₁, hdoc₁⟩ := hg₁ e
      obtain ⟨doc₂, hdoc₂⟩ := hg₂ e
      rw [he, Option.map_some, hdoc₁] at hfirst
      rw [he, Option.map_some, hdoc₂] at hsecond
      refine ⟨max eof₂ .start, doc₂, ?_⟩
      rw [Option.some.inj hfirst, Option.some.inj hsecond]

end Finish

end Builder

/-! ### Comments behind the last item -/

namespace Draft

/-- A draft in which a comment can do nothing but wait: no item is in front of
    it, and what waits waits for any distance. -/
structure Idle (d : Draft) : Prop where
  /-- No item ended in front of it. -/
  lastItem : d.lastItem = none
  /-- There is no limit for gaps. -/
  unlimited : d.options.docGap = none

variable {d : Draft}

/-- A comment waits, or is dropped. -/
theorem Idle.takeUp (h : d.Idle) (doc : DocComment) :
    (d.takeUp doc).Idle ∧ (d.takeUp doc).builder = d.builder := by
  have hnear : ∀ line line', d.exceedsGap line line' = false := by
    intro line line'
    rw [exceedsGap, h.unlimited]
    rfl
  have hhold : (d.hold doc).builder = d.builder := by
    unfold Draft.hold
    split
    · rfl
    · rw [hnear, if_neg Bool.false_ne_true]
  constructor
  · exact ⟨(d.lastItem_takeUp doc).trans h.lastItem,
      (congrArg Options.docGap (d.options_takeUp doc)).trans h.unlimited⟩
  · unfold Draft.takeUp
    rw [h.lastItem]
    dsimp only
    split
    · rfl
    · exact hhold

/-- Behind code that is examined nothing but waiting is left to comments. -/
theorem idle_examine_of_code (hunlimited : d.options.docGap = none) {l : Lexeme}
    (hcode : l.isTrivia = false) :
    (d.examine l).Idle ∧ (d.examine l).builder = d.builder := by
  have hoptions : d.dropPending.options = d.options := by
    unfold Draft.dropPending
    split <;> rfl
  rw [Draft.examine, hcode, if_neg Bool.false_ne_true]
  refine ⟨⟨rfl, ?_⟩, d.builder_dropPending⟩
  show d.dropPending.options.docGap = none
  rw [hoptions, hunlimited]

theorem Idle.examine (h : d.Idle) (l : Lexeme) :
    (d.examine l).Idle ∧ (d.examine l).builder = d.builder := by
  cases htrivia : l.isTrivia with
  | false => exact idle_examine_of_code h.unlimited htrivia
  | true =>
    rw [Draft.examine, htrivia, if_pos rfl]
    cases DocComment.ofLexeme? d.options l with
    | none => exact ⟨h, rfl⟩
    | some doc => exact h.takeUp doc

theorem Idle.builder_foldl_examine (h : d.Idle) (ls : List Lexeme) :
    (ls.foldl Draft.examine d).builder = d.builder := by
  induction ls generalizing d with
  | nil => rfl
  | cons l ls ih =>
    obtain ⟨hidle, hbuilder⟩ := h.examine l
    exact (ih hidle).trans hbuilder

/-- Code in front of all that is left to examine keeps it from every entry. -/
theorem builder_examineTo_of_code (hunlimited : d.options.docGap = none)
    (hcode : ∀ l, d.unexamined.head? = some l → l.isTrivia = false) (place : Nat) :
    (d.examineTo Draft.examine place).builder = d.builder := by
  unfold Draft.examineTo
  dsimp only
  cases hqueue : d.unexamined.take (place - d.examined) with
  | nil => rfl
  | cons l ls =>
    have hhead : d.unexamined.head? = some l := by
      rw [← List.take_append_drop (place - d.examined) d.unexamined, hqueue]
      rfl
    -- The first lexeme is code, and behind it no entry changes.
    obtain ⟨hidle, hbuilder⟩ := idle_examine_of_code (d := { d with
      unexamined := d.unexamined.drop (place - d.examined)
      examined := d.examined + (l :: ls).length }) hunlimited (hcode l hhead)
    exact (hidle.builder_foldl_examine ls).trans hbuilder

/-- When everything before the cursor is examined, code comes next. -/
theorem BookedAt.code_of_head_sync {options : Options} {lexemes : List Lexeme}
    {before : Register} {c : Cursor} (h : d.BookedAt options lexemes before c) {l : Lexeme}
    (hl : (d.sync c).unexamined.head? = some l) : l.isTrivia = false := by
  have hexamined : (d.sync c).examined = c.lexemeIndex := by
    have hbehind := h.behind
    have hle := h.numbered.lexemeIndex_le
    rw [examined_sync h.booked.queue]
    omega
  rw [h.sync.booked.queue, hexamined, List.head?_drop] at hl
  rcases h.reaches.code_lexemeIndex with hle | ⟨code, hcode, htrivia⟩
  · rw [List.getElem?_eq_none hle] at hl
    cases hl
  · rw [hcode] at hl
    rwa [← Option.some.inj hl]

/-- If only the root is open, the documentation that is left goes to the root. -/
theorem documentsRoot_finish (hunlimited : d.options.docGap = none)
    (hcode : ∀ l, d.unexamined.head? = some l → l.isTrivia = false) (hstack : d.builder.stack = [0])
    (c : Cursor) : d.builder.DocumentsRoot (d.finish c).builder := by
  have hlast := builder_examineTo_of_code hunlimited hcode c.lexemeCount
  unfold Draft.finish
  dsimp only
  generalize d.examineTo Draft.examine c.lexemeCount = last at hlast
  rw [← hlast] at hstack ⊢
  split
  next p _ =>
    have htop : last.builder.top? = some 0 := by
      rw [Builder.top?, hstack]
      rfl
    rw [htop]
    exact last.builder.documentsRoot_addDoc p.text
  next => exact .refl _

end Draft

/-! ### The final end of two sources -/

/-- The last tokens that the two sources share are the final `end.` of the
    first one. -/
def Fork.EndsModule (options : Options) (file : String) (f : Fork) : Prop :=
  ∃ s, State.Reachable options file f.leftLexemes s ∧ ¬ s.Finished ∧ s.AtFinalEnd ∧
    s.step = s.closeBlock ∧ s.cursor.pos + 2 = f.size

namespace State

theorem closeTimes_moveTo (s : State) (c : Cursor) (stop : Location) (n : Nat) :
    (s.moveTo c).closeTimes stop n = (s.closeTimes stop n).moveTo c := by
  have htop (s : State) : (s.moveTo c).closeTop stop = (s.closeTop stop).moveTo c := by
    obtain ⟨cursor, draft, blocks, diagnostics, stopped⟩ := s
    rcases blocks with _ | ⟨⟨id, scope⟩ | asm, rest⟩
    · rfl
    · cases scope <;> rfl
    · rfl
  induction n generalizing s with
  | zero => rfl
  | succ n ih => rw [closeTimes, htop, ih, closeTimes]

/-- To close blocks changes nothing in a draft but its builder. -/
theorem exists_draft_closeTimes (s : State) (stop : Location) (n : Nat) :
    ∃ b, (s.closeTimes stop n).draft = { s.draft with builder := b } := by
  induction n generalizing s with
  | zero => exact ⟨_, rfl⟩
  | succ n ih =>
    obtain ⟨b, hb⟩ := ih (s.closeTop stop)
    refine ⟨b, hb.trans ?_⟩
    unfold closeTop
    split <;> rfl

/-- To close everything is to close blocks where the `end` stands. -/
theorem draft_finalEnd (s : State) : s.finalEnd.draft
    = (closeTimes { s with draft := s.draft.sync s.cursor } (s.cursor.advance 2).prevStop
        (s.blocks.length - 1)).draft := by
  unfold finalEnd closeAll
  rw [closeTimes_moveTo]
  rfl

section FinalEnd

variable {options : Options} {file : String} {lexemes : List Lexeme} {f : Fork} {s t : State}

/-- The outline is the same when the final `end.` was passed. -/
theorem Shares.builder_finalEnd (h : Shares f s t) :
    t.finalEnd.draft.builder = s.finalEnd.draft.builder := by
  have hclosed := h.sync.closeTimes h.cursor.prevStop_advance_two (s.blocks.length - 1)
  have hcount : t.blocks.length - 1 = s.blocks.length - 1 := by rw [h.blocks]
  rw [draft_finalEnd, draft_finalEnd, hcount]
  exact hclosed.draft.builder

/-- Both runs pass the final `end.` in the same way. -/
theorem Shares.step_eq_finalEnd (h : Shares f s t) (hrunning : s.stopped = false)
    (hblocks : s.blocks ≠ []) (hend : s.AtFinalEnd) (hstep : s.step = s.closeBlock) :
    t.step = t.finalEnd := by
  obtain ⟨top, rest, hblocks⟩ := List.exists_cons_of_ne_nil hblocks
  -- A routine without a body would be closed first, and the run would go on.
  have hform : top.form ≠ .declarations := by
    intro hform
    rw [step_of_end hend.keyword hblocks, if_pos hform] at hstep
    have hstopped := congrArg State.stopped hstep
    rw [stopped_closeBodiless, hrunning, closeBlock_of_point hend.point] at hstopped
    cases hstopped
  rw [step_of_end (h.cursor.keyword?.trans hend.keyword) (h.blocks.trans hblocks), if_neg hform]
  refine closeBlock_of_point ?_
  rw [h.cursor.nthIsSymbol Nat.one_lt_two]
  exact hend.point

/-- What is examined behind the final `end.` documents nothing but the root. -/
theorem Reachable.documentsRoot_ofSource (h : Reachable options file lexemes s)
    (hcontinues : ¬ s.Finished) (hstep : s.step = s.finalEnd) (hgap : options.docGap = none) :
    s.finalEnd.draft.builder.stack = [0] ∧ s.finalEnd.draft.builder.hasRoot = true ∧
      s.finalEnd.draft.builder.DocumentsRoot (ofSource options file lexemes).draft.builder := by
  have hend : Reachable options file lexemes s.finalEnd := hstep ▸ h.step hcontinues
  have hstack := hend.stack_of_stopped rfl
  refine ⟨hstack, hend.agrees.arena.hasRoot, ?_⟩
  have hsource : ofSource options file lexemes = s.finalEnd.finish := by
    show (State.root options file lexemes).run.finish = _
    rw [hend.run_eq, run_of_finished (.inl rfl)]
  obtain ⟨events, hfinish⟩ := s.finalEnd.exists_draft_finish_eq
  rw [hsource, hfinish]
  obtain ⟨b, hdraft⟩ : ∃ b, s.finalEnd.draft = { s.draft.sync s.cursor with builder := b } := by
    rw [draft_finalEnd]
    exact exists_draft_closeTimes _ _ _
  have hsynced := h.bookedAt.sync
  refine Draft.documentsRoot_finish ?_ ?_ hstack s.finalEnd.cursor
  · rw [hdraft]
    exact (congrArg Options.docGap hsynced.booked.accounted.reads).trans hgap
  · intro l hl
    rw [hdraft] at hl
    exact h.bookedAt.code_of_head_sync hl

end FinalEnd

end State

/-- Nothing after the final `end.` changes the outline. If the lexemes of two
    sources begin alike and the last tokens of what they share are the final
    `end.` of the first source, then, without a limit for gaps, their outlines
    are the same but for the end and the documentation of the root. -/
theorem sameUpToRootEnd_scan {options : Options} {file source source' : String} {f : Fork}
    (hleft : Lexer.lex options.nestedComments source = f.leftLexemes)
    (hright : Lexer.lex options.nestedComments source' = f.rightLexemes)
    (hend : f.EndsModule options file) (hgap : options.docGap = none) :
    (scan options file source).outline.SameUpToRootEnd (scan options file source').outline := by
  obtain ⟨s, hs, hcontinues, hfinal, hclose, hplace⟩ := hend
  obtain ⟨t, ht, hshares⟩ := hs.exists_shares (Nat.le_of_eq hplace)
  have hcontinues' : ¬ t.Finished := hshares.finished_iff.not.mpr hcontinues
  have hstep : s.step = s.finalEnd := hclose.trans (State.closeBlock_of_point hfinal.point)
  have hstep' : t.step = t.finalEnd :=
    hshares.step_eq_finalEnd (s.not_finished_iff.mp hcontinues).2 hs.blocks_ne_nil hfinal hclose
  -- Both outlines come from one builder; only its root was documented since.
  obtain ⟨hstack, hroot, hdocs⟩ := hs.documentsRoot_ofSource hcontinues hstep hgap
  obtain ⟨_, _, hdocs'⟩ := ht.documentsRoot_ofSource hcontinues' hstep' hgap
  rw [hshares.builder_finalEnd] at hdocs'
  unfold scan
  dsimp only
  rw [hleft, hright]
  exact hdocs.sameUpToRootEnd hroot hstack hdocs' _ _

/-- A constant and a comment behind the final `end.`: the comment documents the
    root, and the constant is not read. -/
theorem sameUpToRootEnd_scan_of_constant :
    let source := "const c = 1; \x7by\x7d end."
    let source' := "const c = 1; \x7by\x7d end. const d = 2; \x7bx\x7d"
    let docs := fun source => (scan {} "a.pas" source).outline.entries.toList.map Entry.doc
    docs source = ["", "y"] ∧ docs source' = ["x", "y"] ∧
      (scan {} "a.pas" source).outline.SameUpToRootEnd (scan {} "a.pas" source').outline := by
  intro source source' docs
  let lexemes := Lexer.lex false source
  let lexemes' := Lexer.lex false source'
  let f : Fork := ⟨lexemes, [], lexemes'.drop lexemes.length⟩
  let first := State.root {} "a.pas" f.leftLexemes
  obtain ⟨hdocs, hright, hrunning, hfinal, hstep, hplace⟩ :
      (docs source = ["", "y"] ∧ docs source' = ["x", "y"]) ∧ lexemes' = f.rightLexemes ∧
      (∀ m < 3, (State.step^[m] first).cursor.atEnd = false ∧
        (State.step^[m] first).stopped = false) ∧
      ((State.step^[2] first).cursor.keyword? = some .end_ ∧
        (State.step^[2] first).cursor.nthIsSymbol 1 "." = true) ∧
      State.step^[3] first = (State.step^[2] first).closeBlock ∧
      (State.step^[2] first).cursor.pos + 2 = f.size := by
    decide +kernel
  have hcontinues : ∀ m < 3, ¬ (State.step^[m] first).Finished := by
    simpa only [State.not_finished_iff] using hrunning
  have hend : f.EndsModule {} "a.pas" :=
    ⟨State.step^[2] first, .iterate .root 2 fun m hm => hcontinues m (Nat.lt_succ_of_lt hm),
      hcontinues 2 (by decide), ⟨hfinal.1, hfinal.2⟩, hstep, hplace⟩
  exact ⟨hdocs.1, hdocs.2,
    sameUpToRootEnd_scan (f := f) (List.append_nil lexemes).symm hright hend rfl⟩

end PascalOutline
