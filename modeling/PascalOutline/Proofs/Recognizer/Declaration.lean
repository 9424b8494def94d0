import PascalOutline.Proofs.Draft
import PascalOutline.Proofs.Outline.Profile
import PascalOutline.Proofs.Outline.Spans
import PascalOutline.Recognizer.Declaration

/-! # What a declaration does

  Each form of declaration passes at least one token, builds entries out of
  the tokens that it passes, and opens at most one block. `State.Declares`
  says this, with the forms of the block that may be opened, and there is one
  lemma for each form of declaration.
-/

namespace PascalOutline

/-! ### Forms of blocks -/

/-- The forms of blocks that a step tells apart. -/
inductive Form where
  /-- The module. -/
  | module
  /-- A class-like type. -/
  | container
  /-- A routine before its body. -/
  | declarations
  /-- A routine inside of its statements. -/
  | body
  /-- A routine inside of its assembler code. -/
  | asm
  /-- An `initialization` or `finalization` section. -/
  | section_
  /-- A nameless block of statements. -/
  | statements
  /-- A nameless block of assembler code. -/
  | assembler
deriving DecidableEq, Repr

/-- The form of a block with a scope. -/
def Scope.form : Scope → Form
  | .module _ _ => .module
  | .container _ _ _ => .container
  | .routine .declarations _ => .declarations
  | .routine .body _ => .body
  | .routine .asm _ => .asm
  | .statements => .section_

/-- The form of a block. -/
def Block.form : Block → Form
  | .entry _ scope => scope.form
  | .statements asm => if asm then .assembler else .statements

/-- The number of parentheses that are open in a variant part. -/
def DeclPart.depth : DeclPart → Nat
  | .variant depth => depth
  | _ => 0

/-- The number of parentheses that are open in the variant part of a scope. -/
def Scope.depth : Scope → Nat
  | .module _ decls | .container _ _ decls | .routine _ decls => decls.depth
  | .statements => 0

/-- The number of parentheses that are open in the variant part of a block. -/
def Block.depth : Block → Nat
  | .entry _ scope => scope.depth
  | .statements _ => 0

theorem Scope.form_ne_module {scope : Scope}
    (h : ∀ unitPart decls, scope = .module unitPart decls → False) : scope.form ≠ .module := by
  intro hform
  match scope with
  | .module unitPart decls => exact h unitPart decls rfl
  | .container kind visibility decls => cases hform
  | .routine phase decls => cases phase <;> cases hform
  | .statements => cases hform

namespace Block

theorem isModule_iff (block : Block) : block.isModule = true ↔ block.form = .module := by
  match block with
  | .statements asm => cases asm <;> decide
  | .entry id (.module unitPart decls) => exact ⟨fun _ => rfl, fun _ => rfl⟩
  | .entry id (.container kind visibility decls) => exact ⟨nofun, nofun⟩
  | .entry id (.routine phase decls) => cases phase <;> exact ⟨nofun, nofun⟩
  | .entry id .statements => exact ⟨nofun, nofun⟩

theorem isContainer_iff (block : Block) : block.isContainer = true ↔ block.form = .container := by
  match block with
  | .statements asm => cases asm <;> decide
  | .entry id (.module unitPart decls) => exact ⟨nofun, nofun⟩
  | .entry id (.container kind visibility decls) => exact ⟨fun _ => rfl, fun _ => rfl⟩
  | .entry id (.routine phase decls) => cases phase <;> exact ⟨nofun, nofun⟩
  | .entry id .statements => exact ⟨nofun, nofun⟩

end Block

namespace State

/-! ### Changes that build nothing -/

/-- The cursor and the builder of a state. -/
def place (s : State) : Cursor × Builder :=
  (s.cursor, s.draft.builder)

/-- `t` has the blocks and the entries of `s`, up to the texts of entries. -/
structure Edits (s t : State) : Prop where
  /-- At most texts differ. -/
  frame : s.draft.SameFrame t.draft
  /-- The same blocks are open. -/
  blocks : t.blocks = s.blocks
  /-- One goes on if and only if the other does. -/
  stopped : t.stopped = s.stopped

namespace Edits

variable {s t : State}

theorem refl (s : State) : s.Edits s :=
  ⟨.refl _, rfl, rfl⟩

theorem moveTo (h : s.Edits t) (c : Cursor) : s.Edits (t.moveTo c) :=
  ⟨h.frame, h.blocks, h.stopped⟩

theorem takeLeading (h : s.Edits t) : s.Edits t.takeLeading.2 :=
  ⟨h.frame.trans (t.draft.sameFrame_takeLeading t.cursor), h.blocks, h.stopped⟩

theorem itemDone (h : s.Edits t) (ids : List EntryId) : s.Edits (t.itemDone ids) :=
  ⟨h.frame.trans (t.draft.sameFrame_itemDone t.cursor ids), h.blocks, h.stopped⟩

theorem checkName (h : s.Edits t) (name : String) (kind : EntryKind) (place : Location) :
    s.Edits (t.checkName name kind place) := by
  unfold State.checkName
  split
  · exact ⟨h.frame, h.blocks, h.stopped⟩
  · exact h

end Edits

@[simp] theorem cursor_takeLeading (s : State) : s.takeLeading.2.cursor = s.cursor := rfl

@[simp] theorem cursor_checkName (s : State) (name : String) (kind : EntryKind)
    (place : Location) : (s.checkName name kind place).cursor = s.cursor := by
  unfold checkName
  split <;> rfl

theorem cursor_setScope (s : State) (scope : Scope) : (s.setScope scope).cursor = s.cursor := by
  rw [State.setScope]
  split <;> rfl

theorem cursor_setDecls (s : State) (decls : DeclPart) : (s.setDecls decls).cursor = s.cursor := by
  rw [State.setDecls]
  split <;> simp only [cursor_setScope]

/-! ### Declarations -/

/-- Which blocks are open after a declaration: those that were, or one more of
    some forms, which is then also the innermost open entry. -/
inductive Opens (s t : State) (forms : List Form) : Prop where
  /-- No block was opened. -/
  | nothing (hblocks : t.blocks = s.blocks)
      (hstack : s.draft.builder.Arena → t.draft.builder.stack = s.draft.builder.stack)
  /-- A block was opened. -/
  | entry (id : EntryId) (scope : Scope) (hform : scope.form ∈ forms) (hdepth : scope.depth = 0)
      (hblocks : t.blocks = .entry id scope :: s.blocks)
      (hstack : s.draft.builder.Arena → t.draft.builder.stack = id :: s.draft.builder.stack)

/-- From `s` to `t` a declaration was read that begins at the cursor `c` and
    may open a block of some forms. -/
structure Declares (c : Cursor) (s t : State) (forms : List Form) : Prop where
  /-- The declaration is not empty. -/
  passes : c.Passes t.cursor
  /-- Entries were made from the tokens of the declaration. -/
  builds : Builds (c, s.draft.builder) t.place
  /-- At most one block was opened. -/
  opens : s.Opens t forms
  /-- The end was not reached. -/
  stopped : t.stopped = s.stopped

namespace Declares

variable {c : Cursor} {s t u : State} {forms : List Form}

theorem mono (h : Declares c s t forms) {more : List Form} (hforms : forms ⊆ more) :
    Declares c s t more := by
  refine ⟨h.passes, h.builds, ?_, h.stopped⟩
  cases h.opens with
  | nothing hblocks hstack => exact .nothing hblocks hstack
  | entry id scope hform hdepth hblocks hstack =>
    exact .entry id scope (hforms hform) hdepth hblocks hstack

/-- Tokens before a declaration. -/
theorem of_reaches {d : Cursor} (hcd : c.Reaches d) (h : Declares d s t forms) :
    Declares c s t forms :=
  ⟨hcd.trans_passes h.passes, .trans (.single (.move hcd)) h.builds, h.opens, h.stopped⟩

/-- Edits before a declaration. -/
theorem of_edits (hedits : s.Edits t) (h : Declares c t u forms) : Declares c s u forms := by
  have hframe : s.draft.builder.SameFrame t.draft.builder := hedits.frame
  constructor
  case passes => exact h.passes
  case builds => exact (Relation.ReflTransGen.single (.edit hframe)).trans h.builds
  case opens =>
    cases h.opens with
    | nothing hblocks hstack =>
      refine .nothing (hblocks.trans hedits.blocks) ?_
      intro harena
      rw [hstack (harena.of_sameFrame hframe), hframe.stack]
    | entry id scope hform hdepth hblocks hstack =>
      refine .entry id scope hform hdepth (by rw [hblocks, hedits.blocks]) ?_
      intro harena
      rw [hstack (harena.of_sameFrame hframe), hframe.stack]
  case stopped => rw [h.stopped, hedits.stopped]

/-- Edits after a declaration, in which the cursor may also move on. -/
theorem edits (h : Declares c s t forms) (hedits : t.Edits u)
    (hcursor : t.cursor.Reaches u.cursor) : Declares c s u forms := by
  have hframe : t.draft.builder.SameFrame u.draft.builder := hedits.frame
  constructor
  case passes => exact h.passes.trans_reaches hcursor
  case builds => exact (h.builds.tail (.edit hframe)).tail (.move hcursor)
  case opens =>
    cases h.opens with
    | nothing hblocks hstack =>
      refine .nothing (hedits.blocks.trans hblocks) ?_
      intro harena
      rw [hframe.stack, hstack harena]
    | entry id scope hform hdepth hblocks hstack =>
      refine .entry id scope hform hdepth (hedits.blocks.trans hblocks) ?_
      intro harena
      rw [hframe.stack, hstack harena]
  case stopped => rw [hedits.stopped, h.stopped]

end Declares

theorem declares_moveTo {c d : Cursor} (h : c.Passes d) (s : State) :
    Declares c s (s.moveTo d) [] :=
  ⟨h, .single (.move h.reaches), .nothing rfl fun _ => rfl, rfl⟩

theorem declares_next {s : State} (h : s.cursor.ahead ≠ []) : Declares s.cursor s s.next [] :=
  s.declares_moveTo (Cursor.passes_next h)

theorem declares_addItem {c : Cursor} {s : State} {e : Entry} (hcursor : c.Passes s.cursor)
    (hstart : e.start = c.location) (hstop : e.stop = s.cursor.prevStop) :
    Declares c s (s.addItem e) [] := by
  have hleaf : Declares c s (s.build (·.addLeaf e)) [] := by
    refine ⟨hcursor, .single (.leaf hcursor hstart hstop), .nothing rfl ?_, rfl⟩
    intro harena
    show (s.draft.builder.addLeaf e).stack = _
    rw [harena.addLeaf_eq]
    rfl
  exact hleaf.edits ((Edits.refl _).itemDone _) (.refl _)

theorem declares_openItem {c : Cursor} {s : State} {e : Entry} (hcursor : c.Passes s.cursor)
    (hstart : e.start = c.location) {scope : Scope} (hdepth : scope.depth = 0) :
    Declares c s (s.openItem e scope) [scope.form] := by
  have hpush : Declares c s ((s.build (·.push e)).openBlock (.entry s.nextId scope))
      [scope.form] :=
    ⟨hcursor, .single (.push hcursor hstart),
      .entry s.nextId scope (List.mem_singleton.mpr rfl) hdepth rfl fun _ => rfl, rfl⟩
  exact hpush.edits ⟨Draft.sameFrame_itemDone _ _ _, rfl, rfl⟩ (.refl _)

/-! ### Completing an open entry -/

theorem sameFrame_pushItem (s : State) (e : Entry) :
    (s.draft.builder.push e).SameFrame (s.pushItem e).draft.builder :=
  Draft.sameFrame_itemDone (s.build (·.push e)).draft s.cursor [s.nextId]

theorem builds_pushItem {c : Cursor} {s : State} {e : Entry} (hcursor : c.Passes s.cursor)
    (hstart : e.start = c.location) :
    Builds (c, s.draft.builder) (s.cursor, (s.pushItem e).draft.builder) :=
  .tail (.single (.push hcursor hstart)) (.edit (s.sameFrame_pushItem e))

/-- The innermost open entry ends with the last token that was passed; before
    that, texts of an entry change. -/
def complete (s : State) (id : EntryId) (f : Entry → Entry) : State :=
  (s.build fun b => (b.modify id f).pop s.cursor.prevStop).itemDone [id]

section Complete

variable {f : Entry → Entry} (hlinks : ∀ e, (f e).links = e.links)
variable (hends : ∀ e, (f e).ends = e.ends)
include hlinks hends

theorem builds_complete (s : State) (id : EntryId) : Builds s.place (s.complete id f).place := by
  have hmodify := s.draft.builder.sameFrame_modify id hlinks hends
  have hdone := Draft.sameFrame_itemDone
    (s.build fun b => (b.modify id f).pop s.cursor.prevStop).draft s.cursor [id]
  exact .tail (.tail (.single (.edit hmodify)) .pop) (.edit hdone)

theorem stack_complete {s : State} {id top : EntryId} {rest : List EntryId}
    (hstack : s.draft.builder.stack = top :: rest) (hrest : rest ≠ []) :
    (s.complete id f).draft.builder.stack = rest := by
  have hmodify := s.draft.builder.sameFrame_modify id hlinks hends
  have hdone := Draft.sameFrame_itemDone
    (s.build fun b => (b.modify id f).pop s.cursor.prevStop).draft s.cursor [id]
  rw [complete]
  refine hdone.stack.trans ?_
  exact Builder.stack_pop (hmodify.stack.trans hstack) hrest _

end Complete

/-! ### Sections, routines and properties -/

theorem declares_usesClause {s : State} (h : s.cursor.ahead ≠ []) (module : EntryId) :
    Declares s.cursor s (s.usesClause module) [] := by
  have hmove := s.declares_moveTo ((Cursor.passes_next h).trans_reaches
    (Cursor.reaches_advance _ (Clause.units s.cursor.next.ahead).length))
  refine hmove.edits ⟨?_, rfl, rfl⟩ (.refl _)
  exact Builder.sameFrame_modify _ _ (fun _ => rfl) (fun _ => rfl)

theorem declares_openSection {s : State} (h : s.cursor.ahead ≠ []) :
    Declares s.cursor s s.openSection [.section_] :=
  .of_edits ((Edits.refl s).takeLeading.moveTo _)
    (declares_openItem (Cursor.passes_next h) rfl rfl)

theorem declares_routineDecl {s : State} (h : s.cursor.ahead ≠ []) (member : Option Visibility) :
    Declares s.cursor s (s.routineDecl member) (if member.isSome then [] else [.declarations]) := by
  have hedits := (Edits.refl s).takeLeading
  unfold routineDecl
  simp only [cursor_takeLeading]
  cases hheader : Header.routine? s.cursor with
  | none =>
    -- Without a header the cursor goes on from where it stood.
    exact (Declares.of_edits hedits (declares_next h)).mono (List.nil_subset _)
  | some read =>
    obtain ⟨header, done⟩ := read
    have hcovers := Header.covers_routine? hheader
    have hchecked := (hedits.moveTo done).checkName header.name header.kind header.nameAt
    have hcursor : s.cursor.Passes
        ((s.takeLeading.2.moveTo done).checkName header.name header.kind header.nameAt).cursor := by
      rw [cursor_checkName]
      exact hcovers.passes
    dsimp only
    split
    · refine (Declares.of_edits hchecked (declares_addItem hcursor hcovers.start ?_)).mono
        (List.nil_subset _)
      rw [cursor_checkName]
      exact hcovers.stop
    · -- A member of a type is never left open.
      rename_i hopen
      have hmember : member.isSome = false := by
        cases member with
        | none => rfl
        | some visibility => exact absurd rfl hopen
      rw [hmember]
      exact .of_edits hchecked (declares_openItem hcursor hcovers.start rfl)

theorem declares_propertyDecl {s : State} (h : s.cursor.ahead ≠ []) (visibility : Visibility) :
    Declares s.cursor s (s.propertyDecl visibility) [] := by
  have hedits := (Edits.refl s).takeLeading
  unfold propertyDecl
  simp only [cursor_takeLeading]
  cases hheader : Header.property? s.cursor with
  | none => exact .of_edits hedits (declares_next (s := s.takeLeading.2) h)
  | some read =>
    obtain ⟨header, done⟩ := read
    have hcovers := Header.covers_property? hheader
    refine .of_edits ((hedits.moveTo done).checkName header.name header.kind header.nameAt)
      (declares_addItem ?_ hcovers.start ?_)
    · rw [cursor_checkName]
      exact hcovers.passes
    · rw [cursor_checkName]
      exact hcovers.stop

/-! ### Types -/

section Types

variable {first : Cursor} {s : State} {e : Entry}

theorem declares_forwardType (hfirst : first.Passes s.cursor) (hstart : e.start = first.location)
    (kind : EntryKind) : Declares first s (s.forwardType first e kind) [] := by
  refine .of_edits ((Edits.refl s).moveTo _) (declares_addItem ?_ hstart rfl)
  exact hfirst.trans_reaches ((Cursor.Reaches.refl _).next.passSymbol ";")

theorem declares_containerType (hfirst : first.Passes s.cursor) (hstart : e.start = first.location)
    (kind : EntryKind) : Declares first s (s.containerType first e kind) [.container] := by
  unfold containerType
  dsimp only
  have hheader : first.Passes ((s.cursor.next.advance _).advance _) :=
    hfirst.trans_reaches (((Cursor.Reaches.refl s.cursor).next.advance
      (Clause.modifiers s.cursor.next.ahead).length).advance
        (Clause.bases (s.cursor.next.advance
          (Clause.modifiers s.cursor.next.ahead).length).ahead).length)
  split
  · -- A type that ends with its header has no members.
    refine (Declares.of_edits ((Edits.refl s).moveTo _) (declares_addItem ?_ ?_ ?_)).mono
      (List.nil_subset _)
    · exact hheader.trans_reaches (Cursor.Reaches.refl _).next
    · exact hstart
    · rfl
  · refine .of_edits ((Edits.refl s).moveTo _) (declares_openItem ?_ ?_ rfl)
    · exact hheader
    · exact hstart

theorem declares_enumValue {value : Clause.EnumValue} (h : value.before.Passes value.after) :
    Declares value.before s (s.enumValue value) [] :=
  .of_edits ((((Edits.refl s).moveTo value.before).takeLeading).moveTo value.after)
    (declares_addItem h rfl rfl)

/-- The values of an enumeration become entries one after the other. -/
theorem foldl_enumValue {c d : Cursor} {values : List Clause.EnumValue}
    (h : ValuesBetween c values d) (s : State) :
    Builds (c, s.draft.builder) (d, (values.foldl enumValue s).draft.builder) ∧
      s.Opens (values.foldl enumValue s) [] ∧ (values.foldl enumValue s).stopped = s.stopped := by
  -- The cursor of the state is not followed: each value brings its own.
  induction h generalizing s with
  | nil rest => exact ⟨.single (.move rest), .nothing rfl fun _ => rfl, rfl⟩
  | @cons c d value others before value_passes after ih =>
    have hvalue := declares_enumValue (s := s) value_passes
    obtain ⟨hbuilds, hopens, hstopped⟩ := ih (s.enumValue value)
    refine ⟨?_, ?_, hstopped.trans hvalue.stopped⟩
    · exact (Relation.ReflTransGen.single (.move before)).trans (hvalue.builds.trans hbuilds)
    · cases hvalue.opens with
      | entry _ _ hform => cases hform
      | nothing hblocks hstack =>
        cases hopens with
        | entry _ _ hform => cases hform
        | nothing hblocks' hstack' =>
          refine .nothing (hblocks'.trans hblocks) ?_
          intro harena
          have harena' : (s.enumValue value).draft.builder.Arena :=
            Builder.Arena.of_builds (x := (value.before, s.draft.builder)) harena hvalue.builds
          exact (hstack' harena').trans (hstack harena)

/-- An entry that holds the values of an enumeration is open only until they
    were read. -/
theorem declares_values {closing done : Cursor} {values : List Clause.EnumValue}
    {f : Entry → Entry} (hfirst : first.Passes s.cursor) (hstart : e.start = first.location)
    (hvalues : ValuesBetween s.cursor values closing) (hdone : closing.Reaches done)
    (hlinks : ∀ e, (f e).links = e.links) (hends : ∀ e, (f e).ends = e.ends) :
    Declares first s (((values.foldl enumValue (s.pushItem e)).moveTo done).complete s.nextId f)
      [] := by
  have hpush := builds_pushItem hfirst hstart
  obtain ⟨hbuilds, hopens, hstopped⟩ := foldl_enumValue hvalues (s.pushItem e)
  constructor
  case passes => exact hfirst.trans_reaches (hvalues.reaches.trans hdone)
  case builds =>
    refine ((hpush.trans hbuilds).tail (.move hdone)).trans ?_
    exact builds_complete hlinks hends ((values.foldl enumValue (s.pushItem e)).moveTo done) _
  case opens =>
    cases hopens with
    | entry _ _ hform => cases hform
    | nothing hblocks hstack =>
      refine .nothing hblocks ?_
      intro harena
      -- No block was opened for the entry of the enumeration: the builder alone
      -- opened it, and what is closed is this entry.
      have harena' := Builder.Arena.of_builds (x := (first, s.draft.builder)) harena hpush
      have hopen := (hstack harena').trans (s.sameFrame_pushItem e).stack
      exact stack_complete (s := (values.foldl enumValue (s.pushItem e)).moveTo done)
        hlinks hends hopen harena.stack_ne_nil
  case stopped => exact hstopped

theorem declares_enumType (hfirst : first.Passes s.cursor) (hstart : e.start = first.location) :
    Declares first s (s.enumType first e) [] := by
  have hvalues := valuesBetween_enumValues s.cursor.next
  refine declares_values (e := { e with stop := s.cursor.location }) hfirst hstart
    (hvalues.of_reaches (Cursor.Reaches.refl s.cursor).next)
    (((Cursor.Reaches.refl _).passTypeExpr []).passSymbol ";") ?_ ?_
  · intro e
    rfl
  · intro e
    rfl

theorem declares_plainType (hfirst : first.Passes s.cursor) (hstart : e.start = first.location) :
    Declares first s (s.plainType first e) [] := by
  unfold plainType
  refine .of_edits ((Edits.refl s).moveTo _) (declares_addItem ?_ ?_ ?_)
  · exact hfirst.trans_reaches
      (((Cursor.Reaches.refl _).passTypeExpr []).passSymbol ";").directives
  · exact hstart
  · rfl

theorem declares_typeBody (hfirst : first.Passes s.cursor) (hstart : e.start = first.location) :
    Declares first s (s.typeBody first e) [.container] := by
  have hforward := fun kind =>
    (declares_forwardType hfirst hstart kind).mono (List.nil_subset [Form.container])
  have hplain := (declares_plainType hfirst hstart).mono (List.nil_subset [Form.container])
  have henum := (declares_enumType hfirst hstart).mono (List.nil_subset [Form.container])
  have hcontainer := declares_containerType hfirst hstart
  unfold typeBody
  dsimp only
  split
  · split
    · exact hforward .class_
    · split
      · exact hplain
      · exact hcontainer .class_
  · split
    · exact hforward .interface
    · exact hcontainer .interface
  · split
    · exact hforward .interface
    · exact hcontainer .interface
  · exact hcontainer .object
  · exact hcontainer .record
  · split
    · exact henum
    · exact hplain

end Types

theorem declares_typeDecl {s : State} (h : s.cursor.ahead ≠ []) (member : Option Visibility) :
    Declares s.cursor s (s.typeDecl member) [.container] := by
  have hedits := (Edits.refl s).takeLeading
  have hcursor := s.cursor_takeLeading
  unfold typeDecl
  -- What a reader returns matters only by the cursor that it leaves, so each
  -- one is replaced by its result as soon as it is known to reach it.
  generalize s.takeLeading = taken at hedits hcursor ⊢
  obtain ⟨doc, t⟩ := taken
  dsimp only at hedits hcursor ⊢
  rw [← hcursor] at h ⊢
  have hgeneric := (Cursor.Reaches.refl t.cursor).passWord "generic"
  generalize t.cursor.passWord "generic" = atName at hgeneric ⊢
  by_cases hname : atName.atName = true
  · rw [if_pos hname]
    have hafter : t.cursor.Passes atName.next :=
      hgeneric.trans_passes (Cursor.passes_next (Cursor.ahead_of_atName hname))
    have hgenerics := fun n => (Cursor.Reaches.refl atName.next).advance n
    generalize (if atName.next.atSymbol "<" = true then Extent.generics atName.next.ahead
      else ⟨0, false⟩) = generics
    split
    · -- The body is read from behind the equals sign.
      refine .of_edits (hedits.moveTo _) (declares_typeBody ?_ ?_)
      · exact hafter.trans_reaches ((((hgenerics _).nextIf _).passKeyword .type_).advance _)
      · rfl
    · -- Without an equals sign the phrase is passed over.
      refine (Declares.of_edits hedits (declares_moveTo ?_ _)).mono (List.nil_subset _)
      exact hafter.trans_reaches (((hgenerics _).passTypeExpr []).passSymbol ";")
  · rw [if_neg hname]
    refine (Declares.of_edits hedits (declares_moveTo ?_ _)).mono (List.nil_subset _)
    exact hgeneric.passes_next h

/-! ### Values -/

/-- The entries of names that are declared together: each one ends with its
    name, and the last one with the declaration. -/
def nameEntries (names : List Token) (done : Cursor) (entryOf : Token → Location → Entry) :
    List Entry :=
  (names.dropLast.map fun t => entryOf t t.stop)
    ++ names.getLast?.toList.map fun t => entryOf t done.prevStop

/-- Whether a name and the place where it ends are made an entry of a kind. -/
structure NamesEntry (kind : EntryKind) (entryOf : Token → Location → Entry) : Prop where
  /-- The kind of every entry. -/
  kind : ∀ t stop, (entryOf t stop).kind = kind
  /-- An entry is named by its token. -/
  name : ∀ t stop, (entryOf t stop).name = t.text
  /-- It begins with its token. -/
  start : ∀ t stop, (entryOf t stop).start = t.start
  /-- It ends where it is told to. -/
  stop : ∀ t stop, (entryOf t stop).stop = stop

theorem mem_nameEntries {names : List Token} {done : Cursor}
    {entryOf : Token → Location → Entry} {e : Entry} (h : e ∈ nameEntries names done entryOf) :
    ∃ u stop, e = entryOf u stop := by
  rcases List.mem_append.mp h with h | h
  · obtain ⟨u, _, rfl⟩ := List.mem_map.mp h
    exact ⟨u, _, rfl⟩
  · obtain ⟨u, _, rfl⟩ := List.mem_map.mp h
    exact ⟨u, _, rfl⟩

/-- All names get the same documentation. -/
theorem NamesEntry.withDoc {kind : EntryKind} {entryOf : Token → Location → Entry}
    (h : NamesEntry kind entryOf) (doc : String) :
    NamesEntry kind fun u stop => { entryOf u stop with doc } :=
  ⟨h.kind, h.name, h.start, h.stop⟩

/-- The entries of names stand for the names in their order. -/
theorem NamesEntry.map_nameEntries {kind : EntryKind} {entryOf : Token → Location → Entry}
    (h : NamesEntry kind entryOf) (names : List Token) (done : Cursor) :
    (nameEntries names done entryOf).map (fun e => (e.name, e.start))
      = names.map fun u => (u.text, u.start) := by
  have hpair (u : Token) (stop : Location) :
      ((entryOf u stop).name, (entryOf u stop).start) = (u.text, u.start) :=
    Prod.ext (h.name u stop) (h.start u stop)
  rw [nameEntries, List.map_append, List.map_map, List.map_map]
  simp only [Function.comp_def, hpair, ← List.map_append]
  rcases List.eq_nil_or_concat names with rfl | ⟨init, last, rfl⟩
  · rfl
  · simp

/-- Without a name a single token is passed. -/
theorem valueDecl_of_no_name {s t : State} {doc : String} {n : Nat}
    (htaken : s.takeLeading = (doc, t)) (hread : Clause.declaredNames t.cursor.ahead = ([], n))
    (kind : EntryKind) (member : Option Visibility) (classField : Bool) :
    s.valueDecl kind member classField = t.next := by
  unfold valueDecl
  rw [htaken]
  dsimp only
  rw [hread]
  rfl

/-- What a declaration of values makes depends on its tokens, except for the
    documentation. -/
theorem exists_valueDecl (c : Cursor) (kind : EntryKind) (member : Option Visibility)
    (classField : Bool) {names : List Token} {n : Nat}
    (hread : Clause.declaredNames c.ahead = (names, n)) (hne : names ≠ []) :
    ∃ done entryOf, (c.advance n).Reaches done ∧ NamesEntry kind entryOf ∧
      (∀ u stop, (entryOf u stop).profile = ⟨kind, member, none, false, [], none⟩) ∧
      ∀ (s t : State) (doc : String), s.takeLeading = (doc, t) → t.cursor = c →
        s.valueDecl kind member classField
          = ((t.build (((nameEntries names done entryOf).map fun e => { e with doc }).foldl
              Builder.addLeaf)).moveTo done).itemDone (List.range' t.nextId names.length) := by
  have htyped := (Cursor.Reaches.refl (c.advance n)).typeExprAfter [":"] ["="]
  generalize htype : (c.advance n).typeExprAfter [":"] ["="] = typed at htyped
  have hvalued := htyped.typeExprAfter ["=", ":="] []
  generalize hvalue : typed.2.typeExprAfter ["=", ":="] [] = valued at hvalued
  have hended : (c.advance n).Reaches
      (if valued.2.atSymbol ";" then valued.2 else valued.2.passTypeExpr []) := by
    split
    · exact hvalued
    · exact hvalued.passTypeExpr []
  generalize hend : (if valued.2.atSymbol ";" then valued.2 else valued.2.passTypeExpr [])
    = terminator at hended
  have hdone : (c.advance n).Reaches
      (if kind = .var then (terminator.passSymbol ";").directives
        else ([], terminator.passSymbol ";")).2 := by
    split
    · exact (hended.passSymbol ";").directives
    · exact hended.passSymbol ";"
  generalize hdirect : (if kind = .var then (terminator.passSymbol ";").directives
    else ([], terminator.passSymbol ";")) = directed at hdone
  refine ⟨directed.2, fun u stop =>
    { kind, name := u.text, typeText := typed.1, initializer := valued.1
      signature := c.textUpTo terminator
      specifiers := (if classField then ["class"] else []) ++ directed.1
      visibility := member
      start := u.start
      stop }, hdone, ?_, fun _ _ => rfl, ?_⟩
  · constructor
    case kind | name | start | stop => exact fun _ _ => rfl
  · intro s t doc htaken hcursor
    have hempty : ¬ names.isEmpty = true := by
      rw [List.isEmpty_iff]
      exact hne
    unfold valueDecl
    rw [htaken]
    dsimp only
    rw [hcursor, hread]
    dsimp only
    rw [if_neg hempty, htype, hvalue, hend, hdirect, nameEntries, List.map_append, List.map_map,
      List.map_map]
    rfl

theorem builds_names {c d done : Cursor} {names : List Token} (hnames : TokensBetween c names d)
    (hdone : d.Reaches done) (hne : names ≠ []) {kind : EntryKind}
    {entryOf : Token → Location → Entry} (hentry : NamesEntry kind entryOf) (b : Builder) :
    Builds (c, b) (done, (nameEntries names done entryOf).foldl Builder.addLeaf b) := by
  induction hnames generalizing b with
  | nil _ => exact absurd rfl hne
  | @cons c c' d t ts before here after ih =>
    have hahead : c'.ahead ≠ [] := Cursor.ahead_of_nth? here
    refine .trans (.single (.move before)) ?_
    cases ts with
    | nil =>
      cases after with
      | nil rest =>
        -- The last name takes the rest of the declaration.
        refine .single (.leaf ((Cursor.passes_next hahead).trans_reaches (rest.trans hdone)) ?_ ?_)
        · rw [hentry.start, Cursor.location_eq_of_peek? here]
          rfl
        · exact hentry.stop ..
    | cons u us =>
      -- A name before others is an entry of a single token.
      refine .trans (.single (.leaf (Cursor.passes_next hahead) ?_ ?_))
        (ih hdone (List.cons_ne_nil u us) _)
      · rw [hentry.start, Cursor.location_eq_of_peek? here]
      · rw [hentry.stop, Cursor.prevStop_next_of_peek? here]

theorem stack_foldl_addLeaf {b : Builder} (h : b.Arena) (entries : List Entry) :
    (entries.foldl Builder.addLeaf b).stack = b.stack := by
  induction entries generalizing b with
  | nil => rfl
  | cons e es ih =>
    refine (ih (h.addLeaf e)).trans ?_
    rw [h.addLeaf_eq]
    rfl

theorem declares_valueDecl {s : State} (h : s.cursor.ahead ≠ []) (kind : EntryKind)
    (member : Option Visibility) (classField : Bool) :
    Declares s.cursor s (s.valueDecl kind member classField) [] := by
  have hedits := (Edits.refl s).takeLeading
  have hcursor := s.cursor_takeLeading
  rcases htaken : s.takeLeading with ⟨doc, t⟩
  rw [htaken] at hedits hcursor
  dsimp only at hedits hcursor
  rw [← hcursor] at h ⊢
  refine .of_edits hedits ?_
  have hnames := tokensBetween_declaredNames t.cursor rfl
  rcases hread : Clause.declaredNames t.cursor.ahead with ⟨names, n⟩
  rw [hread] at hnames
  by_cases hne : names = []
  · rw [valueDecl_of_no_name htaken (hne ▸ hread)]
    exact declares_next h
  · obtain ⟨done, entryOf, hdone, hentry, _, heq⟩ :=
      exists_valueDecl t.cursor kind member classField hread hne
    have hentries : ((nameEntries names done entryOf).map fun e => { e with doc })
        = nameEntries names done fun u stop => { entryOf u stop with doc } := by
      rw [nameEntries, List.map_append, List.map_map, List.map_map]
      rfl
    rw [heq s t doc htaken rfl, hentries]
    have hbuild : Declares t.cursor t
        ((t.build ((nameEntries names done fun u stop => { entryOf u stop with doc }).foldl
          Builder.addLeaf)).moveTo done) [] := by
      refine ⟨(hnames.passes hne).trans_reaches hdone, ?_, .nothing rfl ?_, rfl⟩
      · exact builds_names hnames hdone hne (hentry.withDoc doc) _
      · intro harena
        exact stack_foldl_addLeaf harena _
    exact hbuild.edits ((Edits.refl _).itemDone _) (.refl _)

/-- A variant part is a declaration of at most the tag, after which names
    begin fields of the variants. -/
theorem declares_variantPart {s : State} (h : s.cursor.ahead ≠ []) (visibility : Visibility)
    (decls : DeclPart) : ∃ t decls', Declares s.cursor s t [] ∧
      s.variantPart visibility decls = t.setDecls decls' ∧ decls'.depth = decls.depth := by
  refine ⟨_, _, ?_, rfl, by cases decls <;> rfl⟩
  refine Declares.edits ?_ ((Edits.refl _).moveTo _) ((Cursor.Reaches.refl _).passKeyword .of_)
  split
  · -- The tag follows the word `case`, so its declaration is not empty.
    rename_i htag
    have hahead := Cursor.ahead_next_of_nthIsName (Bool.and_eq_true_iff.mp htag).1
    refine .of_reaches (Cursor.Reaches.refl s.cursor).next ?_
    refine .of_edits ((Edits.refl s).takeLeading.moveTo _) (declares_addItem ?_ ?_ ?_)
    · exact (Cursor.passes_advance hahead Nat.two_pos).trans_reaches
        ((Cursor.Reaches.refl _).passTypeExpr ["of"])
    · rfl
    · rfl
  · exact s.declares_moveTo ((Cursor.passes_next h).trans_reaches
      ((Cursor.Reaches.refl _).passTypeExpr ["of"]))

/-! ### What makes no entry -/

theorem edits_nextTransparent (s : State) : s.Edits s.nextTransparent :=
  ⟨(s.draft.sameFrame_sync s.cursor).trans (Draft.sameFrame_skipTransparent _ _), rfl, rfl⟩

theorem declares_nextTransparent {s : State} (h : s.cursor.ahead ≠ []) :
    Declares s.cursor s s.nextTransparent [] := by
  refine (declares_next h).edits ⟨?_, rfl, rfl⟩ (.refl _)
  exact s.edits_nextTransparent.frame

theorem declares_nextTransparent_nextTransparent {s : State} (h : s.cursor.ahead ≠ []) :
    Declares s.cursor s s.nextTransparent.nextTransparent [] :=
  (declares_nextTransparent h).edits (edits_nextTransparent _) (Cursor.Reaches.refl _).next

theorem declares_skipAttribute {s : State} (h : s.cursor.atSymbol "[" = true) :
    Declares s.cursor s s.skipAttribute [] := by
  refine (s.declares_moveTo (Cursor.passes_passGroup h "]")).edits ⟨?_, rfl, rfl⟩ (.refl _)
  exact (s.draft.sameFrame_sync s.cursor).trans (Draft.sameFrame_skipTransparent _ _)

theorem declares_skipStatement {s : State} (h : s.cursor.ahead ≠ []) :
    Declares s.cursor s s.skipStatement [] :=
  s.declares_moveTo ((Cursor.passes_next h).trans_reaches (Cursor.reaches_advance _ _))

end State

end PascalOutline
