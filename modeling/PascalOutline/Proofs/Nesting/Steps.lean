import PascalOutline.Proofs.Nesting.Reading

/-! # Steps over nested declarations

  One lemma for each step that the recognizer takes over a word or phrase of
  the grammar. `State.Stands` says where it is: which words lie ahead, which
  blocks are open, and what the outline is, its documentation and locations
  aside. What a declaration stands in is its `Host`; the three hosts differ in
  their scope, and take the same declarations of types.
-/

namespace PascalOutline

open Nesting

namespace State

/-- Some blocks are open, the outline is that of a builder when bare, nothing
    was reported, and the recognizer goes on. -/
structure Holds (s : State) (blocks : List Block) (b : Builder) : Prop where
  /-- The open blocks. -/
  blocks : s.blocks = blocks
  /-- The outline so far. -/
  outline : s.draft.builder.bare = b.bare
  /-- Nothing was reported. -/
  quiet : s.diagnostics = #[]
  /-- The final `end.` was not read. -/
  running : s.stopped = false

namespace Holds

variable {s : State} {blocks : List Block} {b : Builder}

theorem nextId (h : s.Holds blocks b) : s.nextId = b.nextId :=
  Builder.nextId_congr h.outline

theorem moveTo (h : s.Holds blocks b) (c : Cursor) : (s.moveTo c).Holds blocks b :=
  ⟨h.blocks, h.outline, h.quiet, h.running⟩

/-- Documentation may be added. -/
theorem documents (h : s.Holds blocks b) {d : Draft} (hd : s.draft.Documents d) :
    Holds { s with draft := d } blocks b :=
  ⟨h.blocks, (Builder.Documents.bare_eq hd).trans h.outline, h.quiet, h.running⟩

theorem nextTransparent (h : s.Holds blocks b) : s.nextTransparent.Holds blocks b :=
  (h.documents ((Draft.documents_sync _ _).trans (Draft.documents_skipTransparent _ _))).moveTo _

theorem takeLeading (h : s.Holds blocks b) : s.takeLeading.2.Holds blocks b :=
  h.documents (Draft.documents_takeLeading _ _)

theorem itemDone (h : s.Holds blocks b) (ids : List EntryId) : (s.itemDone ids).Holds blocks b :=
  h.documents (Draft.documents_itemDone _ _ _)

theorem build (h : s.Holds blocks b) {f : Builder → Builder} {b' : Builder}
    (hf : (f s.draft.builder).bare = b'.bare) : (s.build f).Holds blocks b' :=
  ⟨h.blocks, hf, h.quiet, h.running⟩

theorem checkName (h : s.Holds blocks b) (n : Ident) (kind : EntryKind) (place : Location) :
    (s.checkName n.text kind place).Holds blocks b := by
  rw [State.checkName, if_neg n.text_ne_empty]
  exact h

theorem addItem (h : s.Holds blocks b) (e : Entry) : (s.addItem e).Holds blocks (b.addLeaf e) :=
  (h.build (Builder.addLeaf_congr h.outline rfl)).itemDone _

theorem pushItem (h : s.Holds blocks b) (e : Entry) : (s.pushItem e).Holds blocks (b.push e) :=
  (h.build (Builder.push_congr h.outline rfl)).itemDone _

theorem openItem (h : s.Holds blocks b) (e : Entry) (scope : Scope) :
    (s.openItem e scope).Holds (.entry b.nextId scope :: blocks) (b.push e) := by
  have hpushed := h.pushItem e
  refine ⟨?_, hpushed.outline, hpushed.quiet, hpushed.running⟩
  rw [← h.nextId]
  exact congrArg _ h.blocks

theorem setScope {id : EntryId} {old : Scope} (h : s.Holds (.entry id old :: blocks) b)
    (scope : Scope) : (s.setScope scope).Holds (.entry id scope :: blocks) b := by
  rw [State.setScope, h.blocks]
  exact ⟨rfl, h.outline, h.quiet, h.running⟩

end Holds

/-- Some words lie ahead of such a state. -/
structure Stands (s : State) (ws : List Word) (blocks : List Block) (b : Builder) : Prop
    extends s.Holds blocks b where
  /-- The words ahead. -/
  faces : s.cursor.Faces ws

namespace Stands

variable {s : State} {w : Word} {ws : List Word} {blocks : List Block} {b : Builder}

/-- A reserved word is what it is. -/
theorem keyword?_keyword {kw : Keyword} (h : s.Stands (.keyword kw :: ws) blocks b)
    (hkw : kw.isContextual = false) : s.keyword? = some kw := by
  simp [State.keyword?, h.faces.keyword?, hkw]

theorem keyword?_name {n : Ident} (h : s.Stands (.name n :: ws) blocks b) : s.keyword? = none := by
  simp [State.keyword?, h.faces.keyword?]

theorem run_eq (h : s.Stands (w :: ws) blocks b) : s.run = s.step.run := by
  refine run_eq_run_step ?_ h.running
  rw [Cursor.atEnd, h.faces.eq]
  rfl

end Stands

end State

namespace Nesting

open State

/-! ### What declarations stand in -/

/-- What a declaration of the grammar may stand in. -/
inductive Host where
  /-- The source itself. -/
  | module
  /-- A procedure. -/
  | procedure
  /-- A record. -/
  | record
deriving DecidableEq

namespace Host

/-- The scope of a host, with what a name begins in it. -/
def scope : Host → DeclPart → Scope
  | module => .module .heading
  | procedure => .routine .declarations
  | record => .container .record .public_

/-- The visibility of what stands in a host. -/
def visibility : Host → Option Visibility
  | record => some .public_
  | _ => none

end Host

variable {s : State} {host : Host} {p : EntryId} {decls : DeclPart} {ws : List Word}
  {blocks : List Block} {b : Builder}

theorem holds_setDecls (h : s.Holds (.entry p (host.scope decls) :: blocks) b)
    (decls' : DeclPart) : (s.setDecls decls').Holds (.entry p (host.scope decls') :: blocks) b := by
  rw [State.setDecls, h.blocks]
  cases host <;> exact h.setScope _

/-- A word before declarations is passed. -/
theorem stands_beginPart {w : Word}
    (h : s.Stands (w :: ws) (.entry p (host.scope decls) :: blocks) b) (decls' : DeclPart) :
    (s.beginPart decls').Stands ws (.entry p (host.scope decls') :: blocks) b := by
  refine ⟨holds_setDecls h.nextTransparent decls', ?_⟩
  rw [State.beginPart, cursor_setDecls]
  exact h.faces.next

/-! ### Types -/

theorem step_type (h : s.Stands (.keyword .type_ :: ws) (.entry p (host.scope decls) :: blocks) b) :
    s.step.Stands ws (.entry p (host.scope .types) :: blocks) b := by
  have hstep : s.step = s.beginPart .types := by
    cases host <;>
      simp [State.step, h.blocks, Host.scope, State.moduleStep, State.routineStep,
        State.containerStep, State.visibility?, State.memberStep, h.keyword?_keyword rfl]
  rw [hstep]
  exact stands_beginPart h .types

theorem step_type_name {n : Ident}
    (h : s.Stands (.name n :: ws) (.entry p (host.scope .types) :: blocks) b) :
    s.step = s.typeDecl host.visibility := by
  cases host <;>
    simp [State.step, h.blocks, Host.scope, Host.visibility, State.moduleStep, State.routineStep,
      State.containerStep, State.visibility?, State.memberStep, h.keyword?_name, State.plainStep,
      State.plainMemberStep, State.nameStep, State.memberNameStep, h.faces.atSymbol, h.faces.atName]

/-- The name and the equals sign of a type are passed. -/
theorem exists_typeBody {n : TypeName} {w : Word} (hw : w = .keyword .record ∨ w = .mark .opening)
    (h : s.Stands (.name n.toIdent :: .mark .equals :: w :: ws) blocks b)
    (member : Option Visibility) :
    ∃ (t : State) (e : Entry), s.typeDecl member = t.typeBody s.cursor e ∧
      t.Stands (w :: ws) blocks b ∧
      e.label = { kind := .type_, name := n.text, visibility := member } := by
  have hname : s.cursor.passWord "generic" = s.cursor := by
    simp [Cursor.passWord, Cursor.nextIf, h.faces.atWord, n.notGeneric]
  have hequals := h.faces.next
  have hbody := hequals.next
  have hkeyword : s.cursor.next.next.passKeyword .type_ = s.cursor.next.next := by
    rcases hw with rfl | rfl <;> simp [Cursor.passKeyword, Cursor.nextIf, hbody.atKeyword]
  have hpacking : Clause.packing s.cursor.next.next.ahead = 0 := by
    rw [hbody.eq, List.map_cons, Clause.packing, List.takeWhile_cons_of_neg]
    · rfl
    · rcases hw with rfl | rfl <;> decide
  refine ⟨s.takeLeading.2.moveTo s.cursor.next.next,
    { kind := .type_, name := s.cursor.text, doc := s.takeLeading.1, start := s.cursor.location
      visibility := member }, ?_, ⟨h.takeLeading.moveTo _, hbody⟩, ?_⟩
  · simp [State.typeDecl, hname, h.faces.atName, hequals.atSymbol, Mark.text, Cursor.nextIf,
      Cursor.advance_zero, hkeyword, hpacking]
  · simp [Entry.label, h.faces.text, Word.text]

/-- A record is opened. -/
theorem exists_containerType {e : Entry} (h : s.Stands (.keyword .record :: ws) blocks b)
    (hws : Opens ws) (first : Cursor) :
    ∃ e', (s.typeBody first e).Stands ws
        (.entry b.nextId (Host.record.scope .fields) :: blocks) (b.push e') ∧
      e'.label = { e.label with kind := .record } := by
  have hnext := h.faces.next
  have hmodifiers : Clause.modifiers s.cursor.next.ahead = ⟨[], [], 0⟩ := by
    rw [hnext.eq, hws.modifiers]
  have hbases : Clause.bases s.cursor.next.ahead = ⟨[], 0⟩ := by
    obtain ⟨kw, _, rest, rfl⟩ := hws
    rw [hnext.eq]
    rfl
  have hopen : s.cursor.next.atSymbol ";" = false := by
    obtain ⟨kw, _, rest, rfl⟩ := hws
    rw [hnext.atSymbol]
    rfl
  have hbody : s.typeBody first e = s.containerType first e .record := by
    simp [State.typeBody, h.faces.keyword?]
  have hcontainer := (h.moveTo s.cursor.next).openItem
    { e with
      kind := .record, specifiers := [], bases := []
      signature := first.textUpTo s.cursor.next, stop := s.cursor.next.prevStop }
    (Host.record.scope .fields)
  rw [hbody]
  simp only [State.containerType, hmodifiers, Cursor.advance_zero, hbases, hopen]
  exact ⟨_, ⟨hcontainer, hnext⟩, rfl⟩

theorem exists_enumValue (h : s.Holds blocks b) (value : Clause.EnumValue) :
    ∃ e, (s.enumValue value).Holds blocks (b.addLeaf e) ∧ e.label = valueLabel value.name :=
  ⟨_, ((h.moveTo value.before).takeLeading.moveTo value.after).addItem _, rfl⟩

/-- The values of an enumeration become leaves. -/
theorem exists_foldl_enumValue (hp : b.OpenAt p) (h : s.Holds blocks b)
    (values : List Clause.EnumValue) :
    ∃ b', (values.foldl State.enumValue s).Holds blocks b' ∧
      Builder.Plants p b (values.map fun value => .node (valueLabel value.name) []) b' := by
  induction values generalizing s b with
  | nil => exact ⟨b, h, .nil rfl⟩
  | cons value values ih =>
    obtain ⟨e, hvalue, hlabel⟩ := exists_enumValue h value
    have hleaf := Builder.Plants.leaf hp e
    obtain ⟨b', hholds, hplants⟩ := ih (hleaf.openAt hp) hvalue
    rw [hlabel] at hleaf
    exact ⟨b', hholds, hleaf.append hp hplants⟩

/-- An enumeration is read as a whole. -/
theorem exists_enumType {first : Ident} {others : List Ident} (hp : b.OpenAt p)
    (h : s.Stands (enclosed first others ++ .mark .semicolon :: ws) blocks b) (start : Cursor)
    (e : Entry) :
    ∃ b', (s.typeBody start e).Stands ws blocks b' ∧
      Builder.Plants p b
        [.node { e.label with typeText := Word.spelling (enclosed first others) }
          (leaves valueLabel first others)] b' := by
  have hopening : s.cursor.Faces
      (.mark .opening :: (listed first others ++ .mark .closing :: .mark .semicolon :: ws)) := by
    simpa [enclosed] using h.faces
  obtain ⟨hnames, hclosing⟩ := enumValues_listed hopening.next
  have htext : s.cursor.textUpTo (Clause.enumValues s.cursor.next).2
      = Word.spelling (enclosed first others) := h.faces.textUpTo hclosing
  have hterminator := hclosing.passTypeExpr_semicolon []
  have hdone := hclosing.passSymbol ";" rfl
  have hbody : s.typeBody start e = s.enumType start e := by
    simp [State.typeBody, hopening.keyword?, hopening.atSymbol, Mark.text]
  -- The values go under the entry of the type, which is closed after them.
  have hpushed := h.pushItem { e with stop := s.cursor.location }
  obtain ⟨b', hholds, hplants⟩ := exists_foldl_enumValue (Builder.openAt_push hp _) hpushed
    (Clause.enumValues s.cursor.next).1
  have hvalues : ((Clause.enumValues s.cursor.next).1.map
      fun value => Tree.node (valueLabel value.name) []) = leaves valueLabel first others := by
    have hmap := congrArg (List.map fun name => Tree.node (valueLabel name) []) hnames
    simpa [leaves, Function.comp_def] using hmap
  rw [hvalues] at hplants
  have hplanted := hplants.node hp
    (f := fun e : Entry => { e with
      typeText := s.cursor.textUpTo (Clause.enumValues s.cursor.next).2
      signature := start.textUpTo (Clause.enumValues s.cursor.next).2 })
    (g := fun label => { label with typeText := Word.spelling (enclosed first others) })
    (fun e => ⟨by rw [Entry.label, htext]; rfl, rfl⟩)
    ((Clause.enumValues s.cursor.next).2.passSymbol ";").prevStop
  refine ⟨_, ?_, hplanted⟩
  rw [hbody]
  simp only [State.enumType, hterminator]
  refine ⟨Holds.itemDone (Holds.build (hholds.moveTo _) ?_) _, hdone⟩
  rw [h.nextId]
  refine Builder.pop_congr (Builder.modify_congr ?_ hholds.outline _) _ _
  intro e
  rfl

/-! ### Fields -/

theorem step_var
    (h : s.Stands (.keyword .var :: ws) (.entry p (Host.record.scope decls) :: blocks) b) :
    s.step.Stands ws (.entry p (Host.record.scope .fields) :: blocks) b := by
  have hstep : s.step = s.beginPart .fields := by
    simp [State.step, h.blocks, Host.scope, State.containerStep, State.visibility?,
      State.memberStep, h.keyword?_keyword rfl]
  rw [hstep]
  exact stands_beginPart h .fields

theorem step_field_name {n : Ident}
    (h : s.Stands (.name n :: ws) (.entry p (Host.record.scope .fields) :: blocks) b) :
    s.step = s.valueDecl .field (some .public_) false := by
  simp [State.step, h.blocks, Host.scope, State.containerStep, State.visibility?, State.memberStep,
    h.keyword?_name, State.plainMemberStep, State.memberNameStep, h.faces.atSymbol, h.faces.atName]

/-- Only the last one of the names that are declared together covers what
    follows them, which its label does not show. -/
theorem map_label_names {f g : Token → Entry} (label : Token → Label)
    (hf : ∀ t, (f t).label = label t) (hg : ∀ t, (g t).label = label t) (names : List Token) :
    (names.dropLast.map f ++ names.getLast?.toList.map g).map Entry.label = names.map label := by
  rcases List.eq_nil_or_concat names with rfl | ⟨init, t, rfl⟩
  · rfl
  · simp [hf, hg]

/-- Fields that share a type become leaves. -/
theorem exists_valueDecl {first type : Ident} {others : List Ident} (hp : b.OpenAt p)
    (h : s.Stands
      (listed first others ++ [.mark .colon, .name type, .mark .semicolon] ++ ws) blocks b) :
    ∃ b', (s.valueDecl .field (some .public_) false).Stands ws blocks b' ∧
      Builder.Plants p b (leaves (fieldLabel type) first others) b' := by
  have hlist : s.cursor.Faces (listed first others
      ++ .mark .colon :: .name type :: .mark .semicolon :: ws) := by
    simpa using h.faces
  have hnames : Clause.declaredNames s.cursor.ahead
      = ((first :: others).map fun n => (Word.name n).token, (listed first others).length) := by
    rw [hlist.eq, declaredNames_listed]
  have hcolon := hlist.advance rfl
  have htype := hcolon.typeExprAfter_colon
  have hsemicolon := hcolon.next.next
  have hvalue := hsemicolon.typeExprAfter_of_ne ["=", ":="] [] (by decide)
  have hdone := hsemicolon.passSymbol ";" rfl
  have hterminated : (s.cursor.advance (listed first others).length).next.next.atSymbol ";"
      = true := hsemicolon.atSymbol ";"
  simp only [State.valueDecl, State.cursor_takeLeading, hnames, htype, hvalue, hterminated,
    if_true]
  refine ⟨_, ⟨Holds.itemDone (Holds.moveTo (Holds.build h.takeLeading
    (Builder.foldl_addLeaf_congr h.takeLeading.outline rfl)) _) _, hdone⟩, ?_⟩
  refine Builder.Plants.leaves hp ?_
  rw [map_label_names (fun t => fieldLabel type t.text) (fun _ => rfl) (fun _ => rfl),
    List.map_map]
  rfl

/-! ### Procedures -/

/-- The header of a procedure is read, and the procedure is open. -/
theorem exists_step_procedure {n : Ident} (hhost : host.visibility = none)
    (h : s.Stands (.keyword .procedure :: .name n :: .mark .semicolon :: ws)
      (.entry p (host.scope decls) :: blocks) b) (hws : Opens ws) :
    ∃ e, s.step.Stands ws (.entry b.nextId (Host.procedure.scope .none)
        :: .entry p (host.scope decls) :: blocks) (b.push e) ∧
      e.label = { kind := .procedure, name := n.text } := by
  have hstep : s.step = s.routineDecl none := by
    cases host with
    | record => cases hhost
    | _ =>
      simp [State.step, h.blocks, Host.scope, State.moduleStep, State.routineStep,
        h.keyword?_keyword rfl, Keyword.isRoutine]
  obtain ⟨header, done, hread, hdone, hkind, hname, htype, hspecifiers⟩ :=
    exists_routine? h.faces hws
  have hforward : (s.takeLeading.2.inInterface || header.isForward) = false := by
    have hinside : s.takeLeading.2.inInterface = false := by
      rw [State.inInterface, h.takeLeading.blocks]
      cases host <;> rfl
    rw [hinside, Header.isForward, hspecifiers]
    rfl
  have hopened := ((h.takeLeading.moveTo done).checkName n header.kind header.nameAt).openItem
    { header.toEntry with doc := s.takeLeading.1, forward := false, visibility := none }
    (Host.procedure.scope .none)
  rw [hstep]
  simp only [State.routineDecl, State.cursor_takeLeading, hread, Option.isSome_none, Bool.false_or,
    hforward, hname]
  refine ⟨_, ⟨hopened, ?_⟩, ?_⟩
  · show Cursor.Faces (State.checkName _ _ _ _).cursor ws
    rw [cursor_checkName]
    exact hdone
  · rw [← hname, ← hkind]
    simp [Entry.label, Header.toEntry, htype]

/-- The body of a procedure begins. -/
theorem step_begin
    (h : s.Stands (.keyword .begin :: ws) (.entry p (Host.procedure.scope decls) :: blocks) b) :
    s.step.Stands ws (.entry p (.routine .body decls) :: blocks) b := by
  have hstep : s.step = s.next.setScope (.routine .body decls) := by
    simp [State.step, h.blocks, Host.scope, State.routineStep, h.keyword?_keyword rfl]
  rw [hstep]
  refine ⟨(h.moveTo s.cursor.next).setScope _, ?_⟩
  rw [cursor_setScope]
  exact h.faces.next

/-! ### Ends -/

/-- An entry without hints after its `end` is closed at the semicolon. -/
theorem exists_closeEntry {scope : Scope}
    (h : s.Stands (.mark .semicolon :: ws) (.entry p scope :: blocks) b) :
    ∃ f stop, (s.closeEntry p scope).Stands ws blocks ((b.modify p f).pop stop) ∧
      ∀ e, (f e).label = e.label ∧ (f e).children = e.children := by
  have hdone : (s.cursor.passSymbol ";").Faces ws := h.faces.passSymbol ";" rfl
  have hhints : s.cursor.directives = ([], s.cursor) := by
    rw [Cursor.directives, h.faces.eq, List.map_cons, Extent.directives]
    rfl
  have hclosed : s.closeEntry p scope
      = ((({ s with blocks := s.blocks.tail } : State).moveTo (s.cursor.passSymbol ";")).build
          fun b => (b.modify p fun e => { e with specifiers := e.specifiers ++ [] }).pop
            (s.cursor.passSymbol ";").prevStop).itemDone [p] := by
    cases scope <;> simp only [State.closeEntry, hhints]
  have hpopped : Holds { s with blocks := s.blocks.tail } blocks b :=
    ⟨by rw [h.blocks]; rfl, h.outline, h.quiet, h.running⟩
  rw [hclosed]
  refine ⟨fun e => { e with specifiers := e.specifiers ++ [] }, (s.cursor.passSymbol ";").prevStop,
    ⟨Holds.itemDone (Holds.build (hpopped.moveTo _) ?_) _, hdone⟩, fun e => ⟨rfl, rfl⟩⟩
  refine Builder.pop_congr (Builder.modify_congr ?_ h.outline _) _ _
  intro e
  rfl

/-- The `end` of a record or of the body of a procedure closes it. -/
theorem exists_step_end {scope : Scope}
    (hscope : scope = .routine .body decls ∨ scope = Host.record.scope decls)
    (h : s.Stands (.keyword .end_ :: .mark .semicolon :: ws) (.entry p scope :: blocks) b) :
    ∃ f stop, s.step.Stands ws blocks ((b.modify p f).pop stop) ∧
      ∀ e, (f e).label = e.label ∧ (f e).children = e.children := by
  have hdot : s.cursor.nthIsSymbol 1 "." = false := h.faces.nthIsSymbol_one "."
  have hstep : s.step = s.closeBlock := by
    rcases hscope with rfl | rfl <;>
      simp [State.step, h.blocks, Host.scope, State.statementStep, State.containerStep,
        State.visibility?, State.memberStep, h.faces.keyword?, h.keyword?_keyword rfl]
  have hclosed : s.closeBlock
      = ({ s with draft := s.draft.sync s.cursor } : State).next.closeEntry p scope := by
    rcases hscope with rfl | rfl <;>
      simp only [State.closeBlock, hdot, h.blocks, Host.scope, Bool.false_eq_true, if_false]
  have hsynced := (h.documents (Draft.documents_sync s.draft s.cursor)).moveTo s.cursor.next
  rw [hstep, hclosed]
  exact exists_closeEntry ⟨hsynced, h.faces.next⟩

end Nesting

end PascalOutline
