import PascalOutline.Proofs.Documentation.Fork
import PascalOutline.Proofs.Recognizer.Run

/-! # The recognizer on two sources that begin alike

  The recognizer never looks more than two tokens past those that a step
  passes. So on the two sources of a fork it goes through the same states as
  long as two tokens of the stem are ahead: they have the same blocks, the same
  outline and the same problems (`State.Shares`). There is one lemma for each
  function of the recognizer; it says that the states after it share the stem,
  unless the function went past it (`State.Shadows`).
-/

namespace PascalOutline

namespace State

/-- Two states, of the two sources of a fork, are the same up to what comes
    behind the stem. -/
structure Shares (f : Fork) (s t : State) : Prop where
  /-- They stand at the same place in the stem. -/
  cursor : s.cursor.Shares f t.cursor
  /-- The same outline was drafted, from the same lexemes. -/
  draft : s.draft.Shares f t.draft
  /-- The same blocks are open. -/
  blocks : t.blocks = s.blocks
  /-- The same problems were found. -/
  diagnostics : t.diagnostics = s.diagnostics
  /-- One goes on if and only if the other does. -/
  stopped : t.stopped = s.stopped

/-- Two states share the stem of a fork until the first one is past it. -/
def Shadows (f : Fork) (s t : State) : Prop :=
  s.cursor.Before f.size → Shares f s t

variable {f : Fork} {s t : State} {c d : Cursor}

/-- Only a state that is not past the stem has to share it. -/
theorem Shadows.of_cursor (hc : s.cursor = c) (h : c.Before f.size → Shares f s t) :
    Shadows f s t :=
  fun hbefore => h (hc ▸ hbefore)

/-- Nothing is to show if the first state is past the stem because of what it
    passed on the way. -/
theorem Shadows.of_reaches (hc : c.Reaches s.cursor) (h : c.Before f.size → Shadows f s t) :
    Shadows f s t :=
  fun hbefore => h (hc.before hbefore) hbefore

/-- A function that does not move the cursor. -/
theorem Shadows.map {s' t' : State} (h : Shadows f s t) (hcursor : s'.cursor = s.cursor)
    (hshares : Shares f s t → Shares f s' t') : Shadows f s' t' :=
  .of_cursor hcursor fun hbefore => hshares (h hbefore)

theorem Shadows.ite {s' t' : State} {condition : Prop} [Decidable condition]
    (hpos : Shadows f s t) (hneg : Shadows f s' t') :
    Shadows f (if condition then s else s') (if condition then t else t') := by
  split
  · exact hpos
  · exact hneg

namespace Shares

theorem shadows (h : Shares f s t) : Shadows f s t :=
  fun _ => h

/-! ### Looking -/

theorem keyword? (h : Shares f s t) : t.keyword? = s.keyword? := by
  rw [State.keyword?, State.keyword?, h.cursor.keyword?]
  simp only [h.cursor.nthIsSymbolIn Nat.one_lt_two]

theorem classMemberFollows (h : Shares f s t) : t.classMemberFollows = s.classMemberFollows := by
  rw [State.classMemberFollows, State.classMemberFollows, h.cursor.nthKeyword? Nat.one_lt_two]

theorem inInterface (h : Shares f s t) : t.inInterface = s.inInterface := by
  rw [State.inInterface, State.inInterface, h.blocks]

theorem nextId (h : Shares f s t) : t.nextId = s.nextId := by
  rw [State.nextId, State.nextId, h.draft.builder]

/-! ### Changing parts -/

theorem moveTo (h : Shares f s t) (hcd : c.Shares f d) : Shares f (s.moveTo c) (t.moveTo d) :=
  ⟨hcd, h.draft, h.blocks, h.diagnostics, h.stopped⟩

theorem log (h : Shares f s t) {e e' : Event} (he : e' = e) : Shares f (s.log e) (t.log e') := by
  subst he
  exact ⟨h.cursor, h.draft.blind (.log _), h.blocks, h.diagnostics, h.stopped⟩

theorem setScope (h : Shares f s t) (scope : Scope) :
    Shares f (s.setScope scope) (t.setScope scope) := by
  rw [State.setScope, State.setScope, h.blocks]
  split
  · exact ⟨h.cursor, h.draft, rfl, h.diagnostics, h.stopped⟩
  · exact h

theorem setDecls (h : Shares f s t) (decls : DeclPart) :
    Shares f (s.setDecls decls) (t.setDecls decls) := by
  rw [State.setDecls, State.setDecls, h.blocks]
  split
  · exact h.setScope _
  · exact h.setScope _
  · exact h.setScope _
  · exact h

theorem openBlock (h : Shares f s t) {block block' : Block} (hblock : block' = block) :
    Shares f (s.openBlock block) (t.openBlock block') :=
  ⟨h.cursor, h.draft, congrArg₂ List.cons hblock h.blocks, h.diagnostics, h.stopped⟩

theorem build (h : Shares f s t) {g g' : Builder → Builder} (hg : g' = g) :
    Shares f (s.build g) (t.build g') := by
  subst hg
  exact ⟨h.cursor, h.draft.build g', h.blocks, h.diagnostics, h.stopped⟩

theorem checkName (h : Shares f s t) {name name' : String} (hname : name' = name)
    (kind : EntryKind) {place place' : Location} (hplace : place' = place) :
    Shares f (s.checkName name kind place) (t.checkName name' kind place') := by
  subst hname hplace
  unfold State.checkName State.missingName
  split
  · exact ⟨h.cursor, h.draft, h.blocks, by rw [h.diagnostics], h.stopped⟩
  · exact h

/-! ### Documentation and entries -/

/-- The same documentation is handed over. -/
theorem exists_takeLeading (h : Shares f s t) : ∃ doc s' t', s.takeLeading = (doc, s') ∧
    t.takeLeading = (doc, t') ∧ Shares f s' t' := by
  obtain ⟨hdoc, hdraft⟩ := h.draft.takeLeading h.cursor
  refine ⟨s.takeLeading.1, s.takeLeading.2, t.takeLeading.2, rfl, ?_, h.cursor, hdraft, h.blocks,
    h.diagnostics, h.stopped⟩
  exact Prod.ext hdoc rfl

theorem itemDone (h : Shares f s t) {ids ids' : List EntryId} (hids : ids' = ids) :
    Shares f (s.itemDone ids) (t.itemDone ids') := by
  subst hids
  exact ⟨h.cursor, h.draft.itemDone h.cursor _, h.blocks, h.diagnostics, h.stopped⟩

variable {e e' : Entry}

theorem addItem (h : Shares f s t) (he : e' = e) : Shares f (s.addItem e) (t.addItem e') :=
  (h.build (by rw [he])).itemDone (by rw [h.nextId])

theorem pushItem (h : Shares f s t) (he : e' = e) : Shares f (s.pushItem e) (t.pushItem e') :=
  (h.build (by rw [he])).itemDone (by rw [h.nextId])

theorem openItem (h : Shares f s t) (he : e' = e) (scope : Scope) :
    Shares f (s.openItem e scope) (t.openItem e' scope) :=
  (h.pushItem he).openBlock (by rw [h.nextId])

/-! ### Moving -/

theorem moves (h : Shares f s t) (hcd : c.Shadows f d) : Shadows f (s.moveTo c) (t.moveTo d) :=
  fun hbefore => h.moveTo (hcd hbefore)

theorem next (h : Shares f s t) : Shadows f s.next t.next :=
  h.moves h.cursor.shadows.next

/-- The tokens up to a cursor are passed without parting documentation from
    what follows. -/
theorem skipTo (h : Shares f s t) (hcd : c.Shadows f d) :
    Shadows f { s with cursor := c, draft := (s.draft.sync s.cursor).skipTransparent c }
      { t with cursor := d, draft := (t.draft.sync t.cursor).skipTransparent d } :=
  fun hbefore => ⟨hcd hbefore, (h.draft.sync h.cursor).skipTransparent (hcd hbefore), h.blocks,
    h.diagnostics, h.stopped⟩

theorem nextTransparent (h : Shares f s t) : Shadows f s.nextTransparent t.nextTransparent :=
  h.skipTo h.cursor.shadows.next

end Shares

namespace Shadows

theorem setScope (h : Shadows f s t) (scope : Scope) :
    Shadows f (s.setScope scope) (t.setScope scope) :=
  h.map (cursor_setScope s scope) fun hs => hs.setScope scope

theorem setDecls (h : Shadows f s t) (decls : DeclPart) :
    Shadows f (s.setDecls decls) (t.setDecls decls) :=
  h.map (cursor_setDecls s decls) fun hs => hs.setDecls decls

theorem openBlock (h : Shadows f s t) (block : Block) :
    Shadows f (s.openBlock block) (t.openBlock block) :=
  h.map rfl fun hs => hs.openBlock rfl

theorem nextTransparent (h : Shadows f s t) : Shadows f s.nextTransparent t.nextTransparent :=
  fun hbefore => (h ((Cursor.Reaches.refl s.cursor).next.before hbefore)).nextTransparent hbefore

end Shadows

open Cursor (Reaches reaches_advance)

namespace Shares

/-! ### Modules -/

theorem moduleHeader (h : Shares f s t) (kind : EntryKind) :
    Shadows f (s.moduleHeader kind) (t.moduleHeader kind) := by
  obtain ⟨doc, s', t', hs, ht, h⟩ := h.exists_takeLeading
  unfold State.moduleHeader
  rw [hs, ht]
  dsimp only
  have hatName := h.cursor.shadows.next
  have hatArgs := hatName.reads Extent.looksPast_qualifiedName
  have hafterArgs := hatArgs.passGroup "(" ")"
  have hterminator := hafterArgs.passHeaderRest
  have hdone := hterminator.passSymbol ";"
  -- Every place in the header comes before its end, hence is shared too.
  refine .of_cursor (State.cursor_checkName _ _ _ _) fun bdone => ?_
  have bterminator := ((Reaches.refl _).passSymbol ";").before bdone
  have bafterArgs := (Reaches.refl _).passHeaderRest.before bterminator
  have batArgs := ((Reaches.refl _).passGroup "(" ")").before bafterArgs
  have batName := (reaches_advance _ _).before batArgs
  have hname := (hatName batName).found Extent.looksPast_qualifiedName batArgs
  have hargs := (hatArgs batArgs).textUpTo (hafterArgs bafterArgs)
    ((Reaches.refl _).passGroup "(" ")")
  have hsignature := h.cursor.textUpTo (hterminator bterminator)
    (((Reaches.refl s'.cursor).next.advance _).passGroup "(" ")").passHeaderRest
  refine ((h.moveTo (hdone bdone)).checkName ?_ kind ?_).pushItem ?_
  · rw [hname]
  · exact (hatName batName).location
  · rw [hargs, hsignature, (hdone bdone).prevStop, h.cursor.location, hname]

theorem usesClause (h : Shares f s t) (module : EntryId) :
    Shadows f (s.usesClause module) (t.usesClause module) := by
  have hnext := h.cursor.shadows.next
  have hdone := hnext.reads Clause.looksPast_units
  unfold State.usesClause
  refine .of_cursor rfl fun bdone => ?_
  have bnext := (reaches_advance _ _).before bdone
  have hfound := (hnext bnext).found Clause.looksPast_units bdone
  exact (h.moveTo (hdone bdone)).build (by rw [hfound])

theorem openSection (h : Shares f s t) : Shadows f s.openSection t.openSection := by
  obtain ⟨doc, s', t', hs, ht, h⟩ := h.exists_takeLeading
  unfold State.openSection
  rw [hs, ht]
  dsimp only
  refine .of_cursor rfl fun bdone => ?_
  have hdone := h.cursor.shadows.next bdone
  refine (h.moveTo hdone).openItem ?_ .statements
  rw [h.cursor.text, h.cursor.textUpTo hdone (Reaches.refl s'.cursor).next, h.cursor.location,
    hdone.prevStop]

/-! ### Routines and properties -/

theorem routineDecl (h : Shares f s t) (member : Option Visibility) :
    Shadows f (s.routineDecl member) (t.routineDecl member) := by
  obtain ⟨doc, s', t', hs, ht, h⟩ := h.exists_takeLeading
  unfold State.routineDecl
  rw [hs, ht]
  dsimp only
  have hread := Header.sharedRead_routine? h.cursor
  generalize Header.routine? s'.cursor = read at hread ⊢
  generalize Header.routine? t'.cursor = read' at hread ⊢
  cases hread with
  | none => exact h.next
  | @some read read' hread =>
    obtain ⟨header, done⟩ := read
    obtain ⟨header', done'⟩ := read'
    dsimp only at hread ⊢
    -- A header in the interface part is complete; elsewhere a body may follow.
    refine .of_cursor (c := done) (by split <;> exact State.cursor_checkName _ _ _ _)
      fun bdone => ?_
    obtain ⟨rfl, hdone⟩ := hread bdone
    have hchecked := (h.moveTo hdone).checkName (Eq.refl header'.name) header'.kind
      (Eq.refl header'.nameAt)
    rw [h.inInterface]
    split
    · exact hchecked.addItem rfl
    · exact hchecked.openItem rfl _

theorem propertyDecl (h : Shares f s t) (visibility : Visibility) :
    Shadows f (s.propertyDecl visibility) (t.propertyDecl visibility) := by
  obtain ⟨doc, s', t', hs, ht, h⟩ := h.exists_takeLeading
  unfold State.propertyDecl
  rw [hs, ht]
  dsimp only
  have hread := Header.sharedRead_property? h.cursor
  generalize Header.property? s'.cursor = read at hread ⊢
  generalize Header.property? t'.cursor = read' at hread ⊢
  cases hread with
  | none => exact h.next
  | @some read read' hread =>
    obtain ⟨header, done⟩ := read
    obtain ⟨header', done'⟩ := read'
    dsimp only at hread ⊢
    refine .of_cursor (State.cursor_checkName _ _ _ _) fun bdone => ?_
    obtain ⟨rfl, hdone⟩ := hread bdone
    exact ((h.moveTo hdone).checkName rfl header'.kind rfl).addItem rfl

/-! ### Types -/

theorem enumValue (h : Shares f s t) {value value' : Clause.EnumValue}
    (hvalue : value.Shares f value') : Shares f (s.enumValue value) (t.enumValue value') := by
  obtain ⟨doc, s', t', hs, ht, h⟩ := (h.moveTo hvalue.before).exists_takeLeading
  unfold State.enumValue
  rw [hs, ht]
  dsimp only
  refine (h.moveTo hvalue.after).addItem ?_
  rw [hvalue.name, hvalue.signature, hvalue.initializer, hvalue.before.location,
    hvalue.after.prevStop]

theorem foldl_enumValue (h : Shares f s t) {values values' : List Clause.EnumValue}
    (hvalues : List.Forall₂ (Clause.EnumValue.Shares f) values values') :
    Shares f (values.foldl State.enumValue s) (values'.foldl State.enumValue t) := by
  induction hvalues generalizing s t with
  | nil => exact h
  | cons hvalue _ ih => exact ih (h.enumValue hvalue)

section Types

variable {first first' : Cursor} (hfirst : first.Shares f first')
  (hreaches : first.Reaches s.cursor) {e e' : Entry} (he : e' = e)
include hfirst hreaches he

theorem forwardType (h : Shares f s t) (kind : EntryKind) :
    Shadows f (s.forwardType first e kind) (t.forwardType first' e' kind) := by
  subst he
  have hterminator := h.cursor.shadows.next
  have hdone := hterminator.passSymbol ";"
  unfold State.forwardType
  refine .of_cursor rfl fun bdone => ?_
  have bterminator := ((Reaches.refl _).passSymbol ";").before bdone
  refine (h.moveTo (hdone bdone)).addItem ?_
  rw [hfirst.textUpTo (hterminator bterminator) hreaches.next, (hdone bdone).prevStop]

theorem containerType (h : Shares f s t) (kind : EntryKind) :
    Shadows f (s.containerType first e kind) (t.containerType first' e' kind) := by
  subst he
  have hnext := h.cursor.shadows.next
  have hreaches := hreaches.next
  unfold State.containerType
  dsimp only
  generalize s.cursor.next = c at hnext hreaches ⊢
  generalize t.cursor.next = d at hnext ⊢
  have hafter := hnext.reads Clause.looksPast_modifiers
  have hend := hafter.reads (Clause.looksPast_bases.mono (Nat.le_succ 1))
  -- The header ends before anything that may follow it.
  refine .of_reaches (c := (c.advance (Clause.modifiers c.ahead).length).advance
    (Clause.bases (c.advance (Clause.modifiers c.ahead).length).ahead).length) ?_ fun bend => ?_
  · split
    · exact (Reaches.refl _).next
    · exact .refl _
  have bafter := (reaches_advance _ _).before bend
  have bnext := (reaches_advance _ _).before bafter
  have hmodifiers := (hnext bnext).found Clause.looksPast_modifiers bafter
  have hbases := (hafter bafter).found (Clause.looksPast_bases.mono (Nat.le_succ 1)) bend
  have hsignature := hfirst.textUpTo (hend bend) ((hreaches.advance _).advance _)
  rw [(hend bend).atSymbol]
  split
  · refine .of_cursor rfl fun bdone => ?_
    refine (h.moveTo ((hend bend).shadows.next bdone)).addItem ?_
    rw [((hend bend).shadows.next bdone).prevStop, hsignature, hbases, hmodifiers]
  · refine ((h.moveTo (hend bend)).openItem ?_ _).shadows
    rw [(hend bend).prevStop, hsignature, hbases, hmodifiers]

theorem enumType (h : Shares f s t) : Shadows f (s.enumType first e) (t.enumType first' e') := by
  subst he
  unfold State.enumType
  -- From the end backwards: the semicolon, the closing parenthesis, the values.
  refine .of_cursor rfl fun bdone => ?_
  have bterminator := ((Reaches.refl _).passSymbol ";").before bdone
  have bclosing := ((Reaches.refl _).passTypeExpr []).before bterminator
  obtain ⟨hvalues, hclosing⟩ := Clause.shares_enumValues h.cursor.shadows.next bclosing
  have hterminator := hclosing.shadows.passTypeExpr [] bterminator
  have hdone := hterminator.shadows.passSymbol ";" bdone
  have hopened : s.cursor.Reaches (Clause.enumValues s.cursor.next).2 :=
    (Reaches.refl s.cursor).next.trans (valuesBetween_enumValues s.cursor.next).reaches
  have hpushed : Shares f (s.pushItem { e' with stop := s.cursor.location })
      (t.pushItem { e' with stop := t.cursor.location }) := h.pushItem (by rw [h.cursor.location])
  have hheld := (hpushed.foldl_enumValue hvalues).moveTo hdone
  refine (hheld.build ?_).itemDone ?_
  · rw [h.nextId, h.cursor.textUpTo hclosing hopened, hdone.prevStop,
      hfirst.textUpTo hterminator ((hreaches.trans hopened).passTypeExpr [])]
  · rw [h.nextId]

theorem plainType (h : Shares f s t) : Shadows f (s.plainType first e) (t.plainType first' e') := by
  subst he
  have hterminator := h.cursor.shadows.passTypeExpr []
  have hended := hterminator.passSymbol ";"
  unfold State.plainType
  refine .of_cursor rfl fun bdone => ?_
  have bended := (Reaches.refl _).directives.before bdone
  have bterminator := ((Reaches.refl _).passSymbol ";").before bended
  have hdone := hended.reads Extent.looksPast_directives bdone
  refine (h.moveTo hdone).addItem ?_
  rw [hfirst.textUpTo (hterminator bterminator) (hreaches.passTypeExpr []),
    h.cursor.textUpTo (hterminator bterminator) ((Reaches.refl _).passTypeExpr []),
    hdone.prevStop, (hended bended).found Extent.looksPast_directives bdone]

theorem typeBody (h : Shares f s t) : Shadows f (s.typeBody first e) (t.typeBody first' e') := by
  have hforward := h.forwardType hfirst hreaches he
  have hcontainer := h.containerType hfirst hreaches he
  have henum := h.enumType hfirst hreaches he
  have hplain := h.plainType hfirst hreaches he
  unfold State.typeBody
  rw [h.cursor.keyword?, h.cursor.nthIsSymbol Nat.one_lt_two, h.cursor.nthKeyword? Nat.one_lt_two,
    h.cursor.atSymbol]
  dsimp only
  split
  · exact .ite (hforward .class_) (.ite hplain (hcontainer .class_))
  · exact .ite (hforward .interface) (hcontainer .interface)
  · exact .ite (hforward .interface) (hcontainer .interface)
  · exact hcontainer .object
  · exact hcontainer .record
  · exact .ite henum hplain

end Types

end Shares

/-- The right side of a type declaration is passed forwards. -/
theorem reaches_typeBody (s : State) (first : Cursor) (e : Entry) :
    s.cursor.Reaches (s.typeBody first e).cursor := by
  have hforward (kind : EntryKind) : s.cursor.Reaches (s.forwardType first e kind).cursor :=
    (Reaches.refl _).next.passSymbol ";"
  have hcontainer (kind : EntryKind) : s.cursor.Reaches (s.containerType first e kind).cursor := by
    unfold State.containerType
    dsimp only
    split
    · exact (((Reaches.refl s.cursor).next.advance _).advance _).next
    · exact ((Reaches.refl s.cursor).next.advance _).advance _
  have henum : s.cursor.Reaches (s.enumType first e).cursor :=
    (((Reaches.refl s.cursor).next.trans (valuesBetween_enumValues _).reaches).passTypeExpr
      []).passSymbol ";"
  have hplain : s.cursor.Reaches (s.plainType first e).cursor :=
    (((Reaches.refl s.cursor).passTypeExpr []).passSymbol ";").directives
  unfold State.typeBody
  dsimp only
  split
  · split_ifs
    · exact hforward .class_
    · exact hplain
    · exact hcontainer .class_
  · split_ifs
    · exact hforward .interface
    · exact hcontainer .interface
  · split_ifs
    · exact hforward .interface
    · exact hcontainer .interface
  · exact hcontainer .object
  · exact hcontainer .record
  · split_ifs
    · exact henum
    · exact hplain

/-! ### What is read of values -/

/-- Names are declared at a name. -/
theorem isEmpty_declaredNames (c : Cursor) :
    (Clause.declaredNames c.ahead).1.isEmpty = !c.atName := by
  rw [Cursor.atName, Cursor.nthIsName, Cursor.nth?]
  rcases c.ahead with _ | ⟨t, _ | ⟨u, ts⟩⟩
  · rfl
  · cases hname : t.isName <;> simp [Clause.declaredNames, hname]
  · cases hname : t.isName <;> cases hcomma : u.isSymbol "," <;>
      simp [Clause.declaredNames, hname, hcomma]

/-- What is left of a declaration of values is passed over as a type. -/
theorem reaches_valueTerminator (c : Cursor) :
    c.Reaches (if c.atSymbol ";" then c else c.passTypeExpr []) := by
  split
  · exact .refl c
  · exact (Reaches.refl c).passTypeExpr []

theorem shadows_valueTerminator (hcd : c.Shadows f d) :
    Cursor.Shadows f (if c.atSymbol ";" then c else c.passTypeExpr [])
      (if d.atSymbol ";" then d else d.passTypeExpr []) := by
  refine hcd.of_shares (reaches_valueTerminator c) fun hshared bterminator => ?_
  rw [hshared.atSymbol]
  split_ifs at bterminator ⊢
  · exact hshared
  · exact hshared.shadows.passTypeExpr [] bterminator

/-- Only variables have directives. -/
theorem shares_valueDirectives (hcd : c.Shadows f d) (kind : EntryKind)
    (hbefore : (if kind = .var then c.directives else ([], c)).2.Before f.size) :
    c.Shares f d ∧
      (if kind = .var then d.directives else ([], d)).1
        = (if kind = .var then c.directives else ([], c)).1 ∧
      (if kind = .var then c.directives else ([], c)).2.Shares f
        (if kind = .var then d.directives else ([], d)).2 := by
  split_ifs at hbefore ⊢
  · have hshared := hcd ((Reaches.refl c).directives.before hbefore)
    exact ⟨hshared, hshared.directives hbefore, hcd.directives hbefore⟩
  · exact ⟨hcd hbefore, rfl, hcd hbefore⟩

namespace Shares

/-! ### Type declarations -/

theorem typeDecl (h : Shares f s t) (member : Option Visibility) :
    Shadows f (s.typeDecl member) (t.typeDecl member) := by
  obtain ⟨doc, s', t', hs, ht, h⟩ := h.exists_takeLeading
  unfold State.typeDecl
  rw [hs, ht]
  dsimp only
  have hatName := h.cursor.shadows.passWord "generic"
  have hfirst := (Reaches.refl s'.cursor).passWord "generic"
  generalize s'.cursor.passWord "generic" = atName at hatName hfirst ⊢
  generalize t'.cursor.passWord "generic" = atName' at hatName ⊢
  -- Whatever is read, it begins with the name; so the name is in the stem.
  refine .of_reaches (c := atName) ?_ fun batName => ?_
  · generalize (if atName.next.atSymbol "<" then Extent.generics atName.next.ahead
      else ⟨0, false⟩) = generics
    split
    · split
      · exact (((((Reaches.refl atName).next.advance _).nextIf _).passKeyword .type_).advance
          _).trans (reaches_typeBody (s'.moveTo _) _ _)
      · exact (((Reaches.refl atName).next.advance _).passTypeExpr []).passSymbol ";"
    · exact (Reaches.refl atName).next
  have hatName := hatName batName
  rw [hatName.atName, hatName.text]
  refine .ite ?_ (h.moves hatName.shadows.next)
  have hafterName := hatName.shadows.next
  have hfirst := hfirst.next
  generalize atName.next = afterName at hafterName hfirst ⊢
  generalize atName'.next = afterName' at hafterName ⊢
  -- Type parameters are read up to a place in the stem as well.
  have hgenerics : ∀ n, (if afterName.atSymbol "<" then Extent.generics afterName.ahead
      else ⟨0, false⟩).length = n → (afterName.advance n).Before f.size →
      (if afterName'.atSymbol "<" then Extent.generics afterName'.ahead else ⟨0, false⟩)
        = if afterName.atSymbol "<" then Extent.generics afterName.ahead else ⟨0, false⟩ := by
    rintro n rfl bequals
    have hshared := hafterName ((reaches_advance _ _).before bequals)
    rw [hshared.atSymbol]
    split_ifs at bequals ⊢
    · exact hshared.found ((Extent.looksPast_genericsFrom 0).mono (Nat.le_succ 1)) bequals
    · rfl
  generalize (if afterName.atSymbol "<" then Extent.generics afterName.ahead else ⟨0, false⟩)
    = generics at hgenerics ⊢
  refine .of_reaches (c := afterName.advance generics.length) ?_ fun bequals => ?_
  · split
    · exact ((((Reaches.refl _).nextIf _).passKeyword .type_).advance _).trans
        (reaches_typeBody _ _ _)
    · exact ((Reaches.refl _).passTypeExpr []).passSymbol ";"
  have hequals := hafterName.advance generics.length bequals
  rw [hgenerics _ rfl bequals, hequals.atSymbol]
  have htype := (hequals.shadows.nextIf fun _ => Eq.refl (!generics.tookEquals)).passKeyword .type_
  have hbody := htype.reads (Clause.looksPast_packing.mono (Nat.le_succ 1))
  refine .ite ?_ (h.moves ((hequals.shadows.passTypeExpr []).passSymbol ";"))
  refine .of_reaches (reaches_typeBody _ _ _) fun bbody => ?_
  refine (h.moveTo (hbody bbody)).typeBody h.cursor ?_ ?_
  · exact (((hfirst.advance _).nextIf _).passKeyword .type_).advance _
  · rw [h.cursor.location]

/-! ### Values -/

theorem valueDecl (h : Shares f s t) (kind : EntryKind) (member : Option Visibility)
    (classField : Bool) :
    Shadows f (s.valueDecl kind member classField) (t.valueDecl kind member classField) := by
  obtain ⟨doc, s', t', hs, ht, h⟩ := h.exists_takeLeading
  unfold State.valueDecl
  rw [hs, ht]
  dsimp only
  rw [isEmpty_declaredNames, isEmpty_declaredNames, h.cursor.atName]
  refine .ite h.next ?_
  have hafterNames := h.cursor.shadows.reads Clause.looksPast_declaredNames
  have hafterType := hafterNames.typeExprAfter [":"] ["="]
  have hafterValue := hafterType.typeExprAfter ["=", ":="] []
  have hterminator := shadows_valueTerminator hafterValue
  have hended := hterminator.passSymbol ";"
  -- What was read on the way to the end was read on both sides.
  refine .of_cursor rfl fun bdone => ?_
  obtain ⟨hended, hdirectives, hdone⟩ := shares_valueDirectives hended kind bdone
  have bterminator := ((Reaches.refl _).passSymbol ";").before hended.before
  have bafterValue := (reaches_valueTerminator _).before bterminator
  have bafterType := ((Reaches.refl _).typeExprAfter ["=", ":="] []).before bafterValue
  have bafterNames := ((Reaches.refl _).typeExprAfter [":"] ["="]).before bafterType
  have hnames := h.cursor.found Clause.looksPast_declaredNames bafterNames
  have htypeText := (hafterNames bafterNames).typeExprAfter bafterType
  have hinitializer := (hafterType bafterType).typeExprAfter bafterValue
  have hsignature := h.cursor.textUpTo (hterminator bterminator)
    ((((reaches_advance s'.cursor _).typeExprAfter [":"] ["="]).typeExprAfter ["=", ":="]
      []).trans (reaches_valueTerminator _))
  refine ((h.build ?_).moveTo hdone).itemDone ?_
  · rw [hnames] at htypeText hinitializer hsignature hdone hdirectives ⊢
    rw [htypeText, hinitializer, hsignature, hdirectives, hdone.prevStop]
  · rw [h.nextId, hnames]

theorem variantPart (h : Shares f s t) (visibility : Visibility) (decls : DeclPart) :
    Shadows f (s.variantPart visibility decls) (t.variantPart visibility decls) := by
  -- After the tag, if there is one, both sides pass the word `of`.
  have hafterTag : ∀ {s' t' : State}, Shadows f s' t' → ∀ decls,
      Shadows f ((s'.moveTo (s'.cursor.passKeyword .of_)).setDecls decls)
        ((t'.moveTo (t'.cursor.passKeyword .of_)).setDecls decls) := by
    intro s' t' h' decls
    refine .setDecls (fun hbefore => ?_) decls
    have hshared := h' (((Reaches.refl _).passKeyword .of_).before hbefore)
    exact hshared.moves (hshared.cursor.shadows.passKeyword .of_) hbefore
  unfold State.variantPart
  dsimp only
  refine .of_reaches (c := s.cursor.next) ?_ fun bnext => hafterTag ?_ _
  · rw [cursor_setDecls]
    refine Reaches.passKeyword ?_ .of_
    split
    · exact ((Reaches.refl s.cursor.next).advance 2).passTypeExpr ["of"]
    · exact (Reaches.refl s.cursor.next).passTypeExpr ["of"]
  -- The word `case` is passed, so three tokens of the stem are ahead of it.
  obtain ⟨hroom, hnext⟩ := h.cursor.advance bnext
  have hcolon : t.cursor.nthIsSymbol 2 ":" = s.cursor.nthIsSymbol 2 ":" := by
    rw [Cursor.nthIsSymbol, Cursor.nthIsSymbol, h.cursor.nth? (by omega)]
  rw [h.cursor.nthIsName Nat.one_lt_two, hcolon]
  refine .ite ?_ (h.moves (hnext.shadows.passTypeExpr ["of"]))
  obtain ⟨doc, s', t', hs, ht, h⟩ := h.exists_takeLeading
  rw [hs, ht]
  dsimp only
  have htype := h.cursor.shadows.next.advance 2
  refine .of_cursor rfl fun bdone => ?_
  have btype := ((Reaches.refl _).passTypeExpr ["of"]).before bdone
  have hdone : Cursor.Shares f ((s'.cursor.next.advance 2).typeExpr ["of"]).2
      ((t'.cursor.next.advance 2).typeExpr ["of"]).2 := htype.passTypeExpr ["of"] bdone
  have htag := h.cursor.shadows.next ((reaches_advance _ 2).before btype)
  refine (h.moveTo hdone).addItem ?_
  rw [htag.text, htag.location, hdone.prevStop, (htype btype).typeExpr bdone,
    htag.textUpTo hdone ((reaches_advance _ 2).passTypeExpr ["of"])]

/-! ### What makes no entry -/

theorem skipAttribute (h : Shares f s t) : Shadows f s.skipAttribute t.skipAttribute :=
  h.skipTo (h.cursor.shadows.passGroup "[" "]")

theorem skipStatement (h : Shares f s t) : Shadows f s.skipStatement t.skipStatement :=
  h.moves (h.cursor.shadows.next.reads (Clause.looksPast_statementRest.mono (Nat.le_succ 1)))

end Shares

end State

end PascalOutline
