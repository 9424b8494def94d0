import PascalOutline.Proofs.Correspondence.Draft
import PascalOutline.Proofs.Recognizer.Run

/-! # States of two readings

  Two states correspond when their cursors and drafts do, the same blocks are
  open and the same problems were found at places that belong together. Every
  function of the recognizer takes corresponding states to corresponding
  states, so two readings that correspond go through the same steps.
-/

namespace PascalOutline

/-- The same problem was found at places that belong together. -/
def Diagnostic.Corresponds (r : Correspondence) (d d' : Diagnostic) : Prop :=
  ∃ problem a a', r.place a a' ∧ d = .at_ problem a ∧ d' = .at_ problem a'

namespace State

/-- Two states of the recognizer correspond. -/
structure Corresponds (r : Correspondence) (s t : State) : Prop where
  /-- The cursors correspond. -/
  cursor : s.cursor.Corresponds r t.cursor
  /-- The drafts correspond. -/
  draft : s.draft.Corresponds r t.draft
  /-- The same blocks are open. -/
  blocks : t.blocks = s.blocks
  /-- One goes on if and only if the other does. -/
  stopped : t.stopped = s.stopped
  /-- The same problems were found at places that belong together. -/
  diagnostics :
    List.Forall₂ (Diagnostic.Corresponds r) s.diagnostics.toList t.diagnostics.toList

namespace Corresponds

variable {r : Correspondence} {s t : State}

/-! ### Looking -/

theorem keyword? (h : s.Corresponds r t) : t.keyword? = s.keyword? := by
  simp only [State.keyword?, h.cursor.keyword?, h.cursor.nthIsSymbolIn]

theorem classMemberFollows (h : s.Corresponds r t) :
    t.classMemberFollows = s.classMemberFollows := by
  rw [State.classMemberFollows, State.classMemberFollows, h.cursor.nthKeyword?]

theorem inInterface (h : s.Corresponds r t) : t.inInterface = s.inInterface := by
  rw [State.inInterface, State.inInterface, h.blocks]

theorem nextId (h : s.Corresponds r t) : t.nextId = s.nextId :=
  h.draft.builder.nextId

theorem ite {s' t' : State} {condition : Prop} [Decidable condition] (hpos : s.Corresponds r t)
    (hneg : s'.Corresponds r t') :
    (if condition then s else s').Corresponds r (if condition then t else t') := by
  split
  · exact hpos
  · exact hneg

/-! ### Moving -/

theorem moveTo (h : s.Corresponds r t) {c d : Cursor} (hcd : c.Corresponds r d) :
    (s.moveTo c).Corresponds r (t.moveTo d) :=
  ⟨hcd, h.draft, h.blocks, h.stopped, h.diagnostics⟩

theorem next (h : s.Corresponds r t) : s.next.Corresponds r t.next :=
  h.moveTo h.cursor.next

theorem redraft (h : s.Corresponds r t) {d d' : Draft} (hd : d.Corresponds r d') :
    Corresponds r { s with draft := d } { t with draft := d' } :=
  ⟨h.cursor, hd, h.blocks, h.stopped, h.diagnostics⟩

/-- The tokens up to a cursor are passed without parting documentation from
    what follows. -/
theorem skipTransparent (h : s.Corresponds r t) {c d : Cursor} (hcd : c.Corresponds r d) :
    Corresponds r { s with cursor := c, draft := (s.draft.sync s.cursor).skipTransparent c }
      { t with cursor := d, draft := (t.draft.sync t.cursor).skipTransparent d } :=
  (h.redraft ((h.draft.sync h.cursor).skipTransparent hcd)).moveTo hcd

theorem nextTransparent (h : s.Corresponds r t) :
    s.nextTransparent.Corresponds r t.nextTransparent :=
  h.skipTransparent h.cursor.next

/-! ### Changing parts -/

theorem log (h : s.Corresponds r t) (e e' : Event) : (s.log e).Corresponds r (t.log e') :=
  h.redraft (h.draft.log e e')

theorem setBlocks (h : s.Corresponds r t) {blocks blocks' : List Block} (heq : blocks' = blocks) :
    Corresponds r { s with blocks } { t with blocks := blocks' } :=
  ⟨h.cursor, h.draft, heq, h.stopped, h.diagnostics⟩

theorem setScope (h : s.Corresponds r t) (scope : Scope) :
    (s.setScope scope).Corresponds r (t.setScope scope) := by
  rw [State.setScope, State.setScope, h.blocks]
  split
  · exact h.setBlocks rfl
  · exact h

theorem setDecls (h : s.Corresponds r t) (decls : DeclPart) :
    (s.setDecls decls).Corresponds r (t.setDecls decls) := by
  rw [State.setDecls, State.setDecls, h.blocks]
  split
  · exact h.setScope _
  · exact h.setScope _
  · exact h.setScope _
  · exact h

theorem openBlock (h : s.Corresponds r t) {block block' : Block} (hblock : block' = block) :
    (s.openBlock block).Corresponds r (t.openBlock block') :=
  h.setBlocks (congrArg₂ List.cons hblock h.blocks)

theorem build (h : s.Corresponds r t) {f g : Builder → Builder}
    (hfg : (f s.draft.builder).Corresponds r (g t.draft.builder)) :
    (s.build f).Corresponds r (t.build g) :=
  h.redraft (h.draft.build hfg)

theorem checkName (h : s.Corresponds r t) {name name' : String} (hname : name' = r.text name)
    (kind : EntryKind) {place place' : Location} (hplace : r.place place place') :
    (s.checkName name kind place).Corresponds r (t.checkName name' kind place') := by
  rw [State.checkName, State.checkName, hname]
  simp only [r.text_eq_empty_iff]
  split
  · refine ⟨h.cursor, h.draft, h.blocks, h.stopped, ?_⟩
    have hnew : Diagnostic.Corresponds r (.at_ (.missingName kind) place)
        (.at_ (.missingName kind) place') := ⟨_, _, _, hplace, rfl, rfl⟩
    simpa [State.missingName] using List.rel_append h.diagnostics (.cons hnew .nil)
  · exact h

/-! ### Documentation and entries -/

theorem takeLeading (h : s.Corresponds r t) :
    (r.docs → t.takeLeading.1 = r.text s.takeLeading.1) ∧
      s.takeLeading.2.Corresponds r t.takeLeading.2 := by
  obtain ⟨hdoc, hdraft⟩ := h.draft.takeLeading h.cursor
  exact ⟨hdoc, h.redraft hdraft⟩

theorem itemDone (h : s.Corresponds r t) (ids : List EntryId) :
    (s.itemDone ids).Corresponds r (t.itemDone ids) :=
  h.redraft (h.draft.itemDone h.cursor ids)

variable {e e' : Entry}

theorem addItem (h : s.Corresponds r t) (hkind : e.kind ≠ .other) (he : e.Corresponds r e') :
    (s.addItem e).Corresponds r (t.addItem e') := by
  rw [State.addItem, State.addItem, h.nextId]
  exact (h.build (h.draft.builder.addLeaf he (.inl hkind))).itemDone _

theorem pushItem (h : s.Corresponds r t) (hkind : e.kind ≠ .other) (he : e.Corresponds r e') :
    (s.pushItem e).Corresponds r (t.pushItem e') := by
  rw [State.pushItem, State.pushItem, h.nextId]
  exact (h.build (h.draft.builder.push he (.inl hkind))).itemDone _

theorem openItem (h : s.Corresponds r t) (hkind : e.kind ≠ .other) (he : e.Corresponds r e')
    (scope : Scope) : (s.openItem e scope).Corresponds r (t.openItem e' scope) :=
  (h.pushItem hkind he).openBlock (by rw [h.nextId])

/-! ### Modules -/

theorem moduleHeader (h : s.Corresponds r t) {kind : EntryKind} (hkind : kind ≠ .other) :
    (s.moduleHeader kind).Corresponds r (t.moduleHeader kind) := by
  obtain ⟨hdoc, htaken⟩ := h.takeLeading
  have hatName := h.cursor.next
  have hqualified := Extent.qualifiedName_corresponds hatName.code
  unfold State.moduleHeader
  simp only [cursor_takeLeading, hqualified, Extent.QualifiedName.length_respell]
  generalize Extent.qualifiedName s.cursor.next.ahead = qualified
  have hatArgs := hatName.advance (Eq.refl qualified.length)
  have hafterArgs := hatArgs.passGroup "(" ")"
  have hterminator := hafterArgs.passHeaderRest
  have hdone := hterminator.passSymbol ";"
  have hdot : r.text "." = "." := r.text_of_lowered_eq rfl
  obtain ⟨qualifier, name, length⟩ := qualified
  -- The name of a module is written with its dots.
  have hname : qualifier.elim (r.text name) (fun q => r.text q ++ "." ++ r.text name)
      = r.text (qualifier.elim name fun q => q ++ "." ++ name) := by
    cases qualifier with
    | none => rfl
    | some q => simp only [Option.elim_some, r.text_append, hdot]
  cases qualifier with
  | none | some q =>
    refine ((htaken.moveTo hdone).checkName hname kind hatName.location).pushItem hkind ?_
    refine .of_kind_ne hkind ?_ h.cursor.location hdone.prevStop hdoc
    simp only [Entry.bare, h.cursor.textUpTo hterminator, hatArgs.textUpTo hafterArgs,
      Entry.mk.injEq, true_and]
    exact ⟨hname, by simp⟩

theorem usesClause (h : s.Corresponds r t) (module : EntryId) :
    (s.usesClause module).Corresponds r (t.usesClause module) := by
  have hnext := h.cursor.next
  simp only [State.usesClause, Clause.units_corresponds hnext.code]
  refine (h.moveTo (hnext.advance rfl)).build (h.draft.builder.modify ?_ module)
  intro e e' he
  obtain ⟨doc, start, stop, rfl⟩ := he.exists_eq
  refine ⟨?_, he.start, he.stop, he.doc⟩
  simp [Entry.bare, Entry.respell, Entry.isSynthetic, Clause.Names.respell]

theorem openSection (h : s.Corresponds r t) : s.openSection.Corresponds r t.openSection := by
  obtain ⟨hdoc, htaken⟩ := h.takeLeading
  have hdone := h.cursor.next
  refine (htaken.moveTo hdone).openItem (by nofun) ?_ .statements
  refine .of_kind_ne (by nofun) ?_ h.cursor.location hdone.prevStop hdoc
  simp [Entry.bare, h.cursor.text, h.cursor.textUpTo hdone, r.lowered_text, r.text_lowered]

/-! ### Routines and properties -/

/-- Entries from headers that correspond. -/
theorem toEntry {header header' : Header} (hheader : header.Corresponds r header')
    {doc doc' : String} (hdoc : r.docs → doc' = r.text doc) (forward : Bool)
    (visibility : Option Visibility) :
    Entry.Corresponds r { header.toEntry with doc, forward, visibility }
      { header'.toEntry with doc := doc', forward, visibility } := by
  refine .of_kind_ne hheader.declares ?_ hheader.start hheader.stop hdoc
  simp [Entry.bare, Header.toEntry, hheader.kind, hheader.name, hheader.qualifier,
    hheader.signature, hheader.args, hheader.typeText, hheader.specifiers]

theorem routineDecl (h : s.Corresponds r t) (member : Option Visibility) :
    (s.routineDecl member).Corresponds r (t.routineDecl member) := by
  obtain ⟨hdoc, htaken⟩ := h.takeLeading
  have hread := Header.routine?_corresponds h.cursor
  simp only [State.routineDecl, cursor_takeLeading]
  generalize Header.routine? s.cursor = read at hread ⊢
  generalize Header.routine? t.cursor = read' at hread ⊢
  cases hread with
  | none => exact htaken.next
  | @some read read' hread =>
    obtain ⟨header, done⟩ := read
    obtain ⟨header', done'⟩ := read'
    obtain ⟨hheader, hdone⟩ := hread
    have hchecked := (htaken.moveTo hdone).checkName hheader.name header.kind hheader.nameAt
    dsimp only
    rw [htaken.inInterface, hheader.isForward, hheader.kind]
    split
    · exact hchecked.addItem hheader.declares (toEntry hheader hdoc _ _)
    · exact hchecked.openItem hheader.declares (toEntry hheader hdoc _ _) _

theorem propertyDecl (h : s.Corresponds r t) (visibility : Visibility) :
    (s.propertyDecl visibility).Corresponds r (t.propertyDecl visibility) := by
  obtain ⟨hdoc, htaken⟩ := h.takeLeading
  have hread := Header.property?_corresponds h.cursor
  simp only [State.propertyDecl, cursor_takeLeading]
  generalize Header.property? s.cursor = read at hread ⊢
  generalize Header.property? t.cursor = read' at hread ⊢
  cases hread with
  | none => exact htaken.next
  | @some read read' hread =>
    obtain ⟨header, done⟩ := read
    obtain ⟨header', done'⟩ := read'
    obtain ⟨hheader, hdone⟩ := hread
    have hchecked := (htaken.moveTo hdone).checkName hheader.name header.kind hheader.nameAt
    dsimp only
    rw [hheader.kind]
    exact hchecked.addItem hheader.declares (toEntry hheader hdoc false (some visibility))

/-! ### Types -/

theorem enumValue (h : s.Corresponds r t) {value value' : Clause.EnumValue}
    (hvalue : value.Corresponds r value') :
    (s.enumValue value).Corresponds r (t.enumValue value') := by
  obtain ⟨hdoc, htaken⟩ := (h.moveTo hvalue.before).takeLeading
  refine (htaken.moveTo hvalue.after).addItem (by nofun) ?_
  refine .of_kind_ne (by nofun) ?_ hvalue.before.location hvalue.after.prevStop hdoc
  simp [Entry.bare, hvalue.name, hvalue.signature, hvalue.initializer]

theorem foldl_enumValue (h : s.Corresponds r t) {values values' : List Clause.EnumValue}
    (hvalues : List.Forall₂ (Clause.EnumValue.Corresponds r) values values') :
    (values.foldl State.enumValue s).Corresponds r (values'.foldl State.enumValue t) := by
  induction hvalues generalizing s t with
  | nil => exact h
  | cons hvalue _ ih => exact ih (h.enumValue hvalue)

section Types

variable {first first' : Cursor} (hfirst : first.Corresponds r first') {e e' : Entry}
  (hkind : e.kind ≠ .other) (he : e.Corresponds r e')
include hfirst hkind he

theorem forwardType (h : s.Corresponds r t) {kind : EntryKind} (hnew : kind ≠ .other) :
    (s.forwardType first e kind).Corresponds r (t.forwardType first' e' kind) := by
  have hterminator := h.cursor.next
  have hdone := hterminator.passSymbol ";"
  refine (h.moveTo hdone).addItem hnew ?_
  obtain ⟨doc, start, stop, rfl⟩ := he.exists_eq
  refine .of_kind_ne hnew ?_ he.start hdone.prevStop he.doc
  simp [Entry.bare, Entry.respell, Entry.isSynthetic, hkind, hfirst.textUpTo hterminator]

theorem containerType (h : s.Corresponds r t) {kind : EntryKind} (hnew : kind ≠ .other) :
    (s.containerType first e kind).Corresponds r (t.containerType first' e' kind) := by
  have hnext := h.cursor.next
  simp only [State.containerType, Clause.modifiers_corresponds hnext.code]
  generalize Clause.modifiers s.cursor.next.ahead = modifiers
  have hafter := hnext.advance (Eq.refl modifiers.length)
  simp only [Clause.Modifiers.respell, Clause.bases_corresponds hafter.code]
  generalize Clause.bases (s.cursor.next.advance modifiers.length).ahead = bases
  have hend := hafter.advance (Eq.refl bases.length)
  obtain ⟨doc, start, stop, rfl⟩ := he.exists_eq
  simp only [Clause.Names.respell, hend.atSymbol]
  split
  · refine (h.moveTo hend.next).addItem hnew ?_
    refine .of_kind_ne hnew ?_ he.start hend.next.prevStop he.doc
    simp [Entry.bare, Entry.respell, Entry.isSynthetic, hkind, hfirst.textUpTo hend]
  · refine (h.moveTo hend).openItem hnew ?_ _
    refine .of_kind_ne hnew ?_ he.start hend.prevStop he.doc
    simp [Entry.bare, Entry.respell, Entry.isSynthetic, hkind, hfirst.textUpTo hend]

theorem enumType (h : s.Corresponds r t) :
    (s.enumType first e).Corresponds r (t.enumType first' e') := by
  obtain ⟨hvalues, hclosing⟩ := Clause.enumValues_corresponds h.cursor.next
  have hterminator := hclosing.passTypeExpr []
  have hdone := hterminator.passSymbol ";"
  have hopened : Entry.Corresponds r { e with stop := s.cursor.location }
      { e' with stop := t.cursor.location } :=
    ⟨he.texts, he.start, h.cursor.location, he.doc⟩
  have hheld := ((h.pushItem (by exact hkind) hopened).foldl_enumValue hvalues).moveTo hdone
  simp only [State.enumType, h.nextId, h.cursor.textUpTo hclosing, hfirst.textUpTo hterminator]
  refine (hheld.build ((hheld.draft.builder.modify ?_ _).pop hdone.prevStop)).itemDone _
  intro e e' he
  obtain ⟨doc, start, stop, rfl⟩ := he.exists_eq
  exact ⟨rfl, he.start, he.stop, he.doc⟩

theorem plainType (h : s.Corresponds r t) :
    (s.plainType first e).Corresponds r (t.plainType first' e') := by
  have hterminator := h.cursor.passTypeExpr []
  obtain ⟨hspecifiers, hdone⟩ := (hterminator.passSymbol ";").directives
  simp only [State.plainType, Cursor.typeExpr, hspecifiers]
  refine (h.moveTo hdone).addItem hkind ?_
  obtain ⟨doc, start, stop, rfl⟩ := he.exists_eq
  refine .of_kind_ne hkind ?_ he.start hdone.prevStop he.doc
  simp [Entry.bare, Entry.respell, Entry.isSynthetic, hkind, hfirst.textUpTo hterminator,
    h.cursor.textUpTo hterminator]

theorem typeBody (h : s.Corresponds r t) :
    (s.typeBody first e).Corresponds r (t.typeBody first' e') := by
  have hplain := h.plainType hfirst hkind he
  simp only [State.typeBody, h.cursor.keyword?, h.cursor.nthIsSymbol, h.cursor.nthKeyword?,
    h.cursor.atSymbol]
  split
  · split
    · exact h.forwardType hfirst hkind he (by nofun)
    · split
      · exact hplain
      · exact h.containerType hfirst hkind he (by nofun)
  · split
    · exact h.forwardType hfirst hkind he (by nofun)
    · exact h.containerType hfirst hkind he (by nofun)
  · split
    · exact h.forwardType hfirst hkind he (by nofun)
    · exact h.containerType hfirst hkind he (by nofun)
  · exact h.containerType hfirst hkind he (by nofun)
  · exact h.containerType hfirst hkind he (by nofun)
  · split
    · exact h.enumType hfirst hkind he
    · exact hplain

end Types

theorem typeDecl (h : s.Corresponds r t) (member : Option Visibility) :
    (s.typeDecl member).Corresponds r (t.typeDecl member) := by
  have htaken := h.takeLeading
  unfold State.typeDecl
  generalize s.takeLeading = taken at htaken ⊢
  generalize t.takeLeading = taken' at htaken ⊢
  obtain ⟨doc, s⟩ := taken
  obtain ⟨doc', t⟩ := taken'
  obtain ⟨hdoc, htaken⟩ := htaken
  dsimp only at hdoc htaken ⊢
  have hatName := htaken.cursor.passWord "generic"
  have hafterName := hatName.next
  rw [hatName.atName, hafterName.atSymbol, Extent.generics_corresponds hafterName.words]
  generalize (if (s.cursor.passWord "generic").next.atSymbol "<" = true then
    Extent.generics (s.cursor.passWord "generic").next.ahead else ⟨0, false⟩) = generics
  have hequals := hafterName.advance (Eq.refl generics.length)
  rw [hequals.atSymbol]
  split
  · split
    · have htype := (hequals.nextIf (Eq.refl (!generics.tookEquals))).passKeyword .type_
      have hbody := htype.advance (Clause.packing_corresponds htype.words)
      refine (htaken.moveTo hbody).typeBody htaken.cursor (by nofun) ?_
      refine .of_kind_ne (by nofun) ?_ htaken.cursor.location r.place_nowhere hdoc
      simp [Entry.bare, hatName.text]
    · exact htaken.moveTo ((hequals.passTypeExpr []).passSymbol ";")
  · exact htaken.moveTo hafterName

/-! ### Values -/

/-- The entries of names that are declared together correspond; the last name
    has an entry of its own form. -/
theorem forall₂_names {names names' : List Token} (h : Token.WordsCorrespond r names names')
    {f f' g g' : Token → Entry} {R : Entry → Entry → Prop}
    (hf : ∀ {t u : Token}, t.Corresponds r u → R (f t) (f' u))
    (hg : ∀ {t u : Token}, t.Corresponds r u → R (g t) (g' u)) :
    List.Forall₂ R (names.dropLast.map f ++ names.getLast?.toList.map g)
      (names'.dropLast.map f' ++ names'.getLast?.toList.map g') := by
  induction h with
  | nil => exact .nil
  | cons htu hrest ih =>
    cases hrest with
    | nil => exact .cons (hg htu) .nil
    | cons hsv _ =>
      rw [List.dropLast_cons_cons, List.dropLast_cons_cons, List.getLast?_cons_cons,
        List.getLast?_cons_cons]
      exact .cons (hf htu) ih

theorem valueDecl (h : s.Corresponds r t) {kind : EntryKind} (hkind : kind ≠ .other)
    (member : Option Visibility) (classField : Bool) :
    (s.valueDecl kind member classField).Corresponds r (t.valueDecl kind member classField) := by
  have htaken := h.takeLeading
  unfold State.valueDecl
  generalize s.takeLeading = taken at htaken ⊢
  generalize t.takeLeading = taken' at htaken ⊢
  obtain ⟨doc, s⟩ := taken
  obtain ⟨doc', t⟩ := taken'
  obtain ⟨hdoc, htaken⟩ := htaken
  dsimp only at hdoc htaken ⊢
  obtain ⟨hnames, hn⟩ := Clause.declaredNames_corresponds htaken.cursor.words
  have hafterNames := htaken.cursor.advance hn
  generalize Clause.declaredNames s.cursor.ahead = read at hnames hafterNames ⊢
  generalize Clause.declaredNames t.cursor.ahead = read' at hnames hafterNames ⊢
  have hlength := hnames.length_eq
  have hempty : read'.1.isEmpty = read.1.isEmpty := by
    rw [Bool.eq_iff_iff, List.isEmpty_iff_length_eq_zero, List.isEmpty_iff_length_eq_zero, hlength]
  -- Each reader is replaced by what it returned on both sides.
  obtain ⟨htypeText, hafterType⟩ := hafterNames.typeExprAfter [":"] ["="]
  generalize (s.cursor.advance read.2).typeExprAfter [":"] ["="] = typed at htypeText hafterType ⊢
  generalize (t.cursor.advance read'.2).typeExprAfter [":"] ["="] = typed' at htypeText hafterType ⊢
  obtain ⟨hinitializer, hafterValue⟩ := hafterType.typeExprAfter ["=", ":="] []
  generalize typed.2.typeExprAfter ["=", ":="] [] = valued at hinitializer hafterValue ⊢
  generalize typed'.2.typeExprAfter ["=", ":="] [] = valued' at hinitializer hafterValue ⊢
  have hterminator :
      (if valued.2.atSymbol ";" then valued.2 else valued.2.passTypeExpr []).Corresponds r
        (if valued'.2.atSymbol ";" then valued'.2 else valued'.2.passTypeExpr []) := by
    rw [hafterValue.atSymbol]
    split
    · exact hafterValue
    · exact hafterValue.passTypeExpr []
  generalize (if valued.2.atSymbol ";" then valued.2 else valued.2.passTypeExpr []) = terminator
    at hterminator ⊢
  generalize (if valued'.2.atSymbol ";" then valued'.2 else valued'.2.passTypeExpr []) = terminator'
    at hterminator ⊢
  have hended := hterminator.passSymbol ";"
  have hdone :
      (if kind = .var then (terminator'.passSymbol ";").directives
        else ([], terminator'.passSymbol ";")).1
      = (if kind = .var then (terminator.passSymbol ";").directives
        else ([], terminator.passSymbol ";")).1.map r.text ∧
      (if kind = .var then (terminator.passSymbol ";").directives
        else ([], terminator.passSymbol ";")).2.Corresponds r
      (if kind = .var then (terminator'.passSymbol ";").directives
        else ([], terminator'.passSymbol ";")).2 := by
    split
    · exact hended.directives
    · exact ⟨rfl, hended⟩
  generalize (if kind = .var then (terminator.passSymbol ";").directives
    else ([], terminator.passSymbol ";")) = directed at hdone ⊢
  generalize (if kind = .var then (terminator'.passSymbol ";").directives
    else ([], terminator'.passSymbol ";")) = directed' at hdone ⊢
  -- All names share everything but their places.
  have hclass : r.text "class" = "class" := r.text_of_lowered_eq rfl
  have hentry {u v : Token} (huv : u.Corresponds r v) {stop stop' : Location}
      (hstop : r.place stop stop') : Entry.Corresponds r
        { kind, name := u.text, typeText := typed.1, initializer := valued.1, doc
          signature := s.cursor.textUpTo terminator
          specifiers := (if classField then ["class"] else []) ++ directed.1
          visibility := member, start := u.start, stop }
        { kind, name := v.text, typeText := typed'.1, initializer := valued'.1, doc := doc'
          signature := t.cursor.textUpTo terminator'
          specifiers := (if classField then ["class"] else []) ++ directed'.1
          visibility := member, start := v.start, stop := stop' } := by
    refine .of_kind_ne hkind ?_ huv.start hstop hdoc
    cases classField <;>
      simp [Entry.bare, huv.text, htypeText, hinitializer, hdone.1,
        htaken.cursor.textUpTo hterminator, hclass]
  rw [hempty, htaken.nextId, ← hlength]
  split
  · exact htaken.next
  · refine ((htaken.build ?_).moveTo hdone.2).itemDone _
    refine htaken.draft.builder.foldl_addLeaf (forall₂_names hnames ?_ ?_)
    · intro u v huv
      exact ⟨hkind, hentry huv huv.stop⟩
    · intro u v huv
      exact ⟨hkind, hentry huv hdone.2.prevStop⟩

theorem variantPart (h : s.Corresponds r t) (visibility : Visibility) (decls : DeclPart) :
    (s.variantPart visibility decls).Corresponds r (t.variantPart visibility decls) := by
  -- After the tag, if there is one, both sides pass the word `of`.
  have hafterTag : ∀ {s' t' : State}, s'.Corresponds r t' → ∀ decls,
      ((s'.moveTo (s'.cursor.passKeyword .of_)).setDecls decls).Corresponds r
        ((t'.moveTo (t'.cursor.passKeyword .of_)).setDecls decls) := by
    intro s' t' h' decls
    exact (h'.moveTo (h'.cursor.passKeyword .of_)).setDecls decls
  obtain ⟨hdoc, htaken⟩ := h.takeLeading
  unfold State.variantPart
  dsimp only
  refine hafterTag ?_ _
  rw [h.cursor.nthIsName, h.cursor.nthIsSymbol]
  split
  · have htag := h.cursor.next
    obtain ⟨htypeText, hdone⟩ := (htag.advance (Eq.refl 2)).typeExpr ["of"]
    refine (htaken.moveTo hdone).addItem (by nofun) ?_
    refine .of_kind_ne (by nofun) ?_ htag.location hdone.prevStop hdoc
    simp [Entry.bare, cursor_takeLeading, htag.text, htag.textUpTo hdone, htypeText]
  · exact h.moveTo (h.cursor.next.passTypeExpr ["of"])

/-! ### What makes no entry -/

theorem skipAttribute (h : s.Corresponds r t) : s.skipAttribute.Corresponds r t.skipAttribute :=
  h.skipTransparent (h.cursor.passGroup "[" "]")

theorem skipStatement (h : s.Corresponds r t) : s.skipStatement.Corresponds r t.skipStatement :=
  h.moveTo (h.cursor.next.advance (Clause.statementRest_corresponds h.cursor.next.words))

/-! ### Closing blocks -/

theorem closeTop (h : s.Corresponds r t) {stop stop' : Location} (hstop : r.place stop stop') :
    (s.closeTop stop).Corresponds r (t.closeTop stop') := by
  rw [State.closeTop, State.closeTop, h.blocks]
  split
  · exact h
  · exact h.setBlocks rfl
  · exact h
  · exact (h.build (h.draft.builder.pop hstop)).setBlocks rfl

theorem closeTimes (h : s.Corresponds r t) {stop stop' : Location} (hstop : r.place stop stop')
    (n : Nat) : (s.closeTimes stop n).Corresponds r (t.closeTimes stop' n) := by
  induction n generalizing s t with
  | zero => exact h
  | succ n ih => exact ih (h.closeTop hstop)

theorem countBlocks (h : s.Corresponds r t) (p : Block → Bool) :
    t.countBlocks p = s.countBlocks p := by
  rw [State.countBlocks, State.countBlocks, h.blocks]

theorem closeToModule (h : s.Corresponds r t) : s.closeToModule.Corresponds r t.closeToModule := by
  have hclosed := h.closeTimes h.cursor.prevStop (s.countBlocks fun block => !block.isModule)
  unfold State.closeToModule
  dsimp only
  rw [h.countBlocks]
  split
  · exact hclosed
  · exact hclosed.log _ _

theorem closeContainers (h : s.Corresponds r t) :
    s.closeContainers.Corresponds r t.closeContainers := by
  unfold State.closeContainers
  dsimp only
  rw [h.countBlocks]
  exact (h.closeTimes h.cursor.prevStop _).log _ _

theorem closeAll (h : s.Corresponds r t) : s.closeAll.Corresponds r t.closeAll := by
  have hclosed := h.closeTimes h.cursor.prevStop (s.blocks.length - 1)
  rw [State.closeAll, State.closeAll, h.blocks]
  exact ⟨hclosed.cursor, hclosed.draft, hclosed.blocks, rfl, hclosed.diagnostics⟩

theorem closeBodiless (h : s.Corresponds r t) : s.closeBodiless.Corresponds r t.closeBodiless :=
  (h.log _ _).closeTop h.cursor.prevStop

theorem closeEntry (h : s.Corresponds r t) (id : EntryId) (scope : Scope) :
    (s.closeEntry id scope).Corresponds r (t.closeEntry id scope) := by
  -- What is done after the directives were read, if any were.
  have hclose : ∀ {hints : List String} {c d : Cursor}, c.Corresponds r d →
      Corresponds r
        (((State.moveTo { s with blocks := s.blocks.tail } (c.passSymbol ";")).build fun b =>
          (b.modify id fun e => { e with specifiers := e.specifiers ++ hints }).pop
            (c.passSymbol ";").prevStop).itemDone [id])
        (((State.moveTo { t with blocks := t.blocks.tail } (d.passSymbol ";")).build fun b =>
          (b.modify id fun e => { e with specifiers := e.specifiers ++ hints.map r.text }).pop
            (d.passSymbol ";").prevStop).itemDone [id]) := by
    intro hints c d hcd
    have hended := hcd.passSymbol ";"
    have hinner := (h.setBlocks (congrArg List.tail h.blocks)).moveTo hended
    refine (hinner.build ((h.draft.builder.modify ?_ id).pop hended.prevStop)).itemDone _
    intro e e' he
    obtain ⟨doc, start, stop, rfl⟩ := he.exists_eq
    refine ⟨?_, he.start, he.stop, he.doc⟩
    simp [Entry.bare, Entry.respell, Entry.isSynthetic]
  cases scope with
  | container kind visibility decls =>
    obtain ⟨hhints, hcursor⟩ := h.cursor.directives
    unfold State.closeEntry
    dsimp only
    rw [hhints]
    exact hclose hcursor
  | module unitPart decls => exact hclose h.cursor
  | routine phase decls => exact hclose h.cursor
  | statements => exact hclose h.cursor

theorem closeBlock (h : s.Corresponds r t) : s.closeBlock.Corresponds r t.closeBlock := by
  have hsynced := h.redraft (h.draft.sync h.cursor)
  unfold State.closeBlock
  dsimp only
  generalize ({ s with draft := s.draft.sync s.cursor } : State) = synced at hsynced ⊢
  generalize ({ t with draft := t.draft.sync t.cursor } : State) = synced' at hsynced ⊢
  have hpassed := hsynced.next
  rw [h.cursor.nthIsSymbol, h.blocks]
  split
  · exact (hsynced.moveTo (h.cursor.advance rfl)).closeAll
  · split
    · exact hpassed.setBlocks rfl
    · split
      · exact hpassed.log _ _
      · exact hpassed.closeEntry _ _
    · exact hpassed.log _ _

/-! ### Steps by block -/

theorem beginPart (h : s.Corresponds r t) (decls : DeclPart) :
    (s.beginPart decls).Corresponds r (t.beginPart decls) :=
  h.nextTransparent.setDecls decls

theorem nameStep (h : s.Corresponds r t) (decls : DeclPart) :
    (s.nameStep decls).Corresponds r (t.nameStep decls) := by
  unfold State.nameStep
  split
  · exact h.typeDecl none
  · exact h.valueDecl (by nofun) none false
  · exact h.valueDecl (by nofun) none false
  · exact h.next

theorem plainStep (h : s.Corresponds r t) (decls : DeclPart) :
    (s.plainStep decls).Corresponds r (t.plainStep decls) := by
  unfold State.plainStep
  rw [h.cursor.atSymbol, h.cursor.atName]
  split
  · exact h.skipAttribute
  · split
    · exact h.nameStep decls
    · exact h.next

theorem moduleStep (h : s.Corresponds r t) (id : EntryId) (decls : DeclPart) :
    (s.moduleStep id decls).Corresponds r (t.moduleStep id decls) := by
  unfold State.moduleStep
  rw [h.keyword?, h.classMemberFollows]
  split
  · exact h.nextTransparent.setScope _
  · exact h.nextTransparent.setScope _
  · exact h.usesClause id
  · exact h.usesClause id
  · exact h.usesClause id
  · exact h.beginPart _
  · exact h.beginPart _
  · exact h.beginPart _
  · exact h.beginPart _
  · exact h.beginPart _
  · exact h.skipStatement.setDecls _
  · exact h.skipStatement.setDecls _
  · exact h.openSection
  · exact h.openSection
  · exact h.next.openBlock rfl
  · exact h.next.openBlock rfl
  · exact h.closeBlock
  · split
    · exact h.routineDecl none
    · exact h.next
  · split
    · exact h.routineDecl none
    · exact h.next
  · exact h.plainStep decls

theorem visibility? (h : s.Corresponds r t) : t.visibility? = s.visibility? := by
  rw [State.visibility?, State.visibility?, h.keyword?, h.cursor.nthKeyword?]

theorem visibilityStep (h : s.Corresponds r t) (kind : EntryKind) (visibility : Visibility) :
    (s.visibilityStep kind visibility).Corresponds r (t.visibilityStep kind visibility) := by
  unfold State.visibilityStep
  dsimp only
  rw [h.cursor.atKeyword]
  split
  · exact h.nextTransparent.nextTransparent.setScope _
  · exact h.nextTransparent.setScope _

theorem memberNameStep (h : s.Corresponds r t) (visibility : Visibility) (decls : DeclPart) :
    (s.memberNameStep visibility decls).Corresponds r (t.memberNameStep visibility decls) := by
  unfold State.memberNameStep
  split
  · exact h.typeDecl _
  · exact h.valueDecl (by nofun) _ _
  · exact h.valueDecl (by nofun) _ _
  · exact h.next
  · exact h.valueDecl (by nofun) _ _

theorem memberSymbolStep (h : s.Corresponds r t) (decls : DeclPart) :
    (s.memberSymbolStep decls).Corresponds r (t.memberSymbolStep decls) := by
  unfold State.memberSymbolStep
  rw [h.cursor.atSymbol, h.cursor.atSymbol]
  split
  · split
    · exact (h.setDecls _).next
    · split
      · exact (h.setDecls _).next
      · exact h.next
  · exact h.next

theorem plainMemberStep (h : s.Corresponds r t) (visibility : Visibility) (decls : DeclPart) :
    (s.plainMemberStep visibility decls).Corresponds r (t.plainMemberStep visibility decls) := by
  unfold State.plainMemberStep
  dsimp only
  rw [h.cursor.atSymbol, h.cursor.atName]
  exact ite h.skipAttribute (ite (h.memberNameStep visibility decls) (h.memberSymbolStep decls))

theorem classWordStep (h : s.Corresponds r t) (visibility : Visibility) :
    (s.classWordStep visibility).Corresponds r (t.classWordStep visibility) := by
  unfold State.classWordStep
  rw [h.cursor.nthKeyword?, h.classMemberFollows]
  split
  · exact h.nextTransparent.nextTransparent.setDecls _
  · split
    · exact h.propertyDecl visibility
    · split
      · exact h.routineDecl _
      · exact h.next

theorem memberStep (h : s.Corresponds r t) (kind : EntryKind) (visibility : Visibility)
    (decls : DeclPart) :
    (s.memberStep kind visibility decls).Corresponds r (t.memberStep kind visibility decls) := by
  unfold State.memberStep
  rw [h.keyword?]
  split
  · exact h.beginPart _
  · exact h.classWordStep visibility
  · exact h.beginPart _
  · exact h.beginPart _
  · exact h.propertyDecl visibility
  · split
    · exact h.variantPart visibility decls
    · exact h.next
  · exact h.closeBlock
  · exact h.closeToModule
  · exact h.closeToModule
  · exact h.closeToModule
  · exact h.closeContainers
  · split
    · exact h.routineDecl _
    · exact h.next
  · exact h.plainMemberStep visibility decls

theorem containerStep (h : s.Corresponds r t) (kind : EntryKind) (visibility : Visibility)
    (decls : DeclPart) :
    (s.containerStep kind visibility decls).Corresponds r
      (t.containerStep kind visibility decls) := by
  unfold State.containerStep
  rw [h.visibility?]
  split
  · exact h.visibilityStep kind _
  · exact h.memberStep kind visibility decls

theorem routineStep (h : s.Corresponds r t) (decls : DeclPart) :
    (s.routineStep decls).Corresponds r (t.routineStep decls) := by
  unfold State.routineStep
  rw [h.keyword?, h.classMemberFollows]
  split
  · exact h.next.setScope _
  · exact h.next.setScope _
  · exact h.beginPart _
  · exact h.beginPart _
  · exact h.beginPart _
  · exact h.beginPart _
  · exact h.beginPart _
  · exact h.skipStatement
  · split
    · exact h.routineDecl none
    · exact h.next
  · exact h.closeBodiless
  · exact h.closeToModule
  · exact h.closeToModule
  · exact h.closeToModule
  · split
    · exact h.routineDecl none
    · exact h.next
  · exact h.plainStep decls

theorem statementStep (h : s.Corresponds r t) : s.statementStep.Corresponds r t.statementStep := by
  unfold State.statementStep
  rw [h.cursor.keyword?]
  split
  · exact h.next.openBlock rfl
  · exact h.next.openBlock rfl
  · exact h.next.openBlock rfl
  · exact h.next.openBlock rfl
  · exact h.next.openBlock rfl
  · exact h.closeBlock
  · exact h.closeToModule
  · exact h.closeToModule
  · exact h.closeToModule
  · exact h.next

theorem asmStep (h : s.Corresponds r t) : s.asmStep.Corresponds r t.asmStep := by
  unfold State.asmStep
  rw [h.cursor.atKeyword]
  split
  · exact h.closeBlock
  · exact h.next

/-- The step lemma: one step takes corresponding states to corresponding
    states. -/
theorem step (h : s.Corresponds r t) : s.step.Corresponds r t.step := by
  unfold State.step
  rw [h.blocks]
  split
  · exact ⟨h.cursor, h.draft, rfl, rfl, h.diagnostics⟩
  · split
    · exact h.asmStep
    · exact h.statementStep
  · split
    · exact h.moduleStep _ _
    · exact h.containerStep _ _ _
    · exact h.routineStep _
    · exact h.statementStep
    · exact h.asmStep
    · exact h.statementStep

/-! ### A whole source -/

theorem finished_iff (h : s.Corresponds r t) : s.Finished ↔ t.Finished := by
  rw [Finished, Finished, h.stopped, h.cursor.atEnd]

/-- The run lemma: two runs from corresponding states take the same number of
    steps, and end in corresponding states. -/
theorem run {s t : State} (h : s.Corresponds r t) : s.run.Corresponds r t.run := by
  by_cases hdone : s.Finished
  · rw [run_of_finished hdone, run_of_finished (h.finished_iff.mp hdone)]
    exact h
  · obtain ⟨htokens, hrunning⟩ := s.not_finished_iff.mp hdone
    obtain ⟨htokens', hrunning'⟩ := t.not_finished_iff.mp (h.finished_iff.not.mp hdone)
    rw [run_eq_run_step htokens hrunning, run_eq_run_step htokens' hrunning']
    have heffect := effect_step (Cursor.ahead_ne_nil_of_atEnd htokens)
    cases hstopped : s.step.stopped with
    | true =>
      have hend : s.step.Finished := Or.inl hstopped
      rw [run_of_finished hend, run_of_finished (h.step.finished_iff.mp hend)]
      exact h.step
    | false =>
      have hdecreases := heffect.remaining_lt hstopped
      exact h.step.run
termination_by s.remaining
decreasing_by exact hdecreases

theorem ne_other_of_moduleKind? {c : Cursor} {kind : EntryKind} (h : moduleKind? c = some kind) :
    kind ≠ .other := by
  rintro rfl
  unfold moduleKind? at h
  split at h
  · cases h
  · cases h
  · cases h
  · split at h <;> cases h
  · cases h

/-- A source without a module header gets a root that is named after the file.
    It is enough that such a root may be pushed on both sides. -/
theorem makeRoot_of_push (h : s.Corresponds r t) (file : String)
    (hpush : ∀ name, (s.draft.builder.push { kind := .other, name }).Corresponds r
      (t.draft.builder.push { kind := .other, name })) :
    (s.makeRoot file).Corresponds r (t.makeRoot file) := by
  have hkind : moduleKind? t.cursor = moduleKind? s.cursor := by
    rw [moduleKind?, moduleKind?, h.cursor.keyword?, h.cursor.nthIsName]
  unfold State.makeRoot
  dsimp only
  rw [hkind, h.nextId]
  cases hmodule : moduleKind? s.cursor with
  | some kind => exact (h.moduleHeader (ne_other_of_moduleKind? hmodule)).openBlock rfl
  | none => exact (h.build (hpush _)).openBlock rfl

/-- The root is made before any other entry. -/
theorem makeRoot (h : s.Corresponds r t) (hfirst : s.nextId = 0) (file : String) :
    (s.makeRoot file).Corresponds r (t.makeRoot file) := by
  have hroot (name : String) : Entry.Corresponds r { kind := .other, name }
      { kind := .other, name } := by
    refine ⟨?_, r.place_nowhere, r.place_nowhere, fun _ => r.text_empty.symm⟩
    simp [Entry.bare, Entry.respell, Entry.isSynthetic]
  exact h.makeRoot_of_push file fun name => h.draft.builder.push (hroot name) (.inr hfirst)

theorem finish (h : s.Corresponds r t) : s.finish.Corresponds r t.finish := by
  have hopen : t.openEntries = s.openEntries := by
    rw [State.openEntries, State.openEntries, h.blocks]
  have hinside : (!t.stopped && 1 < t.openEntries : Bool)
      = (!s.stopped && 1 < s.openEntries : Bool) := by
    rw [h.stopped, hopen]
  have hlogged := (h.draft.finish h.cursor).logIf hinside (.textEndedInside (s.openEntries - 1))
    (.textEndedInside (t.openEntries - 1))
  exact h.redraft (hlogged.logIf (by rw [hlogged.builder.unclosed]) _ _)

end Corresponds

/-- The states before the first step correspond when the tokens, the lexemes
    and the ends of both sources do. -/
theorem corresponds_initial {r : Correspondence} {options options' : Options}
    {lexemes lexemes' : List Lexeme}
    (htokens : Token.CodeCorresponds r (Token.ofLexemes lexemes) (Token.ofLexemes lexemes'))
    (heof : r.place (Lexer.endOf lexemes) (Lexer.endOf lexemes'))
    (hdocs : r.docs → options.DocumentAlike options' ∧
      List.Forall₂ (Lexeme.DocCorresponds r) lexemes lexemes')
    (file : String) :
    (initial options file lexemes).Corresponds r (initial options' file lexemes') := by
  have hcursor : (Cursor.ofLexemes lexemes).Corresponds r (Cursor.ofLexemes lexemes') :=
    ⟨htokens, r.place_start, heof, fun _ => rfl, fun h => (hdocs h).2.length_eq.symm⟩
  have hbuilder : Builder.Corresponds r { file } { file } :=
    ⟨rfl, rfl, rfl, fun _ => .none⟩
  refine ⟨hcursor, ⟨hbuilder, ?_⟩, rfl, rfl, .nil⟩
  intro h
  obtain ⟨hoptions, hlexemes⟩ := hdocs h
  exact ⟨hoptions, hlexemes, rfl, .none, rfl⟩

/-- The finished states correspond when the tokens, the lexemes and the ends of
    both sources do. -/
theorem corresponds_ofSource {r : Correspondence} {options options' : Options}
    {lexemes lexemes' : List Lexeme}
    (htokens : Token.CodeCorresponds r (Token.ofLexemes lexemes) (Token.ofLexemes lexemes'))
    (heof : r.place (Lexer.endOf lexemes) (Lexer.endOf lexemes'))
    (hdocs : r.docs → options.DocumentAlike options' ∧
      List.Forall₂ (Lexeme.DocCorresponds r) lexemes lexemes')
    (file : String) :
    (ofSource options file lexemes).Corresponds r (ofSource options' file lexemes') :=
  ((corresponds_initial htokens heof hdocs file).makeRoot rfl file).run.finish

end State

end PascalOutline
