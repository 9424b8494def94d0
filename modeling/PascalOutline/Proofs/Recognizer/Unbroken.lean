import PascalOutline.Proofs.Recognizer.Naming
import PascalOutline.Proofs.Recognizer.Run
import PascalOutline.Proofs.Token.Unbroken
import PascalOutline.Scan

/-! # Names on one line

  What an entry is called, what owns it and what is said of it are read off
  tokens, and no token is broken over lines. So none of these texts is
  (`Entry.OnOneLine`), whatever the source. Only the root of a source without
  a module header is called after the file.

  A builder gets such entries when they are made, and nothing that happens to
  an entry later adds other texts to these. There is one lemma for each
  function of the recognizer.
-/

namespace PascalOutline

/-! ### Entries -/

/-- The texts in the headline of an entry have no line end but those of the
    file name. -/
structure Entry.OnOneLine (file : String) (e : Entry) : Prop where
  /-- Its name. -/
  name : Unbroken file e.name
  /-- Its owner. -/
  qualifier : ∀ qualifier ∈ e.qualifier, Unbroken file qualifier
  /-- Its specifiers. -/
  specifiers : ∀ text ∈ e.specifiers, Unbroken file text

theorem unbroken_none (file : String) : ∀ text ∈ (none : Option String), Unbroken file text :=
  fun _ htext => absurd htext (Option.not_mem_none _)

theorem unbroken_class (file : String) (condition : Prop) [Decidable condition] :
    ∀ text ∈ (if condition then ["class"] else []), Unbroken file text := by
  intro text htext
  split at htext
  · rw [List.mem_singleton.mp htext]
    exact .of_all (by decide)
  · cases htext

/-- Of an entry with nothing but a name. -/
theorem Entry.onOneLine_of_name {file : String} {e : Entry} (hname : Unbroken file e.name)
    (hqualifier : e.qualifier = none) (hspecifiers : e.specifiers = []) : e.OnOneLine file where
  name := hname
  qualifier := hqualifier ▸ unbroken_none file
  specifiers := by simp [hspecifiers]

namespace Builder

/-- The headlines of all entries are on one line each. -/
def OnLines (file : String) (b : Builder) : Prop :=
  ∀ e ∈ b.entries, e.OnOneLine file

namespace OnLines

variable {file : String} {b b' : Builder} {e : Entry}

theorem modify (h : b.OnLines file) (id : EntryId) {f : Entry → Entry}
    (hf : ∀ e, e.OnOneLine file → (f e).OnOneLine file) : (b.modify id f).OnLines file := by
  intro e he
  obtain ⟨i, hi⟩ := Array.mem_iff_getElem?.mp he
  change entry? (b.modify id f) i = some e at hi
  rw [entry?_modify] at hi
  split at hi
  · obtain ⟨old, hold, rfl⟩ := Option.map_eq_some_iff.mp hi
    exact hf old (h old (Array.mem_of_getElem? hold))
  · exact h e (Array.mem_of_getElem? hi)

theorem of_documents (h : b.OnLines file) (hdocs : b.Documents b') : b'.OnLines file := by
  induction hdocs with
  | refl => exact h
  | tail _ hstep ih =>
    obtain ⟨id, text, rfl⟩ := hstep
    refine ih.modify id fun e he => ?_
    unfold Entry.addDoc
    split
    · exact he
    · split <;> exact ⟨he.name, he.qualifier, he.specifiers⟩

theorem close (h : b.OnLines file) (id : EntryId) (stop : Location) :
    (b.close id stop).OnLines file :=
  h.modify id fun _ he => ⟨he.name, he.qualifier, he.specifiers⟩

theorem pop (h : b.OnLines file) (stop : Location) : (b.pop stop).OnLines file := by
  unfold Builder.pop
  split
  · exact h.close _ stop
  · exact h

theorem popTimes (h : b.OnLines file) (stop : Location) (n : Nat) :
    (b.popTimes stop n).OnLines file := by
  induction n generalizing b with
  | zero => exact h
  | succ n ih => exact ih (h.pop stop)

theorem insert (h : b.OnLines file) (he : e.OnOneLine file) : (b.insert e).OnLines file := by
  have hnew : ∀ parent, Entry.OnOneLine file
      { e with id := b.nextId, file := b.file, parent, children := #[] } :=
    fun _ => ⟨he.name, he.qualifier, he.specifiers⟩
  intro x hx
  obtain ⟨i, hi⟩ := Array.mem_iff_getElem?.mp hx
  change entry? (b.insert e) i = some x at hi
  rw [entry?_insert] at hi
  split at hi
  · rw [← Option.some.inj hi]
    exact hnew _
  · split at hi
    · obtain ⟨old, hold, rfl⟩ := Option.map_eq_some_iff.mp hi
      have hx := h old (Array.mem_of_getElem? hold)
      exact ⟨hx.name, hx.qualifier, hx.specifiers⟩
    · exact h x (Array.mem_of_getElem? hi)

theorem push (h : b.OnLines file) (he : e.OnOneLine file) : (b.push e).OnLines file :=
  h.insert he

theorem addLeaf (h : b.OnLines file) (he : e.OnOneLine file) : (b.addLeaf e).OnLines file := by
  unfold Builder.addLeaf
  dsimp only
  split
  · exact (h.insert he).close _ _
  · exact h.push he

theorem foldl_addLeaf (h : b.OnLines file) {entries : List Entry}
    (hentries : ∀ e ∈ entries, e.OnOneLine file) :
    (entries.foldl Builder.addLeaf b).OnLines file := by
  induction entries generalizing b with
  | nil => exact h
  | cons e es ih =>
    obtain ⟨hfirst, hothers⟩ := List.forall_mem_cons.mp hentries
    exact ih (h.addLeaf hfirst) hothers

theorem withRoot (h : b.OnLines file) : b.withRoot.OnLines file := by
  unfold Builder.withRoot
  split
  · exact h
  · exact h.push (Entry.onOneLine_of_name (unbroken_empty file) rfl rfl)

theorem finish (h : b.OnLines file) (eof : Location) :
    ∀ e ∈ (b.finish eof).entries, e.OnOneLine file := by
  have hclosed := h.withRoot.popTimes eof b.withRoot.unclosed
  exact hclosed.modify 0 fun _ he => ⟨he.name, he.qualifier, he.specifiers⟩

end OnLines

end Builder

/-! ### Headers -/

theorem Cursor.Reaches.either {c d d' : Cursor} (hd : c.Reaches d) (hd' : c.Reaches d')
    (condition : Prop) [Decidable condition] : c.Reaches (if condition then d else d') := by
  split
  · exact hd
  · exact hd'

namespace Header

variable {file : String} {c d : Cursor} {h : Header}

theorem unbroken_classSpecifier (file : String) (c : Cursor) :
    ∀ text ∈ classSpecifier c, Unbroken file text :=
  unbroken_class file _

theorem unbroken_routineName {ts : List Token} (kind : EntryKind)
    (hts : ∀ t ∈ ts, Unbroken file t.text) : Unbroken file (routineName kind ts).name ∧
      ∀ qualifier ∈ (routineName kind ts).qualifier, Unbroken file qualifier := by
  unfold routineName
  split
  · exact Extent.unbroken_operatorName hts
  · exact Extent.unbroken_qualifiedName hts

theorem onOneLine_routine? (hc : c.Unbroken file) (hr : routine? c = some (h, d)) :
    h.toEntry.OnOneLine file := by
  simp only [routine?, Option.bind_eq_bind, Option.bind_eq_some_iff] at hr
  obtain ⟨kind, _, hr⟩ := hr
  obtain ⟨rfl, _⟩ := Prod.mk.inj (Option.some.inj hr)
  have hstart := ((Cursor.Reaches.refl c).passKeyword .class_).next
  obtain ⟨hname, hqualifier⟩ := unbroken_routineName kind (hc.of_reaches hstart).ahead
  refine ⟨hname, hqualifier, ?_⟩
  intro text htext
  rcases List.mem_append.mp htext with htext | htext
  · exact unbroken_classSpecifier file c text htext
  · refine (hc.of_reaches ?_).directives text htext
    refine Cursor.Reaches.passSymbol (Cursor.Reaches.passHeaderRest ?_) ";"
    exact Cursor.Reaches.typeExprAfter (((hstart.advance _).passGroup "(" ")").nextIf _) [":"] []

theorem onOneLine_property? (hc : c.Unbroken file) (hp : property? c = some (h, d)) :
    h.toEntry.OnOneLine file := by
  simp only [property?] at hp
  split at hp
  next =>
    obtain ⟨rfl, _⟩ := Prod.mk.inj (Option.some.inj hp)
    have hstart := ((Cursor.Reaches.refl c).passKeyword .class_).next
    have hname := hstart.nextIf (c.passKeyword .class_).next.atName
    have htype := (hname.passGroup "[" "]").typeExprAfter [":"] Extent.accessorWords
    refine ⟨(hc.of_reaches hstart).textUpTo _, unbroken_none file, ?_⟩
    intro text htext
    rcases List.mem_append.mp htext with htext | htext
    · rcases List.mem_append.mp htext with htext | htext
      · rcases List.mem_append.mp htext with htext | htext
        · exact unbroken_classSpecifier file c text htext
        · exact (hc.of_reaches htype).accessors text htext
      · rw [List.eq_of_mem_replicate htext]
        exact .of_all (by decide)
    · refine (hc.of_reaches ?_).directives text htext
      exact (htype.accessors.passHeaderRest.passSymbol ";").advance _
  next => cases hp

end Header

namespace State

/-- The headlines of all entries are on one line each. -/
def OnLines (file : String) (s : State) : Prop :=
  s.draft.builder.OnLines file

namespace OnLines

variable {file : String} {t : State} {e : Entry}

theorem ite {condition : Prop} [Decidable condition] {u : State} (ht : t.OnLines file)
    (hu : u.OnLines file) : (if condition then t else u).OnLines file := by
  split
  · exact ht
  · exact hu

/-! ### What makes no entry -/

theorem moveTo (h : t.OnLines file) (c : Cursor) : (t.moveTo c).OnLines file := h

theorem next (h : t.OnLines file) : t.next.OnLines file := h

theorem log (h : t.OnLines file) (event : Event) : (t.log event).OnLines file := h

theorem openBlock (h : t.OnLines file) (block : Block) : (t.openBlock block).OnLines file := h

theorem build (_ : t.OnLines file) {f : Builder → Builder}
    (hf : (f t.draft.builder).OnLines file) : (t.build f).OnLines file := hf

theorem documents (h : t.OnLines file) {d : Draft} (hd : t.draft.Documents d) :
    d.builder.OnLines file :=
  Builder.OnLines.of_documents h hd

theorem sync (h : t.OnLines file) : OnLines file { t with draft := t.draft.sync t.cursor } :=
  h.documents (t.draft.documents_sync t.cursor)

theorem nextTransparent (h : t.OnLines file) : t.nextTransparent.OnLines file :=
  h.documents ((t.draft.documents_sync _).trans (Draft.documents_skipTransparent _ _))

theorem skipAttribute (h : t.OnLines file) : t.skipAttribute.OnLines file :=
  h.documents ((t.draft.documents_sync _).trans (Draft.documents_skipTransparent _ _))

theorem takeLeading (h : t.OnLines file) : t.takeLeading.2.OnLines file :=
  h.documents (t.draft.documents_takeLeading t.cursor)

theorem itemDone (h : t.OnLines file) (ids : List EntryId) : (t.itemDone ids).OnLines file :=
  h.documents (t.draft.documents_itemDone t.cursor ids)

theorem checkName (h : t.OnLines file) (name : String) (kind : EntryKind) (place : Location) :
    (t.checkName name kind place).OnLines file :=
  ite h h

theorem setScope (h : t.OnLines file) (scope : Scope) : (t.setScope scope).OnLines file := by
  unfold State.setScope
  split
  · exact h
  · exact h

theorem setDecls (h : t.OnLines file) (decls : DeclPart) : (t.setDecls decls).OnLines file := by
  unfold State.setDecls
  split
  · exact h.setScope _
  · exact h.setScope _
  · exact h.setScope _
  · exact h

theorem usesClause (h : t.OnLines file) (module : EntryId) : (t.usesClause module).OnLines file :=
  Builder.OnLines.modify h module fun _ he => ⟨he.name, he.qualifier, he.specifiers⟩

theorem skipStatement (h : t.OnLines file) : t.skipStatement.OnLines file := h

/-! ### Entries -/

theorem addItem (h : t.OnLines file) (he : e.OnOneLine file) : (t.addItem e).OnLines file :=
  itemDone (t := t.build (·.addLeaf e)) (Builder.OnLines.addLeaf h he) _

theorem pushItem (h : t.OnLines file) (he : e.OnOneLine file) : (t.pushItem e).OnLines file :=
  itemDone (t := t.build (·.push e)) (Builder.OnLines.push h he) _

theorem openItem (h : t.OnLines file) (he : e.OnOneLine file) (scope : Scope) :
    (t.openItem e scope).OnLines file :=
  (h.pushItem he).openBlock _

theorem openSection (h : t.OnLines file) (ht : t.cursor.Unbroken file) :
    t.openSection.OnLines file := by
  refine (h.takeLeading.moveTo _).openItem (Entry.onOneLine_of_name ?_ rfl rfl) _
  exact ht.text.lowered

/-- The name of a module has its dots in it. -/
theorem moduleHeader (h : t.OnLines file) (ht : t.cursor.Unbroken file) (kind : EntryKind) :
    (t.moduleHeader kind).OnLines file := by
  obtain ⟨hname, hqualifier⟩ :=
    Extent.unbroken_qualifiedName (ht.of_reaches (Cursor.Reaches.refl _).next).ahead
  refine ((h.takeLeading.moveTo _).checkName _ _ _).pushItem
    (Entry.onOneLine_of_name ?_ rfl rfl)
  dsimp only
  split
  next qualifier hq =>
    exact ((hqualifier qualifier hq).append (.of_all (by decide))).append hname
  next => exact hname

/-! ### Routines and properties -/

theorem routineDecl (h : t.OnLines file) (ht : t.cursor.Unbroken file)
    (member : Option Visibility) : (t.routineDecl member).OnLines file := by
  unfold State.routineDecl
  dsimp only
  split
  next => exact h.takeLeading.next
  next header done hheader =>
    obtain ⟨hname, hqualifier, hspecifiers⟩ := Header.onOneLine_routine? ht hheader
    have hread := (h.takeLeading.moveTo done).checkName header.name header.kind header.nameAt
    refine ite (hread.addItem ?_) (hread.openItem ?_ _)
    · exact ⟨hname, hqualifier, hspecifiers⟩
    · exact ⟨hname, hqualifier, hspecifiers⟩

theorem propertyDecl (h : t.OnLines file) (ht : t.cursor.Unbroken file)
    (visibility : Visibility) : (t.propertyDecl visibility).OnLines file := by
  unfold State.propertyDecl
  dsimp only
  split
  next => exact h.takeLeading.next
  next header done hheader =>
    obtain ⟨hname, hqualifier, hspecifiers⟩ := Header.onOneLine_property? ht hheader
    exact ((h.takeLeading.moveTo done).checkName _ _ _).addItem ⟨hname, hqualifier, hspecifiers⟩

/-! ### Types -/

theorem forwardType (h : t.OnLines file) (he : e.OnOneLine file) (first : Cursor)
    (kind : EntryKind) : (t.forwardType first e kind).OnLines file :=
  (h.moveTo _).addItem ⟨he.name, he.qualifier, he.specifiers⟩

theorem containerType (h : t.OnLines file) (ht : t.cursor.Unbroken file)
    (he : e.OnOneLine file) (first : Cursor) (kind : EntryKind) :
    (t.containerType first e kind).OnLines file := by
  have hspecifiers :=
    Clause.unbroken_modifiers (ht.of_reaches (Cursor.Reaches.refl _).next).ahead
  unfold State.containerType
  dsimp only
  split
  · refine (h.moveTo _).addItem ?_
    exact ⟨he.name, he.qualifier, hspecifiers⟩
  · refine (h.moveTo _).openItem ?_ _
    exact ⟨he.name, he.qualifier, hspecifiers⟩

theorem plainType (h : t.OnLines file) (ht : t.cursor.Unbroken file) (he : e.OnOneLine file)
    (first : Cursor) : (t.plainType first e).OnLines file := by
  refine (h.moveTo _).addItem ⟨he.name, he.qualifier, ?_⟩
  exact (ht.of_reaches (((Cursor.Reaches.refl _).advance _).passSymbol ";")).directives

theorem foldl_enumValue (h : t.OnLines file) {values : List Clause.EnumValue}
    (hnames : ∀ value ∈ values, Unbroken file value.name) :
    (values.foldl enumValue t).OnLines file := by
  induction values generalizing t with
  | nil => exact h
  | cons value values ih =>
    obtain ⟨hname, hothers⟩ := List.forall_mem_cons.mp hnames
    refine ih (t := t.enumValue value) ?_ hothers
    have hread := takeLeading (t := t.moveTo value.before) h
    exact (hread.moveTo value.after).addItem (Entry.onOneLine_of_name hname rfl rfl)

theorem enumType (h : t.OnLines file) (ht : t.cursor.Unbroken file) (he : e.OnOneLine file)
    (first : Cursor) : (t.enumType first e).OnLines file := by
  have hnames : ∀ value ∈ (Clause.enumValues t.cursor.next).1, Unbroken file value.name := by
    intro value hvalue
    obtain ⟨u, hu, htext⟩ := Clause.exists_token_of_mem_enumValues _ value hvalue
    exact htext ▸ ht.of_reaches (Cursor.Reaches.refl _).next u hu
  -- The values are made while the type is open; then its texts are completed.
  have hopened := h.pushItem (e := { e with stop := t.cursor.location })
    ⟨he.name, he.qualifier, he.specifiers⟩
  have hvalues := hopened.foldl_enumValue hnames
  unfold State.enumType
  dsimp only
  refine itemDone (build (hvalues.moveTo _) (Builder.OnLines.pop ?_ _)) _
  exact Builder.OnLines.modify hvalues _ fun _ he => ⟨he.name, he.qualifier, he.specifiers⟩

theorem typeBody (h : t.OnLines file) (ht : t.cursor.Unbroken file) (he : e.OnOneLine file)
    (first : Cursor) : (t.typeBody first e).OnLines file := by
  have hforward := h.forwardType he first
  have hcontainer := h.containerType ht he first
  have hplain := h.plainType ht he first
  unfold State.typeBody
  dsimp only
  split
  · exact (hforward _).ite (hplain.ite (hcontainer _))
  · exact (hforward _).ite (hcontainer _)
  · exact (hforward _).ite (hcontainer _)
  · exact hcontainer _
  · exact hcontainer _
  · exact (h.enumType ht he first).ite hplain

theorem typeDecl (h : t.OnLines file) (ht : t.cursor.Unbroken file)
    (member : Option Visibility) : (t.typeDecl member).OnLines file := by
  have hfirst := (Cursor.Reaches.refl t.cursor).passWord "generic"
  unfold State.typeDecl
  dsimp only
  split
  next =>
    have he := Entry.onOneLine_of_name (e := {
      kind := .type_, name := (t.cursor.passWord "generic").text, doc := t.takeLeading.1
      start := t.cursor.location, visibility := member }) (ht.of_reaches hfirst).text rfl rfl
    refine ite ((h.takeLeading.moveTo _).typeBody (ht.of_reaches ?_) he _)
      (h.takeLeading.moveTo _)
    exact (((hfirst.next.advance _).nextIf _).passKeyword .type_).advance _
  next => exact h.takeLeading.moveTo _

/-! ### Values -/

theorem unbroken_specifiers {c d : Cursor} (hc : c.Unbroken file) (hd : c.Reaches d)
    (kind : EntryKind) (classField : Bool) :
    ∀ text ∈ (if classField then ["class"] else []) ++
      (if kind = .var then d.directives else ([], d)).1, Unbroken file text := by
  intro text htext
  rcases List.mem_append.mp htext with hclass | hdirective
  · exact unbroken_class file _ text hclass
  · split at hdirective
    · exact (hc.of_reaches hd).directives text hdirective
    · cases hdirective

/-- The entries of a declaration are called like its names and share the
    rest. -/
theorem valueDecl (h : t.OnLines file) (ht : t.cursor.Unbroken file) (kind : EntryKind)
    (member : Option Visibility) (classField : Bool) :
    (t.valueDecl kind member classField).OnLines file := by
  have hnames : ∀ u ∈ (Clause.declaredNames t.cursor.ahead).1, Unbroken file u.text := fun u hu =>
    ht u ((tokensBetween_declaredNames t.cursor rfl).mem_tokens u hu)
  have hnamed := (Cursor.Reaches.refl t.cursor).advance (Clause.declaredNames t.cursor.ahead).2
  have hvalue := (hnamed.typeExprAfter [":"] ["="]).typeExprAfter ["=", ":="] []
  -- The directives begin behind the semicolon, wherever the value ends.
  have hended (terminated : Bool) :=
    (hvalue.either (hvalue.passTypeExpr []) (terminated = true)).passSymbol ";"
  have hspecifiers (terminated : Bool) := unbroken_specifiers ht (hended terminated) kind classField
  unfold State.valueDecl
  dsimp only
  refine h.takeLeading.next.ite (itemDone (moveTo (build h.takeLeading ?_) _) _)
  refine Builder.OnLines.foldl_addLeaf h.takeLeading fun e he => ?_
  rcases List.mem_append.mp he with hother | hlast
  · obtain ⟨u, hu, rfl⟩ := List.mem_map.mp hother
    exact ⟨hnames u (List.dropLast_subset _ hu), unbroken_none file, hspecifiers _⟩
  · obtain ⟨u, hu, rfl⟩ := List.mem_map.mp hlast
    have hmem := List.mem_of_getLast? (Option.mem_toList.mp hu)
    exact ⟨hnames u hmem, unbroken_none file, hspecifiers _⟩

/-- The tag of a variant part is a name. -/
theorem variantPart (h : t.OnLines file) (ht : t.cursor.Unbroken file) (visibility : Visibility)
    (decls : DeclPart) : (t.variantPart visibility decls).OnLines file := by
  have htag := (ht.of_reaches (Cursor.Reaches.refl _).next).text
  unfold State.variantPart
  dsimp only
  refine (moveTo ?_ _).setDecls _
  split
  · exact (h.takeLeading.moveTo _).addItem (Entry.onOneLine_of_name htag rfl rfl)
  · exact h.moveTo _

/-! ### Closing -/

theorem closeTop (h : t.OnLines file) (stop : Location) : (t.closeTop stop).OnLines file := by
  unfold State.closeTop
  split
  · exact h
  · exact h
  · exact h
  · exact Builder.OnLines.pop h stop

theorem closeTimes (h : t.OnLines file) (stop : Location) (n : Nat) :
    (t.closeTimes stop n).OnLines file := by
  induction n generalizing t with
  | zero => exact h
  | succ n ih => exact ih (h.closeTop stop)

theorem closeToModule (h : t.OnLines file) : t.closeToModule.OnLines file := by
  have htimes := h.closeTimes t.cursor.prevStop
  unfold State.closeToModule
  exact (htimes _).ite ((htimes _).log _)

theorem closeContainers (h : t.OnLines file) : t.closeContainers.OnLines file :=
  (h.closeTimes _ _).log _

theorem closeAll (h : t.OnLines file) : t.closeAll.OnLines file :=
  h.closeTimes t.cursor.prevStop (t.blocks.length - 1)

theorem closeBodiless (h : t.OnLines file) : t.closeBodiless.OnLines file :=
  (h.log _).closeTop _

/-- What stands behind the `end` of a type is added to what is said of it. -/
theorem closeEntry (h : t.OnLines file) (ht : t.cursor.Unbroken file) (id : EntryId)
    (scope : Scope) : (t.closeEntry id scope).OnLines file := by
  unfold State.closeEntry
  dsimp only
  have hclosed : OnLines file { t with blocks := t.blocks.tail } := h
  refine itemDone (build (hclosed.moveTo _) (Builder.OnLines.pop ?_ _)) _
  refine Builder.OnLines.modify h id fun e he => ⟨he.name, he.qualifier, ?_⟩
  -- Only the end of a type has directives behind it.
  intro text htext
  rcases List.mem_append.mp htext with hold | hnew
  · exact he.specifiers text hold
  · split at hnew
    · exact ht.directives text hnew
    · cases hnew

theorem closeBlock (h : t.OnLines file) (ht : t.cursor.Unbroken file) :
    t.closeBlock.OnLines file := by
  have hpassed := h.sync.next
  unfold State.closeBlock
  dsimp only
  refine (h.sync.moveTo _).closeAll.ite ?_
  split
  · exact hpassed
  · split
    · exact hpassed.log _
    · exact hpassed.closeEntry (ht.of_reaches (Cursor.Reaches.refl _).next) _ _
  · exact hpassed.log _

/-! ### Steps -/

section Step

variable (h : t.OnLines file) (ht : t.cursor.Unbroken file)
include h ht

theorem nameStep (decls : DeclPart) : (t.nameStep decls).OnLines file := by
  unfold State.nameStep
  split
  · exact h.typeDecl ht _
  · exact h.valueDecl ht _ _ _
  · exact h.valueDecl ht _ _ _
  · exact h.next

theorem plainStep (decls : DeclPart) : (t.plainStep decls).OnLines file := by
  unfold State.plainStep
  exact h.skipAttribute.ite ((h.nameStep ht decls).ite h.next)

theorem memberNameStep (visibility : Visibility) (decls : DeclPart) :
    (t.memberNameStep visibility decls).OnLines file := by
  unfold State.memberNameStep
  split
  · exact h.typeDecl ht _
  · exact h.valueDecl ht _ _ _
  · exact h.valueDecl ht _ _ _
  · exact h.next
  · exact h.valueDecl ht _ _ _

omit ht in
theorem memberSymbolStep (decls : DeclPart) : (t.memberSymbolStep decls).OnLines file := by
  unfold State.memberSymbolStep
  split
  · exact (h.setDecls _).next.ite ((h.setDecls _).next.ite h.next)
  · exact h.next

theorem plainMemberStep (visibility : Visibility) (decls : DeclPart) :
    (t.plainMemberStep visibility decls).OnLines file := by
  unfold State.plainMemberStep
  exact h.skipAttribute.ite ((h.memberNameStep ht visibility decls).ite (h.memberSymbolStep decls))

theorem moduleStep (id : EntryId) (decls : DeclPart) : (t.moduleStep id decls).OnLines file := by
  unfold State.moduleStep
  split
  · exact h.nextTransparent.setScope _
  · exact h.nextTransparent.setScope _
  · exact h.usesClause id
  · exact h.usesClause id
  · exact h.usesClause id
  · exact h.nextTransparent.setDecls _
  · exact h.nextTransparent.setDecls _
  · exact h.nextTransparent.setDecls _
  · exact h.nextTransparent.setDecls _
  · exact h.nextTransparent.setDecls _
  · exact h.skipStatement.setDecls _
  · exact h.skipStatement.setDecls _
  · exact h.openSection ht
  · exact h.openSection ht
  · exact h.next.openBlock _
  · exact h.next.openBlock _
  · exact h.closeBlock ht
  · exact (h.routineDecl ht none).ite h.next
  · exact (h.routineDecl ht none).ite h.next
  · exact h.plainStep ht decls

omit ht in
theorem visibilityStep (kind : EntryKind) (visibility : Visibility) :
    (t.visibilityStep kind visibility).OnLines file := by
  unfold State.visibilityStep
  exact ((h.nextTransparent.ite h).nextTransparent).setScope _

theorem classWordStep (visibility : Visibility) : (t.classWordStep visibility).OnLines file := by
  unfold State.classWordStep
  exact (h.nextTransparent.nextTransparent.setDecls _).ite
    ((h.propertyDecl ht visibility).ite ((h.routineDecl ht _).ite h.next))

theorem memberStep (kind : EntryKind) (visibility : Visibility) (decls : DeclPart) :
    (t.memberStep kind visibility decls).OnLines file := by
  unfold State.memberStep
  split
  · exact h.nextTransparent.setDecls _
  · exact h.classWordStep ht visibility
  · exact h.nextTransparent.setDecls _
  · exact h.nextTransparent.setDecls _
  · exact h.propertyDecl ht visibility
  · exact (h.variantPart ht visibility decls).ite h.next
  · exact h.closeBlock ht
  · exact h.closeToModule
  · exact h.closeToModule
  · exact h.closeToModule
  · exact h.closeContainers
  · exact (h.routineDecl ht _).ite h.next
  · exact h.plainMemberStep ht visibility decls

theorem containerStep (kind : EntryKind) (visibility : Visibility) (decls : DeclPart) :
    (t.containerStep kind visibility decls).OnLines file := by
  unfold State.containerStep
  split
  · exact h.visibilityStep kind _
  · exact h.memberStep ht kind visibility decls

theorem routineStep (decls : DeclPart) : (t.routineStep decls).OnLines file := by
  unfold State.routineStep
  split
  · exact h.next.setScope _
  · exact h.next.setScope _
  · exact h.nextTransparent.setDecls _
  · exact h.nextTransparent.setDecls _
  · exact h.nextTransparent.setDecls _
  · exact h.nextTransparent.setDecls _
  · exact h.nextTransparent.setDecls _
  · exact h.skipStatement
  · exact (h.routineDecl ht none).ite h.next
  · exact h.closeBodiless
  · exact h.closeToModule
  · exact h.closeToModule
  · exact h.closeToModule
  · exact (h.routineDecl ht none).ite h.next
  · exact h.plainStep ht decls

theorem statementStep : t.statementStep.OnLines file := by
  unfold State.statementStep
  split
  · exact h.next.openBlock _
  · exact h.next.openBlock _
  · exact h.next.openBlock _
  · exact h.next.openBlock _
  · exact h.next.openBlock _
  · exact h.closeBlock ht
  · exact h.closeToModule
  · exact h.closeToModule
  · exact h.closeToModule
  · exact h.next

theorem asmStep : t.asmStep.OnLines file := by
  unfold State.asmStep
  exact (h.closeBlock ht).ite h.next

/-- The step lemma. -/
theorem step : t.step.OnLines file := by
  unfold State.step
  split
  · exact h
  · exact (h.asmStep ht).ite (h.statementStep ht)
  · split
    · exact h.moduleStep ht _ _
    · exact h.containerStep ht _ _ _
    · exact h.routineStep ht _
    · exact h.statementStep ht
    · exact h.asmStep ht
    · exact h.statementStep ht

end Step

end OnLines

/-! ### A run -/

section Run

variable (options : Options) (file : String)

/-- The root of a source without a module header is called after the file. -/
theorem onLines_root (nested : Bool) (source : String) :
    (root options file (Lexer.lex nested source)).OnLines file := by
  have hempty : (initial options file (Lexer.lex nested source)).OnLines file := fun _ he => by
    cases Array.not_mem_empty _ he
  have hstem : Unbroken file ((Path.stem? file).getD file) := .of_subset (Path.stem_subset file)
  unfold root makeRoot
  dsimp only
  split
  next kind _ =>
    have hcursor := Cursor.unbroken_ofLexemes file nested source
    exact (hempty.moduleHeader hcursor kind).openBlock _
  next =>
    refine OnLines.openBlock (hempty.build (Builder.OnLines.push hempty ?_)) _
    exact Entry.onOneLine_of_name hstem rfl rfl

/-- The run lemma. -/
theorem Reachable.onLines {nested : Bool} {source : String} {s : State}
    (h : Reachable options file (Lexer.lex nested source) s) :
    s.OnLines file ∧ s.cursor.Unbroken file := by
  have hlexed := Cursor.unbroken_ofLexemes file nested source
  induction h with
  | root => exact ⟨onLines_root options file nested source, hlexed.of_reaches (reaches_root ..)⟩
  | step _ hcontinues ih =>
    obtain ⟨hlines, hcursor⟩ := ih
    have hreaches := (effect_step_of_not_finished hcontinues).builds.reaches
    exact ⟨hlines.step hcursor, hcursor.of_reaches hreaches⟩

end Run

end State

/-- The headline of an entry is on one line, but for the file name. -/
theorem onOneLine_scan (options : Options) (file source : String) :
    ∀ e ∈ (scan options file source).outline.entries, e.OnOneLine file := by
  have hrun := (State.reachable_run options file (Lexer.lex options.nestedComments source)).onLines
  have hfinished := hrun.1.documents (State.documents_finish _)
  exact hfinished.finish _

end PascalOutline
