import PascalOutline.Proofs.Outline.Title
import PascalOutline.Proofs.Prototype

/-! # Who names what

  Most declarations begin with their name, so they are only read where there
  is one: what the recognizer makes of a type, of values, of the values of an
  enumeration or of a section has a name, and nothing is reported. A name can
  be missing only behind a keyword, in the header of a module, a routine or a
  property, which reports it and makes the entry at once.

  `State.Reads` says this of a step: it is quiet, or it reads the header of a
  routine or of a property.
-/

namespace PascalOutline

/-! ### Tokens have texts -/

namespace Cursor

variable {c d : Cursor}

/-- No token of the source is empty. -/
def Worded (c : Cursor) : Prop :=
  ∀ t ∈ c.tokens, t.text ≠ ""

theorem worded_ofLexemes (nested : Bool) (source : String) :
    (ofLexemes (Lexer.lex nested source)).Worded :=
  fun _ ht => text_ne_empty_of_mem_ofLexemes ht

theorem Worded.of_reaches (h : c.Worded) (hcd : c.Reaches d) : d.Worded := by
  unfold Worded
  rw [hcd.tokens_eq]
  exact h

theorem Worded.text_ne (h : c.Worded) (hahead : c.ahead ≠ []) : c.text ≠ "" := by
  obtain ⟨t, ts, hts⟩ := List.exists_cons_of_ne_nil hahead
  have hpeek : c.nth? 0 = some t := peek?_eq_some_iff.mpr ⟨ts, hts⟩
  rw [text, nthText, hpeek]
  exact h t (mem_tokens_of_peek? hpeek)

end Cursor

theorem TokensBetween.mem_tokens {c d : Cursor} {ts : List Token} (h : TokensBetween c ts d) :
    ∀ t ∈ ts, t ∈ c.tokens := by
  induction h with
  | nil _ =>
    intro t ht
    cases ht
  | cons before here _ ih =>
    intro u hu
    rcases List.mem_cons.mp hu with rfl | hu
    · rw [← before.tokens_eq]
      exact Cursor.mem_tokens_of_peek? here
    · rw [← before.next.tokens_eq]
      exact ih u hu

theorem lowered_ne_empty {s : String} (h : s ≠ "") : lowered s ≠ "" := by
  intro hempty
  have hlist := congrArg String.toList hempty
  rw [toList_lowered] at hlist
  exact h (String.toList_eq_nil_iff.mp (List.map_eq_nil_iff.mp hlist))

/-- The values of an enumeration are named by tokens of the source. -/
theorem Clause.exists_token_of_mem_enumValues (c : Cursor) :
    ∀ value ∈ (enumValues c).1, ∃ t ∈ c.tokens, t.text = value.name := by
  fun_induction enumValues c with
  | case1 | case2 | case3 =>
    intro value hvalue
    cases hvalue
  | case4 c t ts hahead _ _ _ typed after others ih =>
    intro value hvalue
    rcases List.mem_cons.mp hvalue with rfl | hvalue
    · exact ⟨t, Cursor.mem_tokens_of_peek? (peek?_eq_some_iff.mpr ⟨ts, hahead⟩), rfl⟩
    · have hreaches : c.Reaches after :=
        ((Cursor.Reaches.refl c).next.typeExprAfter ["=", ":="] [","]).passSymbol ","
      exact hreaches.tokens_eq ▸ ih value hvalue
  | case5 c t ts hahead _ _ _ ih => exact (Cursor.Reaches.refl c).next.tokens_eq ▸ ih

namespace State

variable {s t : State}

/-- From `s` to `t` nothing was reported, and every entry that was made has a
    name. -/
structure Quiet (s t : State) : Prop where
  /-- Nothing was reported. -/
  diagnostics : t.diagnostics = s.diagnostics
  /-- The same names are missing. -/
  nameless : t.draft.builder.nameless = s.draft.builder.nameless

namespace Quiet

variable {e : Entry}

theorem refl (s : State) : s.Quiet s :=
  ⟨rfl, rfl⟩

theorem ite {condition : Prop} [Decidable condition] {u : State} (ht : s.Quiet t)
    (hu : s.Quiet u) : s.Quiet (if condition then t else u) := by
  split
  · exact ht
  · exact hu

/-! ### What makes no entry -/

theorem moveTo (h : s.Quiet t) (c : Cursor) : s.Quiet (t.moveTo c) :=
  ⟨h.diagnostics, h.nameless⟩

theorem next (h : s.Quiet t) : s.Quiet t.next :=
  h.moveTo _

theorem log (h : s.Quiet t) (event : Event) : s.Quiet (t.log event) :=
  ⟨h.diagnostics, h.nameless⟩

theorem openBlock (h : s.Quiet t) (block : Block) : s.Quiet (t.openBlock block) :=
  ⟨h.diagnostics, h.nameless⟩

theorem documents (h : s.Quiet t) {d : Draft} (hd : t.draft.Documents d) (c : Cursor) :
    s.Quiet { t with cursor := c, draft := d } :=
  ⟨h.diagnostics, (Builder.nameless_congr (Builder.Documents.titles_eq hd)).trans h.nameless⟩

theorem build (h : s.Quiet t) {f : Builder → Builder}
    (hf : (f t.draft.builder).nameless = t.draft.builder.nameless) : s.Quiet (t.build f) :=
  ⟨h.diagnostics, hf.trans h.nameless⟩

theorem sync (h : s.Quiet t) : s.Quiet { t with draft := t.draft.sync t.cursor } :=
  h.documents (t.draft.documents_sync t.cursor) t.cursor

theorem nextTransparent (h : s.Quiet t) : s.Quiet t.nextTransparent :=
  h.documents ((t.draft.documents_sync _).trans (Draft.documents_skipTransparent _ _)) _

theorem skipAttribute (h : s.Quiet t) : s.Quiet t.skipAttribute :=
  h.documents ((t.draft.documents_sync _).trans (Draft.documents_skipTransparent _ _)) _

theorem takeLeading (h : s.Quiet t) : s.Quiet t.takeLeading.2 :=
  h.documents (t.draft.documents_takeLeading t.cursor) t.cursor

theorem itemDone (h : s.Quiet t) (ids : List EntryId) : s.Quiet (t.itemDone ids) :=
  h.documents (t.draft.documents_itemDone t.cursor ids) t.cursor

theorem setScope (h : s.Quiet t) (scope : Scope) : s.Quiet (t.setScope scope) := by
  unfold State.setScope
  split
  · exact ⟨h.diagnostics, h.nameless⟩
  · exact h

theorem setDecls (h : s.Quiet t) (decls : DeclPart) : s.Quiet (t.setDecls decls) := by
  unfold State.setDecls
  split
  · exact h.setScope _
  · exact h.setScope _
  · exact h.setScope _
  · exact h

theorem usesClause (h : s.Quiet t) (module : EntryId) : s.Quiet (t.usesClause module) := by
  unfold State.usesClause
  refine (h.moveTo _).build (Builder.nameless_congr ?_)
  exact Builder.titles_modify _ module fun _ => rfl

theorem skipStatement (h : s.Quiet t) : s.Quiet t.skipStatement :=
  h.moveTo _

/-! ### Entries with a name -/

theorem addItem (h : s.Quiet t) (hname : e.name ≠ "") : s.Quiet (t.addItem e) :=
  (h.build (Builder.nameless_addLeaf _ hname)).itemDone _

theorem pushItem (h : s.Quiet t) (hname : e.name ≠ "") : s.Quiet (t.pushItem e) :=
  (h.build (Builder.nameless_push _ hname)).itemDone _

theorem openItem (h : s.Quiet t) (hname : e.name ≠ "") (scope : Scope) :
    s.Quiet (t.openItem e scope) :=
  (h.pushItem hname).openBlock _

/-- A section is called like the word that begins it. -/
theorem openSection (h : s.Quiet t) (ht : t.cursor.Worded) (hahead : t.cursor.ahead ≠ []) :
    s.Quiet t.openSection :=
  (h.takeLeading.moveTo _).openItem (lowered_ne_empty (ht.text_ne hahead)) _

/-! ### Types -/

theorem forwardType (h : s.Quiet t) (hname : e.name ≠ "") (first : Cursor) (kind : EntryKind) :
    s.Quiet (t.forwardType first e kind) := by
  unfold State.forwardType
  exact (h.moveTo _).addItem hname

theorem containerType (h : s.Quiet t) (hname : e.name ≠ "") (first : Cursor) (kind : EntryKind) :
    s.Quiet (t.containerType first e kind) := by
  unfold State.containerType
  dsimp only
  split
  · exact (h.moveTo _).addItem hname
  · refine (h.moveTo _).openItem ?_ _
    exact hname

theorem plainType (h : s.Quiet t) (hname : e.name ≠ "") (first : Cursor) :
    s.Quiet (t.plainType first e) := by
  unfold State.plainType
  exact (h.moveTo _).addItem hname

theorem foldl_enumValue (h : s.Quiet t) {values : List Clause.EnumValue}
    (hnames : ∀ value ∈ values, value.name ≠ "") : s.Quiet (values.foldl enumValue t) := by
  induction values generalizing t with
  | nil => exact h
  | cons value values ih =>
    obtain ⟨hname, hothers⟩ := List.forall_mem_cons.mp hnames
    have hvalue : s.Quiet (t.enumValue value) := by
      unfold enumValue
      exact ((h.moveTo _).takeLeading.moveTo _).addItem hname
    exact ih hvalue hothers

theorem enumType (h : s.Quiet t) (ht : t.cursor.Worded) (hname : e.name ≠ "") (first : Cursor) :
    s.Quiet (t.enumType first e) := by
  have hnames : ∀ value ∈ (Clause.enumValues t.cursor.next).1, value.name ≠ "" := by
    intro value hvalue
    obtain ⟨u, hu, htext⟩ := Clause.exists_token_of_mem_enumValues _ value hvalue
    exact htext ▸ ht.of_reaches (Cursor.Reaches.refl _).next u hu
  unfold State.enumType
  dsimp only
  refine Quiet.itemDone (Quiet.build (((h.pushItem ?_).foldl_enumValue hnames).moveTo _) ?_) _
  · exact hname
  · refine Builder.nameless_congr ((Builder.titles_pop _ _).trans ?_)
    exact Builder.titles_modify _ _ fun _ => rfl

theorem typeBody (h : s.Quiet t) (ht : t.cursor.Worded) (hname : e.name ≠ "") (first : Cursor) :
    s.Quiet (t.typeBody first e) := by
  have hforward := h.forwardType hname first
  have hcontainer := h.containerType hname first
  have hplain := h.plainType hname first
  unfold State.typeBody
  dsimp only
  split
  · exact (hforward _).ite (hplain.ite (hcontainer _))
  · exact (hforward _).ite (hcontainer _)
  · exact (hforward _).ite (hcontainer _)
  · exact hcontainer _
  · exact hcontainer _
  · exact (h.enumType ht hname first).ite hplain

/-- A type is declared only where its name stands. -/
theorem typeDecl (h : s.Quiet t) (ht : t.cursor.Worded) (member : Option Visibility) :
    s.Quiet (t.typeDecl member) := by
  have hfirst := (Cursor.Reaches.refl t.cursor).passWord "generic"
  unfold State.typeDecl
  dsimp only
  split
  next hname =>
    have htext := (ht.of_reaches hfirst).text_ne (Cursor.ahead_of_atName hname)
    refine Quiet.ite ((h.takeLeading.moveTo _).typeBody (ht.of_reaches ?_) htext _)
      (h.takeLeading.moveTo _)
    exact (((hfirst.next.advance _).nextIf _).passKeyword .type_).advance _
  next => exact h.takeLeading.moveTo _

/-! ### Values -/

/-- Values are declared by their names. -/
theorem valueDecl (h : s.Quiet t) (ht : t.cursor.Worded) (kind : EntryKind)
    (member : Option Visibility) (classField : Bool) :
    s.Quiet (t.valueDecl kind member classField) := by
  have hnames : ∀ u ∈ (Clause.declaredNames t.cursor.ahead).1, u.text ≠ "" := fun u hu =>
    ht u ((tokensBetween_declaredNames t.cursor rfl).mem_tokens u hu)
  unfold State.valueDecl
  dsimp only
  refine h.takeLeading.next.ite (Quiet.itemDone (Quiet.moveTo (Quiet.build h.takeLeading ?_) _) _)
  refine Builder.nameless_foldl_addLeaf _ fun e he => ?_
  -- Each entry is called like one of the tokens.
  rcases List.mem_append.mp he with hother | hlast
  · obtain ⟨u, hu, rfl⟩ := List.mem_map.mp hother
    exact hnames u (List.dropLast_subset _ hu)
  · obtain ⟨u, hu, rfl⟩ := List.mem_map.mp hlast
    exact hnames u (List.mem_of_getLast? (Option.mem_toList.mp hu))

theorem variantPart (h : s.Quiet t) (ht : t.cursor.Worded) (visibility : Visibility)
    (decls : DeclPart) : s.Quiet (t.variantPart visibility decls) := by
  unfold State.variantPart
  dsimp only
  refine (Quiet.moveTo ?_ _).setDecls _
  split
  next htag =>
    have hahead := Cursor.ahead_next_of_nthIsName (Bool.and_eq_true_iff.mp htag).1
    have htext := (ht.of_reaches (Cursor.Reaches.refl _).next).text_ne hahead
    exact (h.takeLeading.moveTo _).addItem htext
  next => exact h.moveTo _

/-! ### Closing -/

theorem closeTop (h : s.Quiet t) (stop : Location) : s.Quiet (t.closeTop stop) := by
  unfold State.closeTop
  split
  · exact h
  · exact ⟨h.diagnostics, h.nameless⟩
  · exact h
  · have hpopped := Builder.nameless_congr (t.draft.builder.titles_pop stop)
    exact ⟨h.diagnostics, hpopped.trans h.nameless⟩

theorem closeTimes (h : s.Quiet t) (stop : Location) (n : Nat) : s.Quiet (t.closeTimes stop n) := by
  induction n generalizing t with
  | zero => exact h
  | succ n ih => exact ih (h.closeTop stop)

theorem closeToModule (h : s.Quiet t) : s.Quiet t.closeToModule := by
  have htimes := h.closeTimes t.cursor.prevStop
  unfold State.closeToModule
  exact (htimes _).ite ((htimes _).log _)

theorem closeContainers (h : s.Quiet t) : s.Quiet t.closeContainers :=
  (h.closeTimes _ _).log _

theorem closeAll (h : s.Quiet t) : s.Quiet t.closeAll :=
  have htimes := h.closeTimes t.cursor.prevStop (t.blocks.length - 1)
  ⟨htimes.diagnostics, htimes.nameless⟩

theorem closeBodiless (h : s.Quiet t) : s.Quiet t.closeBodiless :=
  (h.log _).closeTop _

theorem closeEntry (h : s.Quiet t) (id : EntryId) (scope : Scope) :
    s.Quiet (t.closeEntry id scope) := by
  have hblocks : s.Quiet { t with blocks := t.blocks.tail } := ⟨h.diagnostics, h.nameless⟩
  unfold State.closeEntry
  refine Quiet.itemDone (Quiet.build (hblocks.moveTo _) (Builder.nameless_congr ?_)) _
  rw [Builder.titles_pop]
  exact Builder.titles_modify _ id fun _ => rfl

theorem closeBlock (h : s.Quiet t) : s.Quiet t.closeBlock := by
  have hpassed := h.sync.next
  unfold State.closeBlock
  dsimp only
  refine (h.sync.moveTo _).closeAll.ite ?_
  split
  · exact ⟨hpassed.diagnostics, hpassed.nameless⟩
  · split
    · exact hpassed.log _
    · exact hpassed.closeEntry _ _
  · exact hpassed.log _

end Quiet

/-! ### Steps -/

/-- What a step from `s` leads to: it is quiet, or it reads the header of a
    routine or of a property. -/
inductive Reads (s : State) : State → Prop where
  /-- Nothing is reported. -/
  | quiet {t : State} (h : s.Quiet t) : Reads s t
  /-- A routine, whose name may be missing. -/
  | routine (member : Option Visibility) : Reads s (s.routineDecl member)
  /-- A property, whose name may be missing. -/
  | property (visibility : Visibility) : Reads s (s.propertyDecl visibility)

namespace Reads

theorem ite {condition : Prop} [Decidable condition] {u : State} (ht : s.Reads t)
    (hu : s.Reads u) : s.Reads (if condition then t else u) := by
  split
  · exact ht
  · exact hu

end Reads

section Step

variable (hs : s.cursor.Worded)
include hs

theorem quiet_nameStep (decls : DeclPart) : s.Quiet (s.nameStep decls) := by
  have h := Quiet.refl s
  unfold nameStep
  split
  · exact h.typeDecl hs _
  · exact h.valueDecl hs _ _ _
  · exact h.valueDecl hs _ _ _
  · exact h.next

theorem quiet_plainStep (decls : DeclPart) : s.Quiet (s.plainStep decls) := by
  have h := Quiet.refl s
  unfold plainStep
  exact h.skipAttribute.ite ((quiet_nameStep hs decls).ite h.next)

theorem quiet_memberNameStep (visibility : Visibility) (decls : DeclPart) :
    s.Quiet (s.memberNameStep visibility decls) := by
  have h := Quiet.refl s
  unfold memberNameStep
  split
  · exact h.typeDecl hs _
  · exact h.valueDecl hs _ _ _
  · exact h.valueDecl hs _ _ _
  · exact h.next
  · exact h.valueDecl hs _ _ _

omit hs in
theorem quiet_memberSymbolStep (decls : DeclPart) : s.Quiet (s.memberSymbolStep decls) := by
  have h := Quiet.refl s
  unfold memberSymbolStep
  split
  · exact (h.setDecls _).next.ite ((h.setDecls _).next.ite h.next)
  · exact h.next

theorem quiet_plainMemberStep (visibility : Visibility) (decls : DeclPart) :
    s.Quiet (s.plainMemberStep visibility decls) := by
  unfold plainMemberStep
  exact (Quiet.refl s).skipAttribute.ite
    ((quiet_memberNameStep hs visibility decls).ite (quiet_memberSymbolStep decls))

theorem reads_moduleStep (hahead : s.cursor.ahead ≠ []) (id : EntryId) (decls : DeclPart) :
    s.Reads (s.moduleStep id decls) := by
  have h := Quiet.refl s
  unfold moduleStep
  split
  · exact .quiet (h.nextTransparent.setScope _)
  · exact .quiet (h.nextTransparent.setScope _)
  · exact .quiet (h.usesClause id)
  · exact .quiet (h.usesClause id)
  · exact .quiet (h.usesClause id)
  · exact .quiet (h.nextTransparent.setDecls _)
  · exact .quiet (h.nextTransparent.setDecls _)
  · exact .quiet (h.nextTransparent.setDecls _)
  · exact .quiet (h.nextTransparent.setDecls _)
  · exact .quiet (h.nextTransparent.setDecls _)
  · exact .quiet (h.skipStatement.setDecls _)
  · exact .quiet (h.skipStatement.setDecls _)
  · exact .quiet (h.openSection hs hahead)
  · exact .quiet (h.openSection hs hahead)
  · exact .quiet (h.next.openBlock _)
  · exact .quiet (h.next.openBlock _)
  · exact .quiet h.closeBlock
  · exact (Reads.routine none).ite (.quiet h.next)
  · exact (Reads.routine none).ite (.quiet h.next)
  · exact .quiet (quiet_plainStep hs decls)

omit hs in
theorem quiet_visibilityStep (s : State) (kind : EntryKind) (visibility : Visibility) :
    s.Quiet (s.visibilityStep kind visibility) := by
  have h := Quiet.refl s
  unfold visibilityStep
  exact ((h.nextTransparent.ite h).nextTransparent).setScope _

omit hs in
theorem reads_classWordStep (s : State) (visibility : Visibility) :
    s.Reads (s.classWordStep visibility) := by
  have h := Quiet.refl s
  unfold classWordStep
  exact (Reads.quiet (h.nextTransparent.nextTransparent.setDecls _)).ite
    ((Reads.property visibility).ite ((Reads.routine _).ite (.quiet h.next)))

theorem reads_memberStep (kind : EntryKind) (visibility : Visibility) (decls : DeclPart) :
    s.Reads (s.memberStep kind visibility decls) := by
  have h := Quiet.refl s
  unfold memberStep
  split
  · exact .quiet (h.nextTransparent.setDecls _)
  · exact s.reads_classWordStep visibility
  · exact .quiet (h.nextTransparent.setDecls _)
  · exact .quiet (h.nextTransparent.setDecls _)
  · exact .property visibility
  · exact .quiet ((h.variantPart hs visibility decls).ite h.next)
  · exact .quiet h.closeBlock
  · exact .quiet h.closeToModule
  · exact .quiet h.closeToModule
  · exact .quiet h.closeToModule
  · exact .quiet h.closeContainers
  · exact (Reads.routine _).ite (.quiet h.next)
  · exact .quiet (quiet_plainMemberStep hs visibility decls)

theorem reads_containerStep (kind : EntryKind) (visibility : Visibility) (decls : DeclPart) :
    s.Reads (s.containerStep kind visibility decls) := by
  unfold containerStep
  split
  · exact .quiet (s.quiet_visibilityStep kind _)
  · exact reads_memberStep hs kind visibility decls

theorem reads_routineStep (decls : DeclPart) : s.Reads (s.routineStep decls) := by
  have h := Quiet.refl s
  unfold routineStep
  split
  · exact .quiet (h.next.setScope _)
  · exact .quiet (h.next.setScope _)
  · exact .quiet (h.nextTransparent.setDecls _)
  · exact .quiet (h.nextTransparent.setDecls _)
  · exact .quiet (h.nextTransparent.setDecls _)
  · exact .quiet (h.nextTransparent.setDecls _)
  · exact .quiet (h.nextTransparent.setDecls _)
  · exact .quiet h.skipStatement
  · exact (Reads.routine none).ite (.quiet h.next)
  · exact .quiet h.closeBodiless
  · exact .quiet h.closeToModule
  · exact .quiet h.closeToModule
  · exact .quiet h.closeToModule
  · exact (Reads.routine none).ite (.quiet h.next)
  · exact .quiet (quiet_plainStep hs decls)

omit hs in
theorem quiet_statementStep (s : State) : s.Quiet s.statementStep := by
  have h := Quiet.refl s
  unfold statementStep
  split
  · exact h.next.openBlock _
  · exact h.next.openBlock _
  · exact h.next.openBlock _
  · exact h.next.openBlock _
  · exact h.next.openBlock _
  · exact h.closeBlock
  · exact h.closeToModule
  · exact h.closeToModule
  · exact h.closeToModule
  · exact h.next

omit hs in
theorem quiet_asmStep (s : State) : s.Quiet s.asmStep := by
  unfold asmStep
  exact (Quiet.refl s).closeBlock.ite (Quiet.refl s).next

/-- The step lemma. -/
theorem reads_step (hahead : s.cursor.ahead ≠ []) : s.Reads s.step := by
  unfold step
  split
  · exact .quiet ⟨rfl, rfl⟩
  · exact .quiet (s.quiet_asmStep.ite s.quiet_statementStep)
  · split
    · exact reads_moduleStep hs hahead _ _
    · exact reads_containerStep hs _ _ _
    · exact reads_routineStep hs _
    · exact .quiet s.quiet_statementStep
    · exact .quiet s.quiet_asmStep
    · exact .quiet s.quiet_statementStep

end Step

end State

end PascalOutline
