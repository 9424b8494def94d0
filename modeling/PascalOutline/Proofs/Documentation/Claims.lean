import PascalOutline.Proofs.Documentation.Trailing

/-! # Claims on comments

  A draft examines a comment long after the item before it was made. Until then
  the item has a claim on it: it is the last item of the draft, and it ended on
  the line (`Draft.Claims`). `Draft.Attends` says that every comment that trails
  an item and was not examined is claimed, and `Draft.Settled` that there is no
  such comment. There is one lemma for each function of a draft.
-/

namespace PascalOutline

/-! ### Examining lexemes -/

namespace Draft

/-- An item may still get what trails it: it is the last one, and it ended on
    the line. -/
def Claims (d : Draft) (o : EntryId) (line : Nat) : Prop :=
  ∃ item, d.lastItem = some item ∧ o ∈ item.ids ∧ item.line = line

/-- What trails an item went to its recipient, or it will go there. -/
structure Attends (options : Options) (lexemes : List Lexeme) (place : Nat) (d : Draft) : Prop where
  /-- The draft reads comments under the options. -/
  reads : d.options = options
  /-- The items end before the place. -/
  past : d.builder.Past lexemes place
  /-- What was examined is where it belongs, the rest is claimed. -/
  attended : d.builder.Attended options lexemes place d.Claims

section Examine

variable {options : Options} {lexemes : List Lexeme} {place : Nat} {d d' : Draft} {l : Lexeme}
variable {c : Cursor} {ids : List EntryId} {claims : EntryId → Nat → Prop}

theorem sameItems_of_documents (h : d.Documents d') : d.builder.SameItems d'.builder :=
  Builder.sameItems_of_closed (Builder.closed?_of_documents h)

theorem options_takeUp (d : Draft) (doc : DocComment) : (d.takeUp doc).options = d.options := by
  unfold takeUp hold
  repeat' split
  all_goals rfl

theorem lastItem_takeUp (d : Draft) (doc : DocComment) : (d.takeUp doc).lastItem = d.lastItem := by
  unfold takeUp hold
  repeat' split
  all_goals rfl

theorem isPiece_addDoc {o : EntryId} (ho : o ∈ ids) (hsize : o < d.builder.entries.size)
    {text : String} (hne : text ≠ "") : IsPiece text ((d.addDoc ids text).builder.docOf o) :=
  Builder.isPiece_foldl_addDoc ho d.builder hsize hne

/-- A comment that trails the last item is added to it. -/
theorem takeUp_eq_addDoc {o : EntryId} {doc : DocComment} (h : d.Claims o doc.line) :
    ∃ item : LastItem, o ∈ item.ids ∧ d.takeUp doc = d.addDoc item.ids doc.text := by
  obtain ⟨item, hitem, ho, hline⟩ := h
  refine ⟨item, ho, ?_⟩
  simp [takeUp, hitem, hline]

namespace Attends

theorem skip (h : d.Attends options lexemes place)
    (hnone : docAt? options lexemes place = none) : d.Attends options lexemes (place + 1) := by
  refine ⟨h.reads, h.past.mono (Nat.le_succ _), ?_⟩
  refine h.attended.succ ?_ (sameItems_of_documents (.refl d)) fun _ _ _ hpiece => hpiece
  intro i stop o doc _ _ htrails
  rw [htrails.reads] at hnone
  cases hnone

theorem takeUp (h : d.Attends options lexemes place) {doc : DocComment}
    (hdoc : docAt? options lexemes place = some doc) :
    (d.takeUp doc).Attends options lexemes (place + 1) := by
  have hdocs := d.documents_takeUp doc
  have hitems := sameItems_of_documents hdocs
  refine ⟨(d.options_takeUp doc).trans h.reads, (h.past.congr hitems).mono (Nat.le_succ _), ?_⟩
  have hclaims : (d.takeUp doc).Claims = d.Claims := by
    unfold Claims
    rw [lastItem_takeUp]
  rw [hclaims]
  refine h.attended.succ ?_ hitems (Builder.keepsPieces_of_documents hdocs)
  intro i stop o doc' hitem ho htrails hclaim
  obtain rfl : doc = doc' := Option.some.inj (hdoc.symm.trans htrails.reads)
  rw [← htrails.line_eq] at hclaim
  obtain ⟨item, hmem, htaken⟩ := takeUp_eq_addDoc hclaim
  rw [htaken]
  exact isPiece_addDoc hmem (ho.lt_size hitem) htrails.text

/-- Behind code nothing has to be claimed. -/
theorem code (h : d.Attends options lexemes place) (horder : InOrder lexemes)
    (hl : lexemes[place]? = some l) (hcode : l.isTrivia = false) (hoptions : d'.options = options)
    (hbuilder : d'.builder = d.builder) : d'.Attends options lexemes (place + 1) := by
  have hended := h.attended.ended h.past horder (.inr ⟨l, hl, hcode⟩)
  refine ⟨hoptions, ?_, ?_⟩
  · rw [hbuilder]
    exact h.past.mono (Nat.le_succ _)
  · rw [hbuilder]
    have hnext := hended.succ (fun _ _ _ _ _ _ _ => False.elim) (sameItems_of_documents (.refl d))
      fun _ _ _ hpiece => hpiece
    exact hnext.mono fun _ _ => False.elim

theorem examine (h : d.Attends options lexemes place) (horder : InOrder lexemes)
    (hl : lexemes[place]? = some l) : (d.examine l).Attends options lexemes (place + 1) := by
  have hdoc := docAt?_of_getElem? options hl
  unfold Draft.examine
  split
  · rw [h.reads]
    cases hread : DocComment.ofLexeme? options l with
    | none => exact h.skip (hdoc.trans hread)
    | some doc => exact h.takeUp (hdoc.trans hread)
  · next hcode =>
    refine h.code horder hl (Bool.not_eq_true _ ▸ hcode) ?_ d.builder_dropPending
    unfold dropPending
    split <;> exact h.reads

theorem examineTransparent (h : d.Attends options lexemes place) (horder : InOrder lexemes)
    (hl : lexemes[place]? = some l) :
    (d.examineTransparent l).Attends options lexemes (place + 1) := by
  unfold Draft.examineTransparent
  split
  · exact h.examine horder hl
  · next hcode => exact h.code horder hl (Bool.not_eq_true _ ▸ hcode) h.reads rfl

theorem examineTo (h : d.Attends options lexemes d.examined) {examine : Draft → Lexeme → Draft}
    (hqueue : ∀ d l, SameQueue d (examine d l))
    (hexamine : ∀ n d l, lexemes[n]? = some l → d.Attends options lexemes n →
      (examine d l).Attends options lexemes (n + 1))
    (hrest : d.unexamined = lexemes.drop d.examined) (place : Nat) :
    (d.examineTo examine place).Attends options lexemes (d.examineTo examine place).examined :=
  examineTo_induct (motive := Attends options lexemes) hqueue hrest hexamine
    (fun _ _ => ⟨h.reads, h.past, h.attended⟩) place

end Attends

/-- Everything that trails an item is where it belongs: what is still to be
    examined trails none. -/
structure Settled (options : Options) (lexemes : List Lexeme) (d : Draft) : Prop where
  /-- The draft reads comments under the options. -/
  reads : d.options = options
  /-- The items end in what was examined. -/
  past : d.builder.Past lexemes d.examined
  /-- What trails them was examined too. -/
  attended : d.builder.Attended options lexemes d.examined fun _ _ => False

theorem Settled.attends (h : d.Settled options lexemes) : d.Attends options lexemes d.examined :=
  ⟨h.reads, h.past, h.attended.mono fun _ _ => False.elim⟩

theorem Settled.congr (h : d.Settled options lexemes) (hoptions : d'.options = d.options)
    (hexamined : d'.examined = d.examined) (hitems : d.builder.SameItems d'.builder)
    (hkeeps : d.builder.KeepsPieces d'.builder) : d'.Settled options lexemes := by
  refine ⟨hoptions.trans h.reads, ?_, ?_⟩
  · rw [hexamined]
    exact h.past.congr hitems
  · rw [hexamined]
    exact h.attended.congr hitems hkeeps

/-! ### At a declaration -/

/-- Up to the cursor everything is settled: there stands code. -/
theorem Attends.sync (h : d.Attends options lexemes d.examined) (horder : InOrder lexemes)
    (hrest : d.unexamined = lexemes.drop d.examined) (hc : (Cursor.ofLexemes lexemes).Reaches c)
    (hbehind : d.examined ≤ c.lexemeIndex) :
    (d.sync c).Settled options lexemes ∧ (d.sync c).examined = c.lexemeIndex := by
  have hattends := h.examineTo sameQueue_examine (fun _ _ _ hl hd => hd.examine horder hl) hrest
    c.lexemeIndex
  have hexamined : (d.sync c).examined = c.lexemeIndex := by
    have hle := ((Cursor.numbered_ofLexemes lexemes).of_reaches hc).lexemeIndex_le
    have hsynced := examined_examineTo sameQueue_examine hrest c.lexemeIndex
    show (d.examineTo Draft.examine c.lexemeIndex).examined = _
    omega
  have hpast := hattends.past
  refine ⟨⟨hattends.reads, hpast, hattends.attended.ended hpast horder ?_⟩, hexamined⟩
  show _ ≤ (d.sync c).examined ∨ ∃ l, lexemes[(d.sync c).examined]? = some l ∧ _
  rw [hexamined]
  exact hc.code_lexemeIndex

/-- Documentation that is handed over was examined before. -/
theorem takeLeading_of_sync (d : Draft) (c : Cursor) :
    (d.sync c).SameQueue (d.takeLeading c).2 ∧ (d.sync c).Documents (d.takeLeading c).2 ∧
      (d.takeLeading c).2.options = (d.sync c).options := by
  unfold takeLeading
  dsimp only
  split
  · exact ⟨⟨rfl, rfl⟩, .refl _, rfl⟩
  · split
    · exact ⟨⟨rfl, rfl⟩, documents_addDoc _ _ _, rfl⟩
    · exact ⟨⟨rfl, rfl⟩, .refl _, rfl⟩

theorem Attends.takeLeading (h : d.Attends options lexemes d.examined) (horder : InOrder lexemes)
    (hrest : d.unexamined = lexemes.drop d.examined) (hc : (Cursor.ofLexemes lexemes).Reaches c)
    (hbehind : d.examined ≤ c.lexemeIndex) :
    (d.takeLeading c).2.Settled options lexemes ∧
      (d.takeLeading c).2.examined = c.lexemeIndex ∧
      (d.takeLeading c).2.unexamined = lexemes.drop (d.takeLeading c).2.examined := by
  obtain ⟨hsettled, hexamined⟩ := h.sync horder hrest hc hbehind
  obtain ⟨hqueue, hdocs, hoptions⟩ := d.takeLeading_of_sync c
  refine ⟨hsettled.congr hoptions hqueue.examined (sameItems_of_documents hdocs)
    (Builder.keepsPieces_of_documents hdocs), hqueue.examined.trans hexamined, ?_⟩
  rw [hqueue.unexamined, hqueue.examined]
  exact unexamined_examineTo sameQueue_examine hrest c.lexemeIndex

/-- A comment inside of some entries is added to all of them, so they need no
    other claim. -/
theorem attended_examineInside (hreads : d.options = options)
    (h : d.builder.Attended options lexemes place claims)
    (hclaims : ∀ o line, claims o line → o ∈ ids) (hl : lexemes[place]? = some l) :
    (examineInside ids d l).options = options ∧
      (examineInside ids d l).builder.Attended options lexemes (place + 1) claims := by
  have hdocs := documents_examineInside ids d l
  have hdoc := docAt?_of_getElem? options hl
  refine ⟨?_, h.succ ?_ (sameItems_of_documents hdocs) (Builder.keepsPieces_of_documents hdocs)⟩
  · unfold examineInside
    split <;> exact hreads
  · intro i stop o doc hitem ho htrails hclaim
    have hread := hdoc.symm.trans htrails.reads
    rw [← hreads] at hread
    simp only [examineInside, hread]
    exact isPiece_addDoc (hclaims o stop.line hclaim) (ho.lt_size hitem) htrails.text

section ItemDone

variable (hrest : d.unexamined = lexemes.drop d.examined) (c : Cursor) (ids : List EntryId)
include hrest

theorem attended_itemDone (hreads : d.options = options)
    (h : d.builder.Attended options lexemes d.examined claims)
    (hclaims : ∀ o line, claims o line → o ∈ ids) :
    (d.itemDone c ids).options = options ∧
      (d.itemDone c ids).builder.Attended options lexemes (d.itemDone c ids).examined claims := by
  have hqueue := d.sameQueue_dropPending
  refine examineTo_induct (motive := fun n d' =>
      d'.options = options ∧ d'.builder.Attended options lexemes n claims)
    (sameQueue_examineInside ids) (hqueue.rest hrest) ?_ ?_ c.indexAfterPrev
  · intro n d' l hl hd'
    exact attended_examineInside hd'.1 hd'.2 hclaims hl
  · intro unexamined examined
    rw [hqueue.examined]
    refine ⟨?_, ?_⟩
    · unfold dropPending
      split <;> exact hreads
    · show d.dropPending.builder.Attended options lexemes d.examined claims
      rw [builder_dropPending]
      exact h

/-- Where all is settled it is still so when other entries are complete. -/
theorem Settled.itemDone (h : d.Settled options lexemes) :
    (d.itemDone c ids).Settled options lexemes := by
  obtain ⟨hreads, hattended⟩ :=
    attended_itemDone hrest c ids h.reads h.attended fun _ _ => False.elim
  have hexamined := examined_itemDone hrest c ids
  refine ⟨hreads, ?_, hattended⟩
  exact (h.past.congr (sameItems_of_documents (d.documents_itemDone c ids))).mono (by omega)

/-- The items that were made last have a claim on what trails them. -/
theorem attends_itemDone (hreads : d.options = options) (horder : InOrder lexemes)
    (hc : (Cursor.ofLexemes lexemes).Reaches c) (hexamined : d.examined ≤ c.indexAfterPrev)
    (hpast : d.builder.Past lexemes c.indexAfterPrev)
    (h : d.builder.Attended options lexemes d.examined fun o _ => o ∈ ids) :
    (d.itemDone c ids).Attends options lexemes (d.itemDone c ids).examined ∧
      (d.itemDone c ids).examined = c.indexAfterPrev := by
  have hnumbered := (Cursor.numbered_ofLexemes lexemes).of_reaches hc
  have hdone : (d.itemDone c ids).examined = c.indexAfterPrev := by
    have hinside := examined_itemDone hrest c ids
    have hprev := hnumbered.indexAfterPrev_le
    have hle := hnumbered.lexemeIndex_le
    omega
  obtain ⟨hoptions, hattended⟩ := attended_itemDone hrest c ids hreads h fun _ _ ho => ho
  have hpast' := hpast.congr (sameItems_of_documents (d.documents_itemDone c ids))
  rw [hdone] at hattended ⊢
  refine ⟨⟨hoptions, hpast', ?_⟩, rfl⟩
  intro i stop o comment doc hitem ho htrails
  obtain ⟨hbefore, hafter⟩ := hattended i stop o comment doc hitem ho htrails
  refine ⟨hbefore, fun hle => ⟨⟨ids, c.prevStop.line⟩, rfl, hafter hle, ?_⟩⟩
  -- What trails an item behind the cursor begins on the line of the last token.
  obtain ⟨n, hn, hends⟩ := hpast' i stop hitem
  exact congrArg Location.line (htrails.eq_prevStop horder hends hc hn hle).symm

end ItemDone

/-- At the end nothing is left that could trail an item. -/
theorem Attends.finish (h : d.Attends options lexemes d.examined) (horder : InOrder lexemes)
    (hrest : d.unexamined = lexemes.drop d.examined) (hcount : c.lexemeCount = lexemes.length)
    (hle : d.examined ≤ lexemes.length) :
    (d.finish c).builder.Attended options lexemes lexemes.length fun _ _ => False := by
  have hlast := h.examineTo sameQueue_examine (fun _ _ _ hl hd => hd.examine horder hl) hrest
    c.lexemeCount
  have hend : (d.examineTo Draft.examine c.lexemeCount).examined = lexemes.length := by
    rw [examined_examineTo sameQueue_examine hrest, hcount]
    omega
  rw [hend] at hlast
  have hended := hlast.attended.ended hlast.past horder (.inl (Nat.le_refl _))
  unfold Draft.finish
  dsimp only
  split
  · have hdocs := documents_addDoc (d.examineTo Draft.examine c.lexemeCount)
    exact hended.congr (sameItems_of_documents (hdocs _ _))
      (Builder.keepsPieces_of_documents (hdocs _ _))
  · exact hended

end Examine

end Draft

end PascalOutline
