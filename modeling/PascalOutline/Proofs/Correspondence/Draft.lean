import PascalOutline.Proofs.Correspondence.Cursor
import PascalOutline.Proofs.Correspondence.Outline

/-! # Documentation of two readings

  Where documentation is compared, two drafts have examined equally many
  lexemes, the same documentation is waiting, respelled, and the same item may
  get trailing comments. Where it is not compared, nothing is said of these:
  whatever the two drafts do with their comments, the rest of their outlines
  keeps corresponding.
-/

namespace PascalOutline

/-- Two documentation comments are the same, respelled, on the same lines. -/
structure DocComment.Corresponds (r : Correspondence) (doc doc' : DocComment) : Prop where
  /-- They have the same text. -/
  text : doc'.text = r.text doc.text
  /-- Both are marked as trailing or none is. -/
  trailing : doc'.trailing = doc.trailing
  /-- They begin on the same line. -/
  line : doc'.line = doc.line
  /-- They end on the same line. -/
  lastLine : doc'.lastLine = doc.lastLine

/-- Two lexemes document alike: both are trivia or none is, and under all
    options they have the same documentation, respelled. -/
structure Lexeme.DocCorresponds (r : Correspondence) (l l' : Lexeme) : Prop where
  /-- Both are trivia or none is. -/
  isTrivia : l'.isTrivia = l.isTrivia
  /-- They have the same documentation. -/
  doc : ∀ options, Option.Rel (DocComment.Corresponds r) (DocComment.ofLexeme? options l)
    (DocComment.ofLexeme? options l')

/-- Under both options the same comments document, up to the same gap. -/
structure Options.DocumentAlike (options options' : Options) : Prop where
  /-- Plain brace comments document under both or under none. -/
  braceDocs : options'.braceDocs = options.braceDocs
  /-- The limit for the gap is the same. -/
  docGap : options'.docGap = options.docGap

theorem Options.DocumentAlike.refl (options : Options) : options.DocumentAlike options :=
  ⟨rfl, rfl⟩

theorem Options.DocumentAlike.ofLexeme?_eq {options options' : Options}
    (h : options.DocumentAlike options') (l : Lexeme) :
    DocComment.ofLexeme? options' l = DocComment.ofLexeme? options l := by
  simp only [DocComment.ofLexeme?, DocComment.marked?, h.braceDocs]

/-- The same documentation is waiting, respelled. -/
structure Pending.Corresponds (r : Correspondence) (p p' : Pending) : Prop where
  /-- The texts are the same. -/
  text : p'.text = r.text p.text
  /-- They end on the same line. -/
  lastLine : p'.lastLine = p.lastLine

namespace Draft

/-- The documentation of two drafts is in the same state. -/
structure DocsCorrespond (r : Correspondence) (d d' : Draft) : Prop where
  /-- Comments are read in the same way. -/
  options : d.options.DocumentAlike d'.options
  /-- The lexemes that are left document alike. -/
  unexamined : List.Forall₂ (Lexeme.DocCorresponds r) d.unexamined d'.unexamined
  /-- Equally many lexemes were examined. -/
  examined : d'.examined = d.examined
  /-- The same documentation is waiting. -/
  pending : Option.Rel (Pending.Corresponds r) d.pending d'.pending
  /-- The same item may get trailing comments. -/
  lastItem : d'.lastItem = d.lastItem

/-- Two drafts correspond. -/
structure Corresponds (r : Correspondence) (d d' : Draft) : Prop where
  /-- The outlines correspond. -/
  builder : d.builder.Corresponds r d'.builder
  /-- Where documentation is compared, it is in the same state. -/
  docs : r.docs → d.DocsCorrespond r d'

namespace Corresponds

variable {r : Correspondence} {d d' : Draft} {c c' : Cursor}

/-! ### Parts -/

theorem log (h : d.Corresponds r d') (e e' : Event) : (d.log e).Corresponds r (d'.log e') := by
  refine ⟨h.builder, ?_⟩
  intro hdocs
  have hstate := h.docs hdocs
  exact ⟨hstate.options, hstate.unexamined, hstate.examined, hstate.pending, hstate.lastItem⟩

theorem logIf (h : d.Corresponds r d') {p q : Bool} (hqp : q = p) (e e' : Event) :
    (d.logIf p e).Corresponds r (d'.logIf q e') := by
  subst hqp
  cases q with
  | true => exact h.log e e'
  | false => exact h

/-- Where documentation is not compared, each draft may do what it likes with
    its comments. -/
theorem documents (hdocs : ¬r.docs) (h : d.Corresponds r d') {e e' : Draft}
    (hd : d.Documents e) (hd' : d'.Documents e') : e.Corresponds r e' :=
  ⟨h.builder.documents hdocs hd hd', fun hyes => absurd hyes hdocs⟩

theorem setPending (h : d.Corresponds r d') {p p' : Option Pending}
    (hp : Option.Rel (Pending.Corresponds r) p p') :
    Corresponds r { d with pending := p } { d' with pending := p' } := by
  refine ⟨h.builder, ?_⟩
  intro hdocs
  have hstate := h.docs hdocs
  exact ⟨hstate.options, hstate.unexamined, hstate.examined, hp, hstate.lastItem⟩

theorem setLastItem (h : d.Corresponds r d') {item item' : Option LastItem}
    (hitem : r.docs → item' = item) :
    Corresponds r { d with lastItem := item } { d' with lastItem := item' } := by
  refine ⟨h.builder, ?_⟩
  intro hdocs
  have hstate := h.docs hdocs
  exact ⟨hstate.options, hstate.unexamined, hstate.examined, hstate.pending, hitem hdocs⟩

theorem build (h : d.Corresponds r d') {b b' : Builder} (hb : b.Corresponds r b') :
    Corresponds r { d with builder := b } { d' with builder := b' } := by
  refine ⟨hb, ?_⟩
  intro hdocs
  have hstate := h.docs hdocs
  exact ⟨hstate.options, hstate.unexamined, hstate.examined, hstate.pending, hstate.lastItem⟩

theorem addDoc (h : d.Corresponds r d') {text text' : String}
    (htext : r.docs → text' = r.text text) (ids : List EntryId) :
    (d.addDoc ids text).Corresponds r (d'.addDoc ids text') :=
  h.build (h.builder.foldl_addDoc htext ids)

theorem orphanage (h : d.Corresponds r d') : d'.orphanage = d.orphanage := by
  unfold Draft.orphanage
  rw [h.builder.top?]
  cases d.builder.top? with
  | none => rfl
  | some top => simp only [h.builder.lastChild?]

section Docs

/-! ### Examining lexemes

  From here on documentation is compared. -/

variable (hdocs : r.docs)
include hdocs

theorem dropPending (h : d.Corresponds r d') : d.dropPending.Corresponds r d'.dropPending := by
  have hpending := (h.docs hdocs).pending
  unfold Draft.dropPending
  generalize d.pending = p at hpending ⊢
  generalize d'.pending = p' at hpending ⊢
  cases hpending with
  | none => exact h
  | some _ => exact (h.setPending .none).log _ _

theorem exceedsGap (h : d.Corresponds r d') {lastLine line : Nat} :
    d'.exceedsGap lastLine line = d.exceedsGap lastLine line := by
  rw [Draft.exceedsGap, Draft.exceedsGap, (h.docs hdocs).options.docGap]

omit hdocs in
theorem joinDocs {p p' : Pending} (hp : p.Corresponds r p') {doc doc' : DocComment}
    (hdoc : doc.Corresponds r doc') :
    (Draft.joinDocs p doc).Corresponds r (Draft.joinDocs p' doc') := by
  have hline : r.text "\n" = "\n" := r.text_of_lowered_eq rfl
  have hbreak : r.text "\n\n" = "\n\n" := r.text_of_lowered_eq rfl
  refine ⟨?_, hdoc.lastLine⟩
  simp only [Draft.joinDocs, hp.text, hp.lastLine, hdoc.text, hdoc.line, r.text_eq_empty_iff,
    r.text_append]
  split
  · rw [r.text_empty]
  · split
    · rw [hline]
    · rw [hbreak]

theorem hold (h : d.Corresponds r d') {doc doc' : DocComment} (hdoc : doc.Corresponds r doc') :
    (d.hold doc).Corresponds r (d'.hold doc') := by
  have hpending := (h.docs hdocs).pending
  have hnew : Pending.Corresponds r ⟨doc.text, doc.lastLine⟩ ⟨doc'.text, doc'.lastLine⟩ :=
    ⟨hdoc.text, hdoc.lastLine⟩
  unfold Draft.hold
  generalize d.pending = p at hpending ⊢
  generalize d'.pending = p' at hpending ⊢
  cases hpending with
  | none => exact h.setPending (.some hnew)
  | some hp =>
    dsimp only
    rw [h.exceedsGap hdocs, hp.lastLine, hdoc.line, h.orphanage]
    split
    · exact (h.addDoc (fun _ => hp.text) _).setPending (.some hnew)
    · exact h.setPending (.some (joinDocs hp hdoc))

theorem takeUp (h : d.Corresponds r d') {doc doc' : DocComment} (hdoc : doc.Corresponds r doc') :
    (d.takeUp doc).Corresponds r (d'.takeUp doc') := by
  unfold Draft.takeUp
  rw [(h.docs hdocs).lastItem, hdoc.trailing, hdoc.line]
  split
  · split
    · exact h.addDoc (fun _ => hdoc.text) _
    · exact h.hold hdocs hdoc
  · split
    · exact h.log _ _
    · exact h.hold hdocs hdoc

theorem examine (h : d.Corresponds r d') {l l' : Lexeme} (hl : l.DocCorresponds r l') :
    (d.examine l).Corresponds r (d'.examine l') := by
  have hdoc := hl.doc d.options
  unfold Draft.examine
  rw [hl.isTrivia, (h.docs hdocs).options.ofLexeme?_eq]
  generalize DocComment.ofLexeme? d.options l = doc at hdoc ⊢
  generalize DocComment.ofLexeme? d.options l' = doc' at hdoc ⊢
  split
  · cases hdoc with
    | none => exact h
    | some hdoc => exact h.takeUp hdocs hdoc
  · exact (h.dropPending hdocs).setLastItem fun _ => rfl

theorem examineTransparent (h : d.Corresponds r d') {l l' : Lexeme}
    (hl : l.DocCorresponds r l') :
    (d.examineTransparent l).Corresponds r (d'.examineTransparent l') := by
  unfold Draft.examineTransparent
  rw [hl.isTrivia]
  split
  · exact h.examine hdocs hl
  · exact h

theorem examineInside (ids : List EntryId) (h : d.Corresponds r d') {l l' : Lexeme}
    (hl : l.DocCorresponds r l') :
    (Draft.examineInside ids d l).Corresponds r (Draft.examineInside ids d' l') := by
  have hdoc := hl.doc d.options
  unfold Draft.examineInside
  rw [(h.docs hdocs).options.ofLexeme?_eq]
  generalize DocComment.ofLexeme? d.options l = doc at hdoc ⊢
  generalize DocComment.ofLexeme? d.options l' = doc' at hdoc ⊢
  cases hdoc with
  | none => exact h
  | some hdoc => exact h.addDoc (fun _ => hdoc.text) ids

omit hdocs in
theorem foldl {f : Draft → Lexeme → Draft}
    (hf : ∀ {d d' : Draft} {l l' : Lexeme}, d.Corresponds r d' → l.DocCorresponds r l' →
      (f d l).Corresponds r (f d' l'))
    (h : d.Corresponds r d') {lexemes lexemes' : List Lexeme}
    (hlexemes : List.Forall₂ (Lexeme.DocCorresponds r) lexemes lexemes') :
    (lexemes.foldl f d).Corresponds r (lexemes'.foldl f d') := by
  induction hlexemes generalizing d d' with
  | nil => exact h
  | cons hl _ ih => exact ih (hf h hl)

theorem examineTo {f : Draft → Lexeme → Draft}
    (hf : ∀ {d d' : Draft} {l l' : Lexeme}, d.Corresponds r d' → l.DocCorresponds r l' →
      (f d l).Corresponds r (f d' l'))
    (h : d.Corresponds r d') (place : Nat) :
    (d.examineTo f place).Corresponds r (d'.examineTo f place) := by
  have hstate := h.docs hdocs
  have hfound := List.forall₂_take (place - d.examined) hstate.unexamined
  -- The lexemes leave the queues before they are examined.
  have hqueues (n : Nat) : Corresponds r
      { d with unexamined := d.unexamined.drop (place - d.examined), examined := n }
      { d' with unexamined := d'.unexamined.drop (place - d.examined), examined := n } := by
    refine ⟨h.builder, fun _ => ?_⟩
    exact ⟨hstate.options, List.forall₂_drop _ hstate.unexamined, rfl, hstate.pending,
      hstate.lastItem⟩
  unfold Draft.examineTo
  dsimp only
  rw [hstate.examined, ← hfound.length_eq]
  exact foldl hf (hqueues _) hfound

end Docs

/-! ### At a declaration -/

theorem sync (h : d.Corresponds r d') (hc : c.Corresponds r c') :
    (d.sync c).Corresponds r (d'.sync c') := by
  by_cases hdocs : r.docs
  · rw [Draft.sync, Draft.sync, hc.lexemeIndex hdocs]
    exact h.examineTo hdocs (fun h hl => h.examine hdocs hl) _
  · exact h.documents hdocs (d.documents_sync c) (d'.documents_sync c')

theorem skipTransparent (h : d.Corresponds r d') (hc : c.Corresponds r c') :
    (d.skipTransparent c).Corresponds r (d'.skipTransparent c') := by
  by_cases hdocs : r.docs
  · rw [Draft.skipTransparent, Draft.skipTransparent, hc.indexAfterPrev hdocs]
    exact h.examineTo hdocs (fun h hl => h.examineTransparent hdocs hl) _
  · exact h.documents hdocs (d.documents_skipTransparent c) (d'.documents_skipTransparent c')

theorem takeLeading (h : d.Corresponds r d') (hc : c.Corresponds r c') :
    (r.docs → (d'.takeLeading c').1 = r.text (d.takeLeading c).1) ∧
      (d.takeLeading c).2.Corresponds r (d'.takeLeading c').2 := by
  by_cases hdocs : r.docs
  · have hsynced : Corresponds r { d.sync c with lastItem := none }
        { d'.sync c' with lastItem := none } := (h.sync hc).setLastItem fun _ => rfl
    have hpending := (hsynced.docs hdocs).pending
    have hline := r.line_eq hdocs hc.location
    unfold Draft.takeLeading
    dsimp only at hsynced hpending ⊢
    generalize (d.sync c).pending = p at hsynced hpending ⊢
    generalize (d'.sync c').pending = p' at hsynced hpending ⊢
    cases hpending with
    | none => exact ⟨fun _ => r.text_empty.symm, hsynced⟩
    | some hp =>
      have htaken := hsynced.setPending .none
      dsimp only
      rw [htaken.exceedsGap hdocs, hp.lastLine, hline, htaken.orphanage]
      split
      · exact ⟨fun _ => r.text_empty.symm, htaken.addDoc (fun _ => hp.text) _⟩
      · exact ⟨fun _ => hp.text, htaken⟩
  · exact ⟨fun hyes => absurd hyes hdocs,
      h.documents hdocs (d.documents_takeLeading c) (d'.documents_takeLeading c')⟩

theorem itemDone (h : d.Corresponds r d') (hc : c.Corresponds r c') (ids : List EntryId) :
    (d.itemDone c ids).Corresponds r (d'.itemDone c' ids) := by
  by_cases hdocs : r.docs
  · have hinside := (h.dropPending hdocs).examineTo hdocs
      (fun h hl => h.examineInside hdocs ids hl) c.indexAfterPrev
    unfold Draft.itemDone
    dsimp only
    rw [hc.indexAfterPrev hdocs, r.line_eq hdocs hc.prevStop]
    exact hinside.setLastItem fun _ => rfl
  · exact h.documents hdocs (d.documents_itemDone c ids) (d'.documents_itemDone c' ids)

theorem finish (h : d.Corresponds r d') (hc : c.Corresponds r c') :
    (d.finish c).Corresponds r (d'.finish c') := by
  by_cases hdocs : r.docs
  · have hlast := h.examineTo hdocs (fun h hl => h.examine hdocs hl) c.lexemeCount
    have hpending := (hlast.docs hdocs).pending
    unfold Draft.finish
    dsimp only
    rw [hc.lexemeCount hdocs, hlast.builder.top?]
    generalize (d.examineTo Draft.examine c.lexemeCount).pending = p at hpending ⊢
    generalize (d'.examineTo Draft.examine c.lexemeCount).pending = p' at hpending ⊢
    cases hpending with
    | none => exact hlast
    | some hp => exact (hlast.addDoc (fun _ => hp.text) _).setPending .none
  · exact h.documents hdocs (d.documents_finish c) (d'.documents_finish c')

end Corresponds

end Draft

end PascalOutline
