import PascalOutline.Proofs.Documentation.Account

/-! # Documentation under a gap limit

  Under a gap limit, documentation that is too far from what follows goes to
  what stands before it. So a comment may document another entry than it does
  without a limit, but it does not get lost as long as there is an entry.

  `Draft.KeepsUp` compares two drafts of one source, of which the second one
  has a limit: what the first one attached to an entry, the second one attached
  too, except for comments that are lost. There is one lemma for each function
  of a draft.
-/

namespace PascalOutline

namespace Options

/-- The options with a gap limit. -/
def within (options : Options) (limit : Nat) : Options :=
  { options with docGap := some limit }

/-- The options without a gap limit. -/
def unlimited (options : Options) : Options :=
  { options with docGap := none }

end Options

/-- Whether a comment documents does not depend on the gap limit. -/
theorem docAt?_within (options : Options) (limit : Nat) (lexemes : List Lexeme) :
    docAt? (options.within limit) lexemes = docAt? options lexemes :=
  rfl

theorem docAt?_unlimited (options : Options) (lexemes : List Lexeme) :
    docAt? options.unlimited lexemes = docAt? options lexemes :=
  rfl

/-! ### Ledgers -/

namespace Ledger

variable {ledger ledger' : Ledger} {place : Nat} {ids ids' : List EntryId} {lost : Nat → Prop}

theorem attaches_give (ledger : Ledger) (next : Nat) (route : Route) (ids : List EntryId) :
    (ledger.give next route ids).Attaches place
      ↔ ledger.Attaches place ∨ place = next ∧ ids ≠ [] := by
  simp [Attaches, give, or_and_right, exists_or]

theorem attaches_handOver (ledger : Ledger) (ids : List EntryId) :
    (ledger.handOver ids).Attaches place
      ↔ ledger.Attaches place ∨ place ∈ ledger.waiting ∧ ids ≠ [] := by
  simp [Attaches, handOver, or_and_right, exists_or]

/-- What one ledger attaches, the other one attaches too, and what waits in the
    one waits in the other or is attached there. Only some comments are lost. -/
structure Spares (lost : Nat → Prop) (ledger ledger' : Ledger) : Prop where
  /-- What is attached stays attached. -/
  attached : ∀ place, ledger.Attaches place → ledger'.Attaches place ∨ lost place
  /-- What waits may have been attached already. -/
  waiting : ∀ place ∈ ledger.waiting,
    place ∈ ledger'.waiting ∨ ledger'.Attaches place ∨ lost place

namespace Spares

theorem empty (lost : Nat → Prop) : Spares lost {} {} := by
  constructor
  · rintro place ⟨delivery, hdelivery, _⟩
    cases hdelivery
  · exact fun _ hplace => by cases hplace

theorem give (h : Spares lost ledger ledger') (next : Nat) (route : Route) (ids : List EntryId) :
    Spares lost (ledger.give next route ids) (ledger'.give next route ids) := by
  constructor
  · intro place hattached
    rw [attaches_give]
    rcases (ledger.attaches_give next route ids).mp hattached with hbefore | hnow
    · exact (h.attached place hbefore).imp_left .inl
    · exact .inl (.inr hnow)
  · intro place hplace
    rw [attaches_give]
    exact (h.waiting place hplace).imp_right fun hlater => hlater.imp_left .inl

theorem keep (h : Spares lost ledger ledger') (next : Nat) :
    Spares lost (ledger.keep next) (ledger'.keep next) := by
  refine ⟨h.attached, ?_⟩
  intro place hplace
  rcases List.mem_append.mp hplace with hbefore | hnew
  · exact (h.waiting place hbefore).imp_left (List.mem_append_left _)
  · exact .inl (List.mem_append_right _ hnew)

/-- Both ledgers hand over what waits. -/
theorem handOver (h : Spares lost ledger ledger') (ids : List EntryId) :
    Spares lost (ledger.handOver ids) (ledger'.handOver ids) := by
  refine ⟨?_, fun place hplace => by cases hplace⟩
  intro place hattached
  rw [attaches_handOver]
  rcases (ledger.attaches_handOver ids).mp hattached with hbefore | ⟨hwaiting, hids⟩
  · exact (h.attached place hbefore).imp_left .inl
  · rcases h.waiting place hwaiting with hwaiting' | hattached' | hlost
    · exact .inl (.inr ⟨hwaiting', hids⟩)
    · exact .inl (.inl hattached')
    · exact .inr hlost

/-- Only the second ledger hands over what waits. -/
theorem handBack (h : Spares lost ledger ledger') (hids : ids ≠ []) :
    Spares lost ledger (ledger'.handOver ids) := by
  constructor
  · intro place hattached
    rw [attaches_handOver]
    exact (h.attached place hattached).imp_left .inl
  · intro place hplace
    rw [attaches_handOver]
    rcases h.waiting place hplace with hwaiting | hattached | hlost
    · exact .inr (.inl (.inr ⟨hwaiting, hids⟩))
    · exact .inr (.inl (.inl hattached))
    · exact .inr (.inr hlost)

end Spares

end Ledger

/-! ### Drafts -/

namespace Draft

theorem lastItem_ready (d : Draft) (c : Cursor) : (d.ready c).lastItem = none :=
  lastItem_handFar _ _

/-- Two drafts of the first `count` lexemes, one without a gap limit and one
    with one. -/
structure KeepsUp (options : Options) (limit : Nat) (lexemes : List Lexeme) (lost : Nat → Prop)
    (count : Nat) (d d' : Draft) : Prop where
  /-- The second one attached what the first one did. -/
  ledgers : ∃ ledger ledger' : Ledger, ledger.Accounts options.unlimited lexemes count d ∧
    ledger'.Accounts (options.within limit) lexemes count d' ∧ ledger.Spares lost ledger'
  /-- The same item came last. -/
  lastItem : d'.lastItem = d.lastItem

namespace KeepsUp

variable {options : Options} {limit : Nat} {lexemes : List Lexeme} {lost : Nat → Prop}
variable {count : Nat} {d d' u u' : Draft}

/-- Only the outline, the documentation and the last item matter. -/
theorem congr (h : KeepsUp options limit lexemes lost count d d')
    (hfirst : u.options = d.options ∧ u.builder = d.builder ∧ u.pending = d.pending)
    (hsecond : u'.options = d'.options ∧ u'.builder = d'.builder ∧ u'.pending = d'.pending)
    (hitem : u.lastItem = d.lastItem ∨ u.lastItem = none) (hsame : u'.lastItem = u.lastItem) :
    KeepsUp options limit lexemes lost count u u' := by
  obtain ⟨⟨ledger, ledger', haccounts, haccounts', hspares⟩, hlast⟩ := h
  refine ⟨⟨ledger, ledger', haccounts.congr hfirst.1 hfirst.2.1 hfirst.2.2 ?_,
    haccounts'.congr hsecond.1 hsecond.2.1 hsecond.2.2 ?_, hspares⟩, hsame⟩
  · intro item hsome
    rcases hitem with heq | hnone
    · rwa [heq] at hsome
    · rw [hnone] at hsome
      cases hsome
  · intro item hsome
    rw [hsame] at hsome
    rcases hitem with heq | hnone
    · rwa [hlast, ← heq]
    · rw [hnone] at hsome
      cases hsome

theorem reads (h : KeepsUp options limit lexemes lost count d d') :
    d.options = options.unlimited ∧ d'.options = options.within limit := by
  obtain ⟨⟨ledger, ledger', haccounts, haccounts', _⟩, _⟩ := h
  exact ⟨haccounts.reads, haccounts'.reads⟩

theorem skip (h : KeepsUp options limit lexemes lost count d d')
    (hnone : docAt? options lexemes count = none) :
    KeepsUp options limit lexemes lost (count + 1) d d' := by
  obtain ⟨⟨ledger, ledger', haccounts, haccounts', hspares⟩, hlast⟩ := h
  exact ⟨⟨ledger, ledger', haccounts.skip hnone, haccounts'.skip hnone, hspares⟩, hlast⟩

/-- The next comment documents an item of both drafts. -/
theorem addDoc (h : KeepsUp options limit lexemes lost count d d') {doc : DocComment}
    (hdoc : docAt? options lexemes count = some doc) {ids : List EntryId} (hids : ids ≠ [])
    (hitem : d.builder.IsItem lexemes ids) (hitem' : d'.builder.IsItem lexemes ids) :
    KeepsUp options limit lexemes lost (count + 1) (d.addDoc ids doc.text)
      (d'.addDoc ids doc.text) := by
  obtain ⟨⟨ledger, ledger', haccounts, haccounts', hspares⟩, hlast⟩ := h
  have hregular (options : Options) : Delivery.Regular options lexemes ⟨[count], .item, ids⟩ :=
    ⟨hids, count, rfl⟩
  exact ⟨⟨_, _, haccounts.give hdoc (hregular _) hitem, haccounts'.give hdoc (hregular _) hitem',
    hspares.give count .item ids⟩, hlast⟩

theorem dropPending (h : KeepsUp options limit lexemes lost count d d') :
    KeepsUp options limit lexemes lost count d.dropPending d'.dropPending := by
  obtain ⟨⟨ledger, ledger', haccounts, haccounts', hspares⟩, hsame⟩ := h
  refine ⟨⟨_, _, haccounts.dropPending, haccounts'.dropPending, hspares.handOver []⟩, ?_⟩
  rw [lastItem_dropPending, lastItem_dropPending]
  exact hsame

/-- Only the second draft hands over what waits. -/
theorem handBack (h : KeepsUp options limit lexemes lost count d d') {ids : List EntryId}
    (hids : ids ≠ []) (hitem : d'.builder.IsItem lexemes ids) :
    KeepsUp options limit lexemes lost count d (d'.handTo ids) := by
  obtain ⟨⟨ledger, ledger', haccounts, haccounts', hspares⟩, hlast⟩ := h
  exact ⟨⟨_, _, haccounts, haccounts'.handTo hitem, hspares.handBack hids⟩,
    (d'.lastItem_handTo ids).trans hlast⟩

/-- Without a limit nothing is too far away; with one, what is too far away
    goes to an entry. -/
theorem handFar (h : KeepsUp options limit lexemes lost count d d') (harena : d'.builder.Arena)
    (line : Nat) : KeepsUp options limit lexemes lost count (d.handFar line) (d'.handFar line) := by
  have hnear : d.handFar line = d := by
    unfold Draft.handFar exceedsGap
    rw [h.reads.1]
    cases d.pending <;> rfl
  rw [hnear]
  unfold Draft.handFar
  split
  · obtain ⟨id, horphanage, hid⟩ := exists_orphanage harena
    rw [horphanage]
    exact h.handBack (List.cons_ne_nil _ _) (.single hid)
  · exact h

theorem hold (h : KeepsUp options limit lexemes lost count d d') (harena : d'.builder.Arena)
    {doc : DocComment} (hdoc : docAt? options lexemes count = some doc)
    (hleads : doc.trailing = false) :
    KeepsUp options limit lexemes lost (count + 1) (d.hold doc) (d'.hold doc) := by
  obtain ⟨⟨ledger, ledger', haccounts, haccounts', hspares⟩, hlast⟩ := h.handFar harena doc.line
  rw [hold_eq, hold_eq]
  exact ⟨⟨_, _, haccounts.keep hdoc hleads, haccounts'.keep hdoc hleads, hspares.keep count⟩, hlast⟩

theorem takeUp (h : KeepsUp options limit lexemes lost count d d') (harena : d'.builder.Arena)
    {doc : DocComment} (hdoc : docAt? options lexemes count = some doc) :
    KeepsUp options limit lexemes lost (count + 1) (d.takeUp doc) (d'.takeUp doc) := by
  obtain ⟨ledger, ledger', haccounts, haccounts', hspares⟩ := h.ledgers
  unfold Draft.takeUp
  rw [h.lastItem]
  split
  · next item hitem =>
    split
    · have hthere := haccounts.lastItem item hitem
      have hthere' := haccounts'.lastItem item (h.lastItem.trans hitem)
      exact h.addDoc hdoc hthere.1 hthere.2 hthere'.2
    · next htrails =>
      refine h.hold harena hdoc ?_
      simp only [Bool.or_eq_true, not_or, Bool.not_eq_true] at htrails
      exact htrails.1
  · next hnone =>
    split
    · next htrailing =>
      -- Neither draft has an item before the comment.
      have hregular {o : Options} (ho : docAt? o lexemes = docAt? options lexemes) :
          Delivery.Regular o lexemes ⟨[count], .dropped, []⟩ :=
        ⟨rfl, count, doc, rfl, ho ▸ hdoc, htrailing⟩
      have hgiven := haccounts.give hdoc (hregular (docAt?_unlimited ..)) .nil
      have hgiven' := haccounts'.give hdoc (hregular (docAt?_within ..)) .nil
      exact ⟨⟨_, _, hgiven.congr rfl rfl rfl fun _ hitem => hitem,
        hgiven'.congr rfl rfl rfl fun _ hitem => hitem, hspares.give count .dropped []⟩, h.lastItem⟩
    · next htrails => exact h.hold harena hdoc (Bool.not_eq_true _ ▸ htrails)

/-! ### Examining lexemes -/

section Lexemes

variable {l : Lexeme}

theorem examine (h : KeepsUp options limit lexemes lost count d d') (harena : d'.builder.Arena)
    (hl : lexemes[count]? = some l) :
    KeepsUp options limit lexemes lost (count + 1) (d.examine l) (d'.examine l) := by
  have hdoc := docAt?_of_getElem? options hl
  unfold Draft.examine
  split
  · rw [h.reads.1, h.reads.2]
    show KeepsUp options limit lexemes lost (count + 1)
      (((DocComment.ofLexeme? options l).map d.takeUp).getD d)
      (((DocComment.ofLexeme? options l).map d'.takeUp).getD d')
    cases hread : DocComment.ofLexeme? options l with
    | none => exact h.skip (hdoc.trans hread)
    | some doc => exact h.takeUp harena (hdoc.trans hread)
  · next hcode =>
    have hnone := DocComment.ofLexeme?_of_not_isTrivia options hcode
    exact .skip (h.dropPending.congr ⟨rfl, rfl, rfl⟩ ⟨rfl, rfl, rfl⟩ (.inr rfl) rfl)
      (hdoc.trans hnone)

theorem examineTransparent (h : KeepsUp options limit lexemes lost count d d')
    (harena : d'.builder.Arena) (hl : lexemes[count]? = some l) :
    KeepsUp options limit lexemes lost (count + 1) (d.examineTransparent l)
      (d'.examineTransparent l) := by
  unfold Draft.examineTransparent
  split
  · exact h.examine harena hl
  · next hcode =>
    have hnone := DocComment.ofLexeme?_of_not_isTrivia options hcode
    exact h.skip ((docAt?_of_getElem? options hl).trans hnone)

theorem examineInside (h : KeepsUp options limit lexemes lost count d d')
    (hl : lexemes[count]? = some l) {ids : List EntryId} (hids : ids ≠ [])
    (hitem : d.builder.IsItem lexemes ids) (hitem' : d'.builder.IsItem lexemes ids) :
    KeepsUp options limit lexemes lost (count + 1) (Draft.examineInside ids d l)
      (Draft.examineInside ids d' l) := by
  have hdoc := docAt?_of_getElem? options hl
  unfold Draft.examineInside
  rw [h.reads.1, h.reads.2]
  -- A limit on gaps has no say in what a lexeme documents.
  have hunlimited : DocComment.ofLexeme? options.unlimited l = DocComment.ofLexeme? options l := rfl
  have hlimited :
      DocComment.ofLexeme? (options.within limit) l = DocComment.ofLexeme? options l := rfl
  rw [hunlimited, hlimited]
  cases hread : DocComment.ofLexeme? options l with
  | none => exact h.skip (hdoc.trans hread)
  | some doc => exact h.addDoc (hdoc.trans hread) hids hitem hitem'

end Lexemes

/-- What waits goes to entries of both drafts. -/
theorem handTo (h : KeepsUp options limit lexemes lost count d d') {ids : List EntryId}
    (hitem : d.builder.IsItem lexemes ids) (hitem' : d'.builder.IsItem lexemes ids) :
    KeepsUp options limit lexemes lost count (d.handTo ids) (d'.handTo ids) := by
  obtain ⟨⟨ledger, ledger', haccounts, haccounts', hspares⟩, hlast⟩ := h
  refine ⟨⟨_, _, haccounts.handTo hitem, haccounts'.handTo hitem', hspares.handOver ids⟩, ?_⟩
  rw [lastItem_handTo, lastItem_handTo]
  exact hlast

/-- New entries of both drafts get what was waiting. -/
theorem make (h : KeepsUp options limit lexemes lost count d d') {b b' : Builder}
    {ids : List EntryId} (hmakes : d.Makes lexemes b ids) (hmakes' : d'.Makes lexemes b' ids) :
    KeepsUp options limit lexemes lost count { d with builder := b, pending := none }
      { d' with builder := b', pending := none } := by
  obtain ⟨⟨ledger, ledger', haccounts, haccounts', hspares⟩, hlast⟩ := h
  exact ⟨⟨_, _, haccounts.make hmakes, haccounts'.make hmakes', hspares.handOver ids⟩, hlast⟩

/-- Neither outline gets documentation. -/
theorem grow (h : KeepsUp options limit lexemes lost count d d') {made : Entry → Prop}
    {b b' : Builder} (hgrows : d.builder.Grows made b) (hgrows' : d'.builder.Grows made b')
    (hdocs : ∀ i, b.docOf i = d.builder.docOf i) (hdocs' : ∀ i, b'.docOf i = d'.builder.docOf i) :
    KeepsUp options limit lexemes lost count { d with builder := b } { d' with builder := b' } := by
  obtain ⟨⟨ledger, ledger', haccounts, haccounts', hspares⟩, hlast⟩ := h
  exact ⟨⟨ledger, ledger', haccounts.grow hgrows hdocs, haccounts'.grow hgrows' hdocs', hspares⟩,
    hlast⟩

end KeepsUp

/-! ### The queue -/

/-- Two queues that stay where they are. -/
theorem SameQueue.of_both {d d' u u' : Draft} (h : d.SameQueue d') (hu : d.SameQueue u)
    (hu' : d'.SameQueue u') : u.SameQueue u' := by
  constructor
  · rw [hu'.unexamined, h.unexamined, hu.unexamined]
  · rw [hu'.examined, h.examined, hu.examined]

theorem SameQueue.examineTo {d d' : Draft} (h : d.SameQueue d') {examine : Draft → Lexeme → Draft}
    (hqueue : ∀ d l, SameQueue d (examine d l)) (place : Nat) :
    (d.examineTo examine place).SameQueue (d'.examineTo examine place) := by
  have hlast (u : Draft) := sameQueue_foldl hqueue (u.unexamined.take (place - u.examined))
    { u with
      unexamined := u.unexamined.drop (place - u.examined)
      examined := u.examined + (u.unexamined.take (place - u.examined)).length }
  constructor
  · refine (hlast d').unexamined.trans (Eq.trans ?_ (hlast d).unexamined.symm)
    rw [h.unexamined, h.examined]
  · refine (hlast d').examined.trans (Eq.trans ?_ (hlast d).examined.symm)
    rw [h.unexamined, h.examined]

/-- Two drafts with the same queue, of which the second one keeps up with the
    first one. -/
structure Abreast (options : Options) (limit : Nat) (lexemes : List Lexeme) (lost : Nat → Prop)
    (d d' : Draft) : Prop where
  /-- The queue is the rest of all lexemes. -/
  queue : d.unexamined = lexemes.drop d.examined
  /-- It is the same for both. -/
  same : d.SameQueue d'
  /-- What stands before it was attached by both. -/
  keepsUp : KeepsUp options limit lexemes lost d.examined d d'

namespace Abreast

variable {options : Options} {limit : Nat} {lexemes : List Lexeme} {lost : Nat → Prop}
variable {d d' u u' : Draft}

/-- What happens between examinations. -/
theorem of_sameQueue (h : Abreast options limit lexemes lost d d') (hqueue : d.SameQueue u)
    (hqueue' : d'.SameQueue u') (hkeepsUp : KeepsUp options limit lexemes lost d.examined u u') :
    Abreast options limit lexemes lost u u' := by
  constructor
  case queue => exact hqueue.rest h.queue
  case same => exact h.same.of_both hqueue hqueue'
  case keepsUp =>
    rw [hqueue.examined]
    exact hkeepsUp

theorem examineTo (h : Abreast options limit lexemes lost d d')
    {examine : Draft → Lexeme → Draft} (hqueue : ∀ d l, SameQueue d (examine d l))
    (hdocs : ∀ d l, Documents d (examine d l))
    (hexamine : ∀ n u u' l, lexemes[n]? = some l → d.Documents u → d'.Documents u' →
      KeepsUp options limit lexemes lost n u u' →
      KeepsUp options limit lexemes lost (n + 1) (examine u l) (examine u' l)) (place : Nat) :
    Abreast options limit lexemes lost (d.examineTo examine place)
      (d'.examineTo examine place) := by
  refine ⟨unexamined_examineTo hqueue h.queue place, h.same.examineTo hqueue place, ?_⟩
  -- The drafts on the way differ from the first ones in documentation at most.
  refine (examineTo_induct₂ (motive := fun n u u' => d.Documents u ∧ d'.Documents u' ∧
    KeepsUp options limit lexemes lost n u u') hqueue h.queue h.same ?_ ?_ place).2.2
  · rintro n u u' l hl ⟨hu, hu', hkeepsUp⟩
    exact ⟨hu.trans (hdocs u l), hu'.trans (hdocs u' l), hexamine n u u' l hl hu hu' hkeepsUp⟩
  · intro unexamined examined
    exact ⟨.refl d, .refl d',
      h.keepsUp.congr ⟨rfl, rfl, rfl⟩ ⟨rfl, rfl, rfl⟩ (.inl rfl) h.keepsUp.lastItem⟩

section Arena

variable (h : Abreast options limit lexemes lost d d') (harena : d'.builder.Arena)
include h harena

theorem examineAll (place : Nat) :
    Abreast options limit lexemes lost (d.examineTo examine place) (d'.examineTo examine place) :=
  h.examineTo sameQueue_examine documents_examine
    (fun _ _ _ _ hl _ hu' hkeepsUp => hkeepsUp.examine (harena.of_sameFrame hu'.sameFrame) hl) place

theorem sync (c : Cursor) : Abreast options limit lexemes lost (d.sync c) (d'.sync c) :=
  h.examineAll harena _

theorem skipTransparent (c : Cursor) :
    Abreast options limit lexemes lost (d.skipTransparent c) (d'.skipTransparent c) :=
  h.examineTo sameQueue_examineTransparent documents_examineTransparent
    (fun _ _ _ _ hl _ hu' hkeepsUp =>
      hkeepsUp.examineTransparent (harena.of_sameFrame hu'.sameFrame) hl) _

theorem ready (c : Cursor) : Abreast options limit lexemes lost (d.ready c) (d'.ready c) := by
  have hsynced := h.sync harena c
  have hforgot : KeepsUp options limit lexemes lost (d.sync c).examined
      { d.sync c with lastItem := none } { d'.sync c with lastItem := none } :=
    hsynced.keepsUp.congr ⟨rfl, rfl, rfl⟩ ⟨rfl, rfl, rfl⟩ (.inr rfl) rfl
  exact hsynced.of_sameQueue (d.sameQueue_ready c) (d'.sameQueue_ready c)
    (hforgot.handFar (harena.of_sameFrame (d'.sameFrame_sync c)) _)

/-- What still waits at the end of the source documents the innermost open
    entry. -/
theorem finish (hstack : d'.builder.stack = d.builder.stack) (harena₀ : d.builder.Arena)
    (c : Cursor) : Abreast options limit lexemes lost (d.finish c) (d'.finish c) := by
  have hlast := h.examineAll harena c.lexemeCount
  have hframe := (documents_examineTo documents_examine d c.lexemeCount).sameFrame
  have hframe' := (documents_examineTo documents_examine d' c.lexemeCount).sameFrame
  obtain ⟨top, htop, hmem, _⟩ := (harena₀.of_sameFrame hframe).exists_top
  have htop' : (d'.examineTo examine c.lexemeCount).builder.top? = some top := by
    rw [← htop, Builder.top?, Builder.top?, hframe'.stack, hframe.stack, hstack]
  have hmem' : top ∈ (d'.examineTo examine c.lexemeCount).builder.stack :=
    List.mem_of_mem_head? htop'
  rw [finish_eq, finish_eq, htop, htop']
  exact hlast.of_sameQueue (sameQueue_handTo _ _) (sameQueue_handTo _ _)
    (hlast.keepsUp.handTo (.single ((harena₀.of_sameFrame hframe).stack_lt top hmem))
      (.single ((harena.of_sameFrame hframe').stack_lt top hmem')))

end Arena

theorem itemDone (h : Abreast options limit lexemes lost d d') (c : Cursor) {ids : List EntryId}
    (hids : ids ≠ []) (hitem : d.builder.IsItem lexemes ids)
    (hitem' : d'.builder.IsItem lexemes ids) :
    Abreast options limit lexemes lost (d.itemDone c ids) (d'.itemDone c ids) := by
  have hdropped := h.of_sameQueue d.sameQueue_dropPending d'.sameQueue_dropPending
    h.keepsUp.dropPending
  have hinside := hdropped.examineTo (sameQueue_examineInside ids) (documents_examineInside ids)
    (fun _ _ _ _ hl hu hu' hkeepsUp => hkeepsUp.examineInside hl hids
      (hitem.of_documents (d.documents_dropPending.trans hu))
      (hitem'.of_documents (d'.documents_dropPending.trans hu'))) c.indexAfterPrev
  obtain ⟨⟨ledger, ledger', haccounts, haccounts', hspares⟩, _⟩ := hinside.keepsUp
  have hthere (u : Draft) :
      u.Documents (u.dropPending.examineTo (examineInside ids) c.indexAfterPrev) :=
    u.documents_dropPending.trans (documents_examineTo (documents_examineInside ids) _ _)
  exact hinside.of_sameQueue ⟨rfl, rfl⟩ ⟨rfl, rfl⟩
    ⟨⟨ledger, ledger', haccounts.setLast hids (hitem.of_documents (hthere d)) _,
      haccounts'.setLast hids (hitem'.of_documents (hthere d')) _, hspares⟩, rfl⟩

end Abreast

end Draft

end PascalOutline
