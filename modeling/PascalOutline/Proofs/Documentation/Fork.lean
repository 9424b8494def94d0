import PascalOutline.Proofs.Cursor.Fork
import PascalOutline.Proofs.Documentation.Draft

/-! # Documentation of two sources that begin alike

  What a draft does with a lexeme does not depend on the lexemes after it. So
  two drafts, of the two sources of a fork, stay the same while they examine
  lexemes of the stem; they differ in nothing but the queue of lexemes that
  were not examined yet (`Draft.Shares`).
-/

namespace PascalOutline

namespace Draft

/-! ### The queue has no say -/

/-- A draft with another queue. -/
def requeue (d : Draft) (unexamined : List Lexeme) : Draft :=
  { d with unexamined }

/-- A function of drafts does not look at the queue, and leaves it alone. -/
structure Blind (g : Draft → Draft) : Prop where
  /-- The same happens with any queue. -/
  requeue : ∀ d unexamined, g (d.requeue unexamined) = (g d).requeue unexamined
  /-- The same number of lexemes was examined. -/
  examined : ∀ d, (g d).examined = d.examined

namespace Blind

variable {g h : Draft → Draft}

theorem id : Blind fun d => d :=
  ⟨fun _ _ => rfl, fun _ => rfl⟩

theorem comp (hg : Blind g) (hh : Blind h) : Blind fun d => g (h d) :=
  ⟨fun d ls => by rw [hh.requeue, hg.requeue], fun d => (hg.examined _).trans (hh.examined d)⟩

theorem unexamined (hg : Blind g) (d : Draft) : (g d).unexamined = d.unexamined := by
  have hsame := congrArg Draft.unexamined (hg.requeue d d.unexamined)
  exact hsame

theorem sameQueue (hg : Blind g) (d : Draft) : d.SameQueue (g d) :=
  ⟨hg.unexamined d, hg.examined d⟩

theorem log (e : Event) : Blind (·.log e) :=
  ⟨fun _ _ => rfl, fun _ => rfl⟩

theorem setLastItem (item : Option LastItem) : Blind fun d => { d with lastItem := item } :=
  ⟨fun _ _ => rfl, fun _ => rfl⟩

theorem setPending (pending : Option Pending) : Blind fun d => { d with pending } :=
  ⟨fun _ _ => rfl, fun _ => rfl⟩

theorem dropPending : Blind Draft.dropPending := by
  refine ⟨fun d ls => ?_, fun d => (sameQueue_dropPending d).examined⟩
  obtain ⟨options, builder, unexamined, examined, pending, lastItem, events⟩ := d
  cases pending <;> rfl

theorem handFar (line : Nat) : Blind (·.handFar line) := by
  refine ⟨fun d ls => ?_, fun d => (sameQueue_handFar d line).examined⟩
  obtain ⟨options, builder, unexamined, examined, pending, lastItem, events⟩ := d
  cases pending with
  | none => rfl
  | some p =>
    by_cases hfar :
      (options.docGap.any fun limit => decide (limit < line - (p.lastLine + 1))) = true
    · simp [Draft.handFar, Draft.requeue, exceedsGap, hfar, handTo, Draft.addDoc, orphanage]
    · simp [Draft.handFar, Draft.requeue, exceedsGap, hfar]

theorem hold (doc : DocComment) : Blind (·.hold doc) := by
  refine ⟨fun d ls => ?_, fun d => (sameQueue_hold d doc).examined⟩
  rw [hold_eq, hold_eq, (handFar doc.line).requeue]
  rfl

theorem takeUp (doc : DocComment) : Blind (·.takeUp doc) := by
  refine ⟨fun d ls => ?_, fun d => (sameQueue_takeUp d doc).examined⟩
  have hhold := (hold doc).requeue d ls
  obtain ⟨options, builder, unexamined, examined, pending, lastItem, events⟩ := d
  cases lastItem with
  | none =>
    cases htrailing : doc.trailing with
    | false => simpa [Draft.takeUp, htrailing, Draft.requeue] using hhold
    | true => simp [Draft.takeUp, htrailing, Draft.requeue, Draft.log]
  | some item =>
    cases hline : doc.trailing || doc.line == item.line with
    | false => simpa [Draft.takeUp, hline, Draft.requeue] using hhold
    | true => simp [Draft.takeUp, hline, Draft.requeue, Draft.addDoc]

theorem examine (l : Lexeme) : Blind (Draft.examine · l) := by
  refine ⟨fun d ls => ?_, fun d => (sameQueue_examine d l).examined⟩
  cases htrivia : l.isTrivia with
  | false =>
    have hdrop := dropPending.requeue d ls
    simp only [Draft.examine, htrivia, Bool.false_eq_true, if_false, hdrop]
    rfl
  | true =>
    simp only [Draft.examine, htrivia, if_true]
    show ((DocComment.ofLexeme? d.options l).map (d.requeue ls).takeUp).getD (d.requeue ls) = _
    cases DocComment.ofLexeme? d.options l with
    | none => rfl
    | some doc => exact (takeUp doc).requeue d ls

theorem examineTransparent (l : Lexeme) : Blind (Draft.examineTransparent · l) := by
  unfold Draft.examineTransparent
  split
  · exact examine l
  · exact .id

theorem examineInside (ids : List EntryId) (l : Lexeme) : Blind (Draft.examineInside ids · l) := by
  refine ⟨fun d ls => ?_, fun d => (sameQueue_examineInside ids d l).examined⟩
  obtain ⟨options, builder, unexamined, examined, pending, lastItem, events⟩ := d
  unfold Draft.examineInside
  dsimp only [Draft.requeue]
  cases DocComment.ofLexeme? options l <;> rfl

theorem foldl {examine : Draft → Lexeme → Draft} (hexamine : ∀ l, Blind (examine · l))
    (lexemes : List Lexeme) : Blind (lexemes.foldl examine) := by
  induction lexemes with
  | nil => exact .id
  | cons l ls ih => exact ih.comp (hexamine l)

end Blind

/-! ### Drafts of the two sources -/

/-- Two drafts, of the two sources of a fork, are the same but for their
    queues. -/
structure Shares (f : Fork) (d d' : Draft) : Prop where
  /-- The queue of the one draft is in the first source. -/
  queue : d.unexamined = f.leftLexemes.drop d.examined
  /-- The other draft has a queue in the second source. -/
  eq : d' = d.requeue (f.rightLexemes.drop d.examined)

namespace Shares

variable {f : Fork} {d d' : Draft} {c c' : Cursor}

/-- The same outline was drafted. -/
theorem builder (h : Shares f d d') : d'.builder = d.builder := by
  rw [h.eq]
  rfl

theorem blind (h : Shares f d d') {g : Draft → Draft} (hg : Blind g) : Shares f (g d) (g d') := by
  constructor
  · rw [hg.unexamined, hg.examined, h.queue]
  · rw [h.eq, hg.requeue, hg.examined]

/-- The outlines are changed in the same way. -/
theorem build (h : Shares f d d') (g : Builder → Builder) :
    Shares f { d with builder := g d.builder } { d' with builder := g d'.builder } := by
  obtain ⟨hqueue, rfl⟩ := h
  exact ⟨hqueue, rfl⟩

/-- The lexemes up to a place in the stem are the same in both sources. -/
theorem examineTo (h : Shares f d d') {examine : Draft → Lexeme → Draft}
    (hexamine : ∀ l, Blind (examine · l)) {place : Nat} (hplace : place ≤ f.stem.length) :
    Shares f (d.examineTo examine place) (d'.examineTo examine place) := by
  obtain ⟨hqueue, rfl⟩ := h
  have hsame (d : Draft) (l : Lexeme) : d.SameQueue (examine d l) := (hexamine l).sameQueue d
  refine ⟨unexamined_examineTo hsame hqueue place, ?_⟩
  have hfound : (f.rightLexemes.drop d.examined).take (place - d.examined)
      = d.unexamined.take (place - d.examined) := by
    rw [hqueue, ← List.drop_take, ← List.drop_take, Fork.leftLexemes, Fork.rightLexemes,
      List.take_append_of_le_length hplace, List.take_append_of_le_length hplace]
  have hexamined : (d.examineTo examine place).examined
      = d.examined + (d.unexamined.take (place - d.examined)).length :=
    (sameQueue_foldl hsame _ _).examined
  have hrest : (f.rightLexemes.drop d.examined).drop (place - d.examined)
      = f.rightLexemes.drop (d.examineTo examine place).examined := by
    have hlength : d.unexamined.length = f.stem.length + f.left.length - d.examined := by
      rw [hqueue, List.length_drop, Fork.leftLexemes, List.length_append]
    rw [List.drop_drop, hexamined, List.length_take, hlength]
    congr 1
    omega
  rw [← hrest]
  unfold Draft.examineTo
  dsimp only [Draft.requeue]
  rw [hfound]
  exact (Blind.foldl hexamine _).requeue { d with
    unexamined := d.unexamined.drop (place - d.examined)
    examined := d.examined + (d.unexamined.take (place - d.examined)).length } _

theorem sync (h : Shares f d d') (hc : c.Shares f c') : Shares f (d.sync c) (d'.sync c') := by
  obtain ⟨hindex, hlt⟩ := hc.lexemeIndex
  unfold Draft.sync
  rw [hindex]
  exact h.examineTo Blind.examine (Nat.le_of_lt hlt)

theorem skipTransparent (h : Shares f d d') (hc : c.Shares f c') :
    Shares f (d.skipTransparent c) (d'.skipTransparent c') := by
  obtain ⟨hindex, hle⟩ := hc.indexAfterPrev
  unfold Draft.skipTransparent
  rw [hindex]
  exact h.examineTo Blind.examineTransparent hle

theorem takeLeading (h : Shares f d d') (hc : c.Shares f c') :
    (d'.takeLeading c').1 = (d.takeLeading c).1 ∧
      Shares f (d.takeLeading c).2 (d'.takeLeading c').2 := by
  have hready : Shares f (d.ready c) (d'.ready c') := by
    unfold ready
    rw [hc.location]
    exact (h.sync hc).blind ((Blind.handFar c.location.line).comp (.setLastItem none))
  rw [takeLeading_eq, takeLeading_eq]
  refine ⟨?_, hready.blind (.setPending none)⟩
  rw [hready.eq]
  rfl

theorem itemDone (h : Shares f d d') (hc : c.Shares f c') (ids : List EntryId) :
    Shares f (d.itemDone c ids) (d'.itemDone c' ids) := by
  obtain ⟨hindex, hle⟩ := hc.indexAfterPrev
  unfold Draft.itemDone
  rw [hindex, hc.prevStop]
  exact ((h.blind .dropPending).examineTo (Blind.examineInside ids) hle).blind (.setLastItem _)

end Shares

end Draft

end PascalOutline
