import PascalOutline.Proofs.Documentation.Register

/-! # The course of a draft

  Whatever a draft does with the lexemes that it examines, a register can follow
  it turn by turn. There is one lemma for each function of a draft; those that
  examine a lexeme get from one place to the next.
-/

namespace PascalOutline

/-! ### Handing over -/

namespace Draft

/-- What waits goes to some entries. -/
def handTo (d : Draft) (ids : List EntryId) : Draft :=
  match d.pending with
  | some p => { d.addDoc ids p.text with pending := none }
  | none => d

theorem pending_handTo (d : Draft) (ids : List EntryId) : (d.handTo ids).pending = none := by
  unfold handTo
  split
  · rfl
  · next hnone => exact hnone

theorem lastItem_dropPending (d : Draft) : d.dropPending.lastItem = d.lastItem := by
  unfold dropPending
  split <;> rfl

theorem lastItem_handTo (d : Draft) (ids : List EntryId) :
    (d.handTo ids).lastItem = d.lastItem := by
  unfold handTo
  split <;> rfl

theorem documents_handTo (d : Draft) (ids : List EntryId) : d.Documents (d.handTo ids) := by
  unfold handTo
  split
  · exact d.documents_addDoc _ _
  · exact .refl d

/-- What is too far away from a line goes to what stands before it. -/
def handFar (d : Draft) (line : Nat) : Draft :=
  if d.pending.any fun p => d.exceedsGap p.lastLine line then d.handTo d.orphanage else d

theorem lastItem_handFar (d : Draft) (line : Nat) : (d.handFar line).lastItem = d.lastItem := by
  unfold handFar
  split
  · exact d.lastItem_handTo _
  · rfl

/-- What still waits is near the line. -/
theorem near_handFar (d : Draft) (line : Nat) :
    (d.handFar line).pending.any (fun p => (d.handFar line).exceedsGap p.lastLine line)
      = false := by
  unfold handFar
  split
  · rw [pending_handTo]
    rfl
  · next hnear => exact Bool.not_eq_true _ ▸ hnear

/-- Before a comment waits too, what is too far away from it is handed back. -/
theorem hold_eq (d : Draft) (doc : DocComment) :
    d.hold doc = { d.handFar doc.line with
      pending := some ((d.handFar doc.line).pending.elim ⟨doc.text, doc.lastLine⟩
        (joinDocs · doc)) } := by
  obtain ⟨options, builder, unexamined, examined, pending, lastItem, events⟩ := d
  cases pending with
  | none => rfl
  | some p =>
    unfold hold handFar
    dsimp only [Option.any_some]
    split <;> rfl

/-- A draft before it hands documentation over for what begins at a cursor. -/
def ready (d : Draft) (c : Cursor) : Draft :=
  handFar { d.sync c with lastItem := none } c.location.line

/-- The documentation that is handed over was waiting; after that nothing
    waits. -/
theorem takeLeading_eq (d : Draft) (c : Cursor) :
    d.takeLeading c
      = (((d.ready c).pending.map Pending.text).getD "", { d.ready c with pending := none }) := by
  unfold takeLeading ready handFar
  generalize ({ d.sync c with lastItem := none } : Draft) = synced
  obtain ⟨options, builder, unexamined, examined, pending, lastItem, events⟩ := synced
  cases pending with
  | none => rfl
  | some p =>
    by_cases hfar : (options.docGap.any fun limit =>
        decide (limit < c.location.line - (p.lastLine + 1))) = true
    · simp [exceedsGap, hfar, handTo, addDoc, orphanage]
    · simp [exceedsGap, hfar]

theorem documents_ready (d : Draft) (c : Cursor) : d.Documents (d.ready c) := by
  have hdocs := d.documents_takeLeading c
  rwa [takeLeading_eq] at hdocs

theorem finish_eq (d : Draft) (c : Cursor) :
    d.finish c = (d.examineTo examine c.lexemeCount).handTo
      (d.examineTo examine c.lexemeCount).builder.top?.toList :=
  rfl

end Draft

/-- What was waiting goes to entries that were there. -/
theorem Ledger.Accounts.handTo {options : Options} {lexemes : List Lexeme} {ledger : Ledger}
    {count : Nat} {d : Draft} (h : ledger.Accounts options lexemes count d) {ids : List EntryId}
    (hitem : d.builder.IsItem lexemes ids) :
    (ledger.handOver ids).Accounts options lexemes count (d.handTo ids) := by
  have htext := h.text_pending
  unfold Draft.handTo
  split
  · next p hpending =>
    have hgrows : d.builder.Grows (fun _ => False)
        (ids.foldl (fun b id => b.addDoc id p.text) d.builder) :=
      .of_documents (.foldl_addDoc d.builder ids p.text)
    refine h.handOver hgrows (hitem.of_grows hgrows) ?_
    rw [htext, hpending]
    exact d.builder.docOf_foldl_addDoc hitem.nodup hitem.lt_size p.text
  · next hnone =>
    -- Nothing waits, and no entry gets anything.
    have hsame : d.builder.Grows (fun _ => False) d.builder := .refl _
    refine (h.handOver hsame hitem ?_).congr rfl rfl hnone fun _ hlast => hlast
    intro i
    rw [htext, hnone]
    split <;> rfl

namespace Draft

/-- The queue of a draft is at the same place. -/
structure SameQueue (d d' : Draft) : Prop where
  /-- The same lexemes are left. -/
  unexamined : d'.unexamined = d.unexamined
  /-- The same number was examined. -/
  examined : d'.examined = d.examined

/-! ### The queue -/

namespace SameQueue

variable {d d' d'' : Draft}

theorem refl (d : Draft) : d.SameQueue d :=
  ⟨rfl, rfl⟩

theorem trans (h : d.SameQueue d') (h' : d'.SameQueue d'') : d.SameQueue d'' :=
  ⟨h'.unexamined.trans h.unexamined, h'.examined.trans h.examined⟩

theorem rest (h : d.SameQueue d') {lexemes : List Lexeme}
    (hd : d.unexamined = lexemes.drop d.examined) :
    d'.unexamined = lexemes.drop d'.examined := by
  rw [h.unexamined, h.examined, hd]

end SameQueue

theorem sameQueue_dropPending (d : Draft) : d.SameQueue d.dropPending := by
  unfold dropPending
  split <;> exact ⟨rfl, rfl⟩

theorem sameQueue_handTo (d : Draft) (ids : List EntryId) : d.SameQueue (d.handTo ids) := by
  unfold handTo
  split
  · exact ⟨rfl, rfl⟩
  · exact .refl d

theorem sameQueue_handFar (d : Draft) (line : Nat) : d.SameQueue (d.handFar line) := by
  unfold handFar
  split
  · exact d.sameQueue_handTo _
  · exact .refl d

theorem sameQueue_ready (d : Draft) (c : Cursor) : (d.sync c).SameQueue (d.ready c) :=
  have hfar := sameQueue_handFar { d.sync c with lastItem := none } c.location.line
  ⟨hfar.unexamined, hfar.examined⟩

theorem sameQueue_hold (d : Draft) (doc : DocComment) : d.SameQueue (d.hold doc) := by
  rw [hold_eq]
  exact ⟨(d.sameQueue_handFar doc.line).unexamined, (d.sameQueue_handFar doc.line).examined⟩

theorem sameQueue_takeUp (d : Draft) (doc : DocComment) : d.SameQueue (d.takeUp doc) := by
  unfold takeUp
  split
  · split
    · exact ⟨rfl, rfl⟩
    · exact d.sameQueue_hold doc
  · split
    · exact ⟨rfl, rfl⟩
    · exact d.sameQueue_hold doc

theorem sameQueue_examine (d : Draft) (l : Lexeme) : d.SameQueue (d.examine l) := by
  unfold examine
  split
  · cases DocComment.ofLexeme? d.options l with
    | none => exact .refl d
    | some doc => exact d.sameQueue_takeUp doc
  · exact ⟨d.sameQueue_dropPending.unexamined, d.sameQueue_dropPending.examined⟩

theorem sameQueue_examineTransparent (d : Draft) (l : Lexeme) :
    d.SameQueue (d.examineTransparent l) := by
  unfold examineTransparent
  split
  · exact d.sameQueue_examine l
  · exact .refl d

theorem sameQueue_examineInside (ids : List EntryId) (d : Draft) (l : Lexeme) :
    d.SameQueue (examineInside ids d l) := by
  unfold examineInside
  split <;> exact ⟨rfl, rfl⟩

theorem sameQueue_foldl {f : Draft → Lexeme → Draft} (hf : ∀ d l, SameQueue d (f d l))
    (lexemes : List Lexeme) (d : Draft) : d.SameQueue (lexemes.foldl f d) := by
  induction lexemes generalizing d with
  | nil => exact .refl d
  | cons l ls ih => exact (hf d l).trans (ih _)

section ExamineTo

variable {lexemes : List Lexeme} {d : Draft} {examine : Draft → Lexeme → Draft}
variable (hqueue : ∀ d l, SameQueue d (examine d l)) (hd : d.unexamined = lexemes.drop d.examined)
include hqueue hd

theorem examined_examineTo (place : Nat) :
    (d.examineTo examine place).examined = max d.examined (min place lexemes.length) := by
  have hexamined : (d.examineTo examine place).examined
      = d.examined + (d.unexamined.take (place - d.examined)).length :=
    (sameQueue_foldl hqueue _ _).examined
  rw [hexamined, hd, List.length_take, List.length_drop]
  omega

theorem unexamined_examineTo (place : Nat) :
    (d.examineTo examine place).unexamined = lexemes.drop (d.examineTo examine place).examined := by
  let found := d.unexamined.take (place - d.examined)
  have hlast := sameQueue_foldl hqueue found
    { d with
      unexamined := d.unexamined.drop (place - d.examined)
      examined := d.examined + found.length }
  have hsplit : lexemes.drop d.examined = found ++ d.unexamined.drop (place - d.examined) := by
    rw [← hd]
    exact (List.take_append_drop _ _).symm
  show (found.foldl examine _).unexamined = lexemes.drop (found.foldl examine _).examined
  rw [hlast.unexamined, hlast.examined]
  show _ = lexemes.drop (d.examined + found.length)
  rw [← List.drop_drop, hsplit, List.drop_left]

/-- What examining one lexeme after the other keeps, for two drafts with the
    same queue. -/
theorem examineTo_induct₂ {motive : Nat → Draft → Draft → Prop} {d' : Draft}
    (hsame : d.SameQueue d')
    (hstep : ∀ n d d' l, lexemes[n]? = some l → motive n d d' →
      motive (n + 1) (examine d l) (examine d' l))
    (hstart : ∀ unexamined examined,
      motive d.examined { d with unexamined, examined } { d' with unexamined, examined })
    (place : Nat) :
    motive (d.examineTo examine place).examined (d.examineTo examine place)
      (d'.examineTo examine place) := by
  have hfoldl : ∀ {found rest : List Lexeme} {n : Nat} {d d' : Draft},
      lexemes.drop n = found ++ rest → motive n d d' →
      motive (n + found.length) (found.foldl examine d) (found.foldl examine d') := by
    intro found rest
    induction found with
    | nil => exact fun _ h => h
    | cons l ls ih =>
      intro n d d' hfound h
      have hl : lexemes[n]? = some l := by
        rw [← List.head?_drop, hfound]
        rfl
      have hnext : lexemes.drop (n + 1) = ls ++ rest := by
        rw [← List.tail_drop, hfound]
        rfl
      have hrest := ih hnext (hstep n d d' l hl h)
      rw [List.foldl_cons, List.foldl_cons, List.length_cons]
      rwa [Nat.add_assoc, Nat.add_comm 1] at hrest
  have hsplit : lexemes.drop d.examined
      = d.unexamined.take (place - d.examined) ++ d.unexamined.drop (place - d.examined) := by
    rw [← hd]
    exact (List.take_append_drop _ _).symm
  have hexamined : (d.examineTo examine place).examined
      = d.examined + (d.unexamined.take (place - d.examined)).length :=
    (sameQueue_foldl hqueue _ _).examined
  rw [hexamined]
  unfold examineTo
  rw [hsame.unexamined, hsame.examined]
  exact hfoldl hsplit (hstart _ _)

/-- What examining one lexeme after the other keeps. -/
theorem examineTo_induct {motive : Nat → Draft → Prop}
    (hstep : ∀ n d l, lexemes[n]? = some l → motive n d → motive (n + 1) (examine d l))
    (hstart : ∀ unexamined examined, motive d.examined { d with unexamined, examined })
    (place : Nat) :
    motive (d.examineTo examine place).examined (d.examineTo examine place) :=
  examineTo_induct₂ (motive := fun n d _ => motive n d) hqueue hd (.refl d)
    (fun n d _ l => hstep n d l) hstart place

end ExamineTo

section Queue

variable {lexemes : List Lexeme} {d : Draft} (hd : d.unexamined = lexemes.drop d.examined)
include hd

theorem examined_sync (c : Cursor) :
    (d.sync c).examined = max d.examined (min c.lexemeIndex lexemes.length) :=
  examined_examineTo sameQueue_examine hd _

theorem examined_skipTransparent (c : Cursor) :
    (d.skipTransparent c).examined = max d.examined (min c.indexAfterPrev lexemes.length) :=
  examined_examineTo sameQueue_examineTransparent hd _

theorem examined_itemDone (c : Cursor) (ids : List EntryId) :
    (d.itemDone c ids).examined = max d.examined (min c.indexAfterPrev lexemes.length) := by
  have hsame := d.sameQueue_dropPending
  rw [← hsame.examined]
  exact examined_examineTo (sameQueue_examineInside ids) (hsame.rest hd) _

theorem unexamined_itemDone (c : Cursor) (ids : List EntryId) :
    (d.itemDone c ids).unexamined = lexemes.drop (d.itemDone c ids).examined :=
  unexamined_examineTo (sameQueue_examineInside ids) (d.sameQueue_dropPending.rest hd) _

theorem examined_finish (c : Cursor) :
    (d.finish c).examined = max d.examined (min c.lexemeCount lexemes.length) := by
  rw [finish_eq, (sameQueue_handTo _ _).examined]
  exact examined_examineTo sameQueue_examine hd _

end Queue

end Draft

/-! ### Registers -/

/-- What is too far from a line goes to one entry, or there is none yet. -/
theorem Builder.Fits.isItem_orphanage {lexemes : List Lexeme} {d : Draft} (h : d.builder.Fits) :
    d.builder.IsItem lexemes d.orphanage := by
  rcases Draft.orphanage_cases h with ⟨_, hnone⟩ | ⟨id, hid, horphanage⟩
  · rw [hnone]
    exact .nil
  · rw [horphanage]
    exact .single hid

/-- The draft and the ledger agree on what is too far from a line. -/
theorem Ledger.Accounts.tooFar_iff {options : Options} {lexemes : List Lexeme} {ledger : Ledger}
    {count : Nat} {d : Draft} (h : ledger.Accounts options lexemes count d) (line : Nat) :
    TooFar options lexemes ledger.waiting line
      ↔ (d.pending.any fun p => d.exceedsGap p.lastLine line) = true := by
  have hpending := h.pending
  have hleads := h.leads
  generalize ledger.waiting = waiting at hpending hleads ⊢
  rw [hpending]
  cases waiting using List.reverseRecOn with
  | nil => simp [TooFar, Pending.ofDocs]
  | append_singleton places last =>
    obtain ⟨doc, hdoc, _⟩ := hleads last (by simp)
    simp only [TooFar, List.getLast?_append, List.getLast?_singleton, Option.some_or,
      Option.some.injEq, List.filterMap_append, List.filterMap_cons, hdoc, List.filterMap_nil,
      Pending.ofDocs, Option.map_some, Option.any_some, Draft.exceedsGap, h.reads,
      Option.any_eq_true, decide_eq_true_eq]
    constructor
    · rintro ⟨place, other, limit, rfl, hother, hlimit, hfar⟩
      obtain rfl := Option.some.inj (hdoc.symm.trans hother)
      exact ⟨limit, hlimit, by omega⟩
    · rintro ⟨limit, hlimit, hfar⟩
      exact ⟨last, doc, limit, rfl, hdoc, hlimit, by omega⟩

namespace Register.Records

variable {options : Options} {lexemes : List Lexeme} {r : Register} {d d' : Draft}

/-- What a register knows of a draft. -/
theorem congr (h : r.Records options lexemes d) (hoptions : d'.options = d.options)
    (hbuilder : d'.builder = d.builder) (hpending : d'.pending = d.pending)
    (hlast : d'.lastItem = d.lastItem) : r.Records options lexemes d' := by
  constructor
  case made => rw [hbuilder, h.made]
  case opened => rw [hbuilder, h.opened]
  case lastItem => rw [hlast, h.lastItem]
  case accounts =>
    exact h.accounts.congr hoptions hbuilder hpending fun item hitem => hlast.symm.trans hitem

/-- The next comment is delivered. -/
theorem give (h : r.Records options lexemes d) {doc : DocComment}
    (hdoc : docAt? options lexemes r.count = some doc) {route : Route} {ids : List EntryId}
    (hregular : Delivery.Regular options lexemes ⟨[r.count], route, ids⟩)
    (hitem : d.builder.IsItem lexemes ids) :
    Records options lexemes
      { r with count := r.count + 1, ledger := r.ledger.give r.count route ids }
      (d.addDoc ids doc.text) := by
  have hframe := (d.documents_addDoc ids doc.text).sameFrame
  exact ⟨h.made.trans hframe.size.symm, h.opened.trans hframe.stack.symm, h.lastItem,
    h.accounts.give hdoc hregular hitem⟩

/-- What waits goes to entries that were there. -/
theorem handTo (h : r.Records options lexemes d) {ids : List EntryId}
    (hitem : d.builder.IsItem lexemes ids) :
    Records options lexemes { r with ledger := r.ledger.handOver ids } (d.handTo ids) := by
  have hframe := (d.documents_handTo ids).sameFrame
  exact ⟨h.made.trans hframe.size.symm, h.opened.trans hframe.stack.symm,
    h.lastItem.trans (d.lastItem_handTo ids).symm, h.accounts.handTo hitem⟩

/-- What waits is dropped. -/
theorem dropPending (h : r.Records options lexemes d) :
    Records options lexemes { r with ledger := r.ledger.handOver [] } d.dropPending := by
  have hframe := d.documents_dropPending.sameFrame
  exact ⟨h.made.trans hframe.size.symm, h.opened.trans hframe.stack.symm,
    h.lastItem.trans d.lastItem_dropPending.symm, h.accounts.dropPending⟩

/-- The last item has no claim any more. -/
theorem forget (h : r.Records options lexemes d) :
    Records options lexemes { r with lastItem := none } { d with lastItem := none } :=
  ⟨h.made, h.opened, rfl, h.accounts.congr rfl rfl rfl fun _ hnone => by cases hnone⟩

/-- The next lexeme does not document. -/
theorem skip (h : r.Records options lexemes d) (hnone : docAt? options lexemes r.count = none) :
    Records options lexemes { r with count := r.count + 1 } d :=
  ⟨h.made, h.opened, h.lastItem, h.accounts.skip hnone⟩

end Register.Records

namespace Draft

/-- Some course leads from the register `before` to one that is up to date with
    a draft of the first `count` lexemes. The next ones stand inside of entries,
    or outside of all. Entries may begin with the lexemes from `bound` on. -/
def Accounted (options : Options) (lexemes : List Lexeme) (before : Register) (bound : Nat)
    (inside : Option (List EntryId)) (count : Nat) (d : Draft) : Prop :=
  ∃ r : Register, Register.Course options lexemes d.builder.entry? before r ∧
    r.Records options lexemes d ∧ r.count = count ∧ r.inside = inside ∧ r.barred ≤ bound

namespace Accounted

variable {options : Options} {lexemes : List Lexeme} {before : Register} {bound count : Nat}
variable {inside : Option (List EntryId)} {d d' : Draft}

/-- There is a ledger for the comments that were examined. -/
theorem exists_accounts (h : d.Accounted options lexemes before bound inside count) :
    ∃ ledger : Ledger, ledger.Accounts options lexemes count d := by
  obtain ⟨r, _, hr, rfl, _, _⟩ := h
  exact ⟨r.ledger, hr.accounts⟩

theorem reads (h : d.Accounted options lexemes before bound inside count) :
    d.options = options := by
  obtain ⟨_, haccounts⟩ := h.exists_accounts
  exact haccounts.reads

theorem lastItem (h : d.Accounted options lexemes before bound inside count) {item : LastItem}
    (hitem : d.lastItem = some item) : item.ids ≠ [] ∧ d.builder.IsItem lexemes item.ids := by
  obtain ⟨_, haccounts⟩ := h.exists_accounts
  exact haccounts.lastItem item hitem

theorem mono (h : d.Accounted options lexemes before bound inside count) {later : Nat}
    (hle : bound ≤ later) : d.Accounted options lexemes before later inside count := by
  obtain ⟨r, hcourse, hr, hcount, hinside, hbarred⟩ := h
  exact ⟨r, hcourse, hr, hcount, hinside, Nat.le_trans hbarred hle⟩

theorem congr (h : d.Accounted options lexemes before bound inside count)
    (hoptions : d'.options = d.options) (hbuilder : d'.builder = d.builder)
    (hpending : d'.pending = d.pending) (hlast : d'.lastItem = d.lastItem) :
    d'.Accounted options lexemes before bound inside count := by
  obtain ⟨r, hcourse, hr, hrest⟩ := h
  refine ⟨r, ?_, hr.congr hoptions hbuilder hpending hlast, hrest⟩
  rw [hbuilder]
  exact hcourse

/-- One more turn. -/
theorem turn (h : d.Accounted options lexemes before bound inside count)
    (hgrows : d.builder.Grows (fun _ => True) d'.builder) {bound' count' : Nat}
    {inside' : Option (List EntryId)}
    (hturn : ∀ r : Register, r.Records options lexemes d → r.count = count → r.inside = inside →
      r.barred ≤ bound → ∃ r' : Register,
        Register.Turn options lexemes d'.builder.entry? r r' ∧ r'.Records options lexemes d' ∧
          r'.count = count' ∧ r'.inside = inside' ∧ r'.barred ≤ bound') :
    d'.Accounted options lexemes before bound' inside' count' := by
  obtain ⟨r, hcourse, hr, hcount, hinside, hbarred⟩ := h
  obtain ⟨r', hnext, hrest⟩ := hturn r hr hcount hinside hbarred
  exact ⟨r', (Register.Course.mono (.of_grows hgrows) hcourse).tail hnext, hrest⟩

/-- Entries get an end or another text. -/
theorem grow (h : d.Accounted options lexemes before bound inside count) {made : Entry → Prop}
    {b : Builder} (hgrows : d.builder.Grows made b) (hdocs : ∀ i, b.docOf i = d.builder.docOf i)
    (hsize : b.entries.size = d.builder.entries.size) (hstack : b.stack = d.builder.stack) :
    Accounted options lexemes before bound inside count { d with builder := b } := by
  obtain ⟨r, hcourse, hr, hrest⟩ := h
  exact ⟨r, hcourse.mono (.of_grows hgrows), ⟨hr.made.trans hsize.symm, hr.opened.trans hstack.symm,
    hr.lastItem, hr.accounts.grow hgrows hdocs⟩, hrest⟩

/-- The next lexeme does not document. -/
theorem skip (h : d.Accounted options lexemes before bound inside count)
    (hlt : count < lexemes.length) (hnone : docAt? options lexemes count = none) :
    d.Accounted options lexemes before bound inside (count + 1) := by
  refine h.turn (.refl _) ?_
  rintro r hr rfl hinside hbarred
  exact ⟨_, .pass hlt hnone, hr.skip hnone, rfl, hinside, hbarred⟩

/-! ### Taking up comments -/

/-- The next comment stands inside of entries. -/
theorem within {ids : List EntryId}
    (h : d.Accounted options lexemes before bound (some ids) count) {doc : DocComment}
    (hdoc : docAt? options lexemes count = some doc) (hids : ids ≠ [])
    (hitem : d.builder.IsItem lexemes ids) :
    (d.addDoc ids doc.text).Accounted options lexemes before bound (some ids) (count + 1) := by
  have hdocs : d.Documents (d.addDoc ids doc.text) := d.documents_addDoc _ _
  refine h.turn (.of_documents hdocs) ?_
  rintro r hr rfl hinside hbarred
  exact ⟨_, .within hinside hdoc, hr.give hdoc ⟨hids, r.count, rfl⟩ hitem, rfl, hinside, hbarred⟩

section Outside

variable (h : d.Accounted options lexemes before bound none count)
include h

/-- The next comment trails the last item. -/
theorem trail {doc : DocComment} (hdoc : docAt? options lexemes count = some doc) {item : LastItem}
    (hitem : d.lastItem = some item) (htrails : doc.trailing = true ∨ doc.line = item.line) :
    (d.addDoc item.ids doc.text).Accounted options lexemes before bound none (count + 1) := by
  obtain ⟨hids, hthere⟩ := h.lastItem hitem
  have hdocs : d.Documents (d.addDoc item.ids doc.text) := d.documents_addDoc _ _
  refine h.turn (.of_documents hdocs) ?_
  rintro r hr rfl hinside hbarred
  exact ⟨_, .trail hinside hdoc (hr.lastItem.trans hitem) htrails,
    hr.give hdoc ⟨hids, r.count, rfl⟩ hthere, rfl, hinside, hbarred⟩

/-- The next comment is marked as trailing, but there is no last item. -/
theorem drop {doc : DocComment} (hdoc : docAt? options lexemes count = some doc)
    (hitem : d.lastItem = none) (htrailing : doc.trailing = true) :
    d.Accounted options lexemes before bound none (count + 1) := by
  refine h.turn (.refl _) ?_
  rintro r hr rfl hinside hbarred
  exact ⟨_, .drop hinside hdoc (hr.lastItem.trans hitem) htrailing,
    hr.give hdoc ⟨rfl, r.count, doc, rfl, hdoc, htrailing⟩ .nil, rfl, hinside, hbarred⟩

/-- What is too far from the next lexeme goes to what stands before it. -/
theorem handFar (hfits : d.builder.Fits) {l : Lexeme} (hl : lexemes[count]? = some l)
    (hnext : l.isTrivia = false ∨ Leads options lexemes count) :
    (d.handFar l.start.line).Accounted options lexemes before bound none count := by
  unfold Draft.handFar
  split
  · next hfar =>
    have hdocs : d.Documents (d.handTo d.orphanage) := d.documents_handTo _
    refine h.turn (.of_documents hdocs) ?_
    rintro r hr rfl hinside hbarred
    refine ⟨_, .far hinside hl hnext ((hr.accounts.tooFar_iff _).mpr hfar) ?_,
      hr.handTo hfits.isItem_orphanage, rfl, hinside, hbarred⟩
    rw [hr.made, hr.opened]
    exact orphanage_cases hfits
  · exact h

/-- The next comment waits. -/
theorem hold (hfits : d.builder.Fits) {l : Lexeme} (hl : lexemes[count]? = some l)
    {doc : DocComment} (hread : DocComment.ofLexeme? options l = some doc)
    (hleads : doc.trailing = false)
    (hitem : ∀ item, d.lastItem = some item → doc.line ≠ item.line) :
    (d.hold doc).Accounted options lexemes before bound none (count + 1) := by
  have hdoc := (docAt?_of_getElem? options hl).trans hread
  have hline := (DocComment.line_of_ofLexeme? hread).1
  rw [hold_eq, hline]
  have hfar := h.handFar hfits hl (.inr ⟨doc, hdoc, hleads⟩)
  refine hfar.turn ?_ ?_
  · exact .refl _
  rintro r hr rfl hinside hbarred
  refine ⟨_, .keep hinside hdoc hleads ?_ ?_,
    ⟨hr.made, hr.opened, hr.lastItem, hr.accounts.keep hdoc hleads⟩, rfl, hinside, hbarred⟩
  · rw [hr.lastItem, lastItem_handFar]
    exact hitem
  · rw [hline, hr.accounts.tooFar_iff, near_handFar]
    exact Bool.false_ne_true

theorem takeUp (hfits : d.builder.Fits) {l : Lexeme} (hl : lexemes[count]? = some l)
    {doc : DocComment} (hread : DocComment.ofLexeme? options l = some doc) :
    (d.takeUp doc).Accounted options lexemes before bound none (count + 1) := by
  have hdoc := (docAt?_of_getElem? options hl).trans hread
  unfold Draft.takeUp
  split
  · next item hitem =>
    split
    · next htrails => exact h.trail hdoc hitem (by simpa using htrails)
    · next htrails =>
      simp only [Bool.or_eq_true, not_or, Bool.not_eq_true, beq_iff_eq] at htrails
      refine h.hold hfits hl hread htrails.1 ?_
      intro other hother
      obtain rfl := Option.some.inj (hitem.symm.trans hother)
      exact htrails.2
  · next hitem =>
    split
    · next htrailing =>
      exact (h.drop hdoc hitem htrailing).congr rfl rfl rfl rfl
    · next htrails =>
      refine h.hold hfits hl hread (Bool.not_eq_true _ ▸ htrails) ?_
      intro item hsome
      rw [hitem] at hsome
      cases hsome

/-- The last item has no claim on what stands behind code. -/
theorem forget {l : Lexeme} (hl : lexemes[count]? = some l) (hcode : l.isTrivia = false) :
    Accounted options lexemes before bound none count { d with lastItem := none } := by
  refine h.turn ?_ ?_
  · exact .refl _
  rintro r hr rfl hinside hbarred
  exact ⟨_, .forget hinside hl hcode, hr.forget, rfl, hinside, hbarred⟩

/-! ### Examining lexemes -/

theorem examine (hfits : d.builder.Fits) {l : Lexeme} (hl : lexemes[count]? = some l) :
    (d.examine l).Accounted options lexemes before bound none (count + 1) := by
  have hlt := (List.getElem?_eq_some_iff.mp hl).1
  have hdoc := docAt?_of_getElem? options hl
  unfold Draft.examine
  split
  · rw [h.reads]
    cases hread : DocComment.ofLexeme? options l with
    | none => exact h.skip hlt (hdoc.trans hread)
    | some doc => exact h.takeUp hfits hl hread
  · next hcode =>
    have hnone := hdoc.trans (DocComment.ofLexeme?_of_not_isTrivia options hcode)
    have hdrops : d.Documents d.dropPending := d.documents_dropPending
    refine h.turn ?_ ?_
    · exact .of_documents hdrops
    rintro r hr rfl hinside hbarred
    exact ⟨_, .part hinside hl (Bool.not_eq_true _ ▸ hcode), (hr.dropPending.forget).skip hnone,
      rfl, hinside, hbarred⟩

theorem examineTransparent (hfits : d.builder.Fits) {l : Lexeme} (hl : lexemes[count]? = some l) :
    (d.examineTransparent l).Accounted options lexemes before bound none (count + 1) := by
  unfold Draft.examineTransparent
  split
  · exact h.examine hfits hl
  · next hcode =>
    have hnone := DocComment.ofLexeme?_of_not_isTrivia options hcode
    exact h.skip (List.getElem?_eq_some_iff.mp hl).1
      ((docAt?_of_getElem? options hl).trans hnone)

end Outside

theorem examineInside {ids : List EntryId}
    (h : d.Accounted options lexemes before bound (some ids) count) {l : Lexeme}
    (hl : lexemes[count]? = some l) (hids : ids ≠ []) (hitem : d.builder.IsItem lexemes ids) :
    (examineInside ids d l).Accounted options lexemes before bound (some ids) (count + 1) := by
  have hdoc := docAt?_of_getElem? options hl
  unfold Draft.examineInside
  rw [h.reads]
  split
  · next doc hread => exact h.within (hdoc.trans hread) hids hitem
  · next hread => exact h.skip (List.getElem?_eq_some_iff.mp hl).1 (hdoc.trans hread)

end Accounted

/-- Lexemes are examined one after the other. -/
theorem Accounted.examineTo {options : Options} {lexemes : List Lexeme} {before : Register}
    {bound : Nat} {inside : Option (List EntryId)} {d : Draft} {examine : Draft → Lexeme → Draft}
    (h : d.Accounted options lexemes before bound inside d.examined)
    (hrest : d.unexamined = lexemes.drop d.examined)
    (hqueue : ∀ d l, SameQueue d (examine d l)) (hdocs : ∀ d l, Documents d (examine d l))
    (hexamine : ∀ n d' l, lexemes[n]? = some l → d.Documents d' →
      d'.Accounted options lexemes before bound inside n →
      (examine d' l).Accounted options lexemes before bound inside (n + 1)) (place : Nat) :
    (d.examineTo examine place).Accounted options lexemes before bound inside
      (d.examineTo examine place).examined := by
  -- The drafts on the way differ from the first one in documentation at most.
  refine (examineTo_induct (motive := fun n d' =>
    d.Documents d' ∧ d'.Accounted options lexemes before bound inside n) hqueue hrest ?_ ?_ place).2
  · rintro n d' l hl ⟨hd', hthere⟩
    exact ⟨hd'.trans (hdocs d' l), hexamine n d' l hl hd' hthere⟩
  · intro unexamined examined
    exact ⟨.refl d, h.congr rfl rfl rfl rfl⟩

/-! ### The queue and the register together -/

/-- The queue of a draft holds what was not examined, and a course leads to what
    was. -/
structure Booked (options : Options) (lexemes : List Lexeme) (before : Register) (bound : Nat)
    (d : Draft) : Prop where
  /-- The queue is the rest of all lexemes. -/
  queue : d.unexamined = lexemes.drop d.examined
  /-- The links of the entries fit together. -/
  fits : d.builder.Fits
  /-- What stands before it is accounted for. -/
  accounted : d.Accounted options lexemes before bound none d.examined

namespace Booked

variable {options : Options} {lexemes : List Lexeme} {before : Register} {bound : Nat}
variable {d d' : Draft}

/-- What happens between examinations. -/
theorem of_sameQueue (h : d.Booked options lexemes before bound) (hqueue : d.SameQueue d')
    (hfits : d'.builder.Fits) {bound' : Nat}
    (haccounted : d'.Accounted options lexemes before bound' none d.examined) :
    d'.Booked options lexemes before bound' := by
  constructor
  case queue => exact hqueue.rest h.queue
  case fits => exact hfits
  case accounted =>
    rw [hqueue.examined]
    exact haccounted

theorem mono (h : d.Booked options lexemes before bound) {later : Nat} (hle : bound ≤ later) :
    d.Booked options lexemes before later :=
  ⟨h.queue, h.fits, h.accounted.mono hle⟩

/-- Lexemes are examined outside of entries. -/
theorem examineTo (h : d.Booked options lexemes before bound) {examine : Draft → Lexeme → Draft}
    (hqueue : ∀ d l, SameQueue d (examine d l)) (hdocs : ∀ d l, Documents d (examine d l))
    (hexamine : ∀ n d' l, lexemes[n]? = some l → d'.builder.Fits →
      d'.Accounted options lexemes before bound none n →
      (examine d' l).Accounted options lexemes before bound none (n + 1)) (place : Nat) :
    (d.examineTo examine place).Booked options lexemes before bound := by
  refine ⟨unexamined_examineTo hqueue h.queue place,
    h.fits.of_sameFrame (documents_examineTo hdocs d place).sameFrame, ?_⟩
  refine h.accounted.examineTo h.queue hqueue hdocs ?_ place
  intro n d' l hl hd' hthere
  exact hexamine n d' l hl (h.fits.of_sameFrame hd'.sameFrame) hthere

theorem examineAll (h : d.Booked options lexemes before bound) (place : Nat) :
    (d.examineTo examine place).Booked options lexemes before bound :=
  h.examineTo sameQueue_examine documents_examine
    (fun _ _ _ hl hfits hthere => hthere.examine hfits hl) place

/-! ### At a declaration -/

theorem sync (h : d.Booked options lexemes before bound) (c : Cursor) :
    (d.sync c).Booked options lexemes before bound :=
  h.examineAll _

theorem skipTransparent (h : d.Booked options lexemes before bound) (c : Cursor) :
    (d.skipTransparent c).Booked options lexemes before bound :=
  h.examineTo sameQueue_examineTransparent documents_examineTransparent
    (fun _ _ _ hl hfits hthere => hthere.examineTransparent hfits hl) _

section Code

variable {c : Cursor} {l : Lexeme}

/-- Before documentation is handed over for the code at a cursor. -/
theorem ready (h : d.Booked options lexemes before bound) (hl : lexemes[c.lexemeIndex]? = some l)
    (hcode : l.isTrivia = false) (hline : c.location = l.start)
    (hbehind : d.examined ≤ c.lexemeIndex) :
    (d.ready c).Booked options lexemes before bound := by
  have hsynced := h.sync c
  have hexamined : (d.sync c).examined = c.lexemeIndex := by
    have hlt := (List.getElem?_eq_some_iff.mp hl).1
    rw [examined_sync h.queue]
    omega
  have haccounted := hsynced.accounted
  rw [hexamined] at haccounted
  have hready := (haccounted.forget hl hcode).handFar hsynced.fits hl (.inl hcode)
  rw [← hline] at hready
  refine hsynced.of_sameQueue (d.sameQueue_ready c)
    (h.fits.of_sameFrame (d.documents_ready c).sameFrame) ?_
  rw [hexamined]
  exact hready

/-- Documentation is taken for the next lexeme, and lost. -/
theorem lose (h : d.Booked options lexemes before bound) (hl : lexemes[d.examined]? = some l)
    (hcode : l.isTrivia = false) :
    Booked options lexemes before (d.examined + 1) { d with pending := none } := by
  have hsame : d.builder.Grows (fun _ => True) d.builder := .refl _
  refine h.of_sameQueue ?_ ?_ (h.accounted.turn ?_ ?_)
  · exact ⟨rfl, rfl⟩
  · exact h.fits
  · exact hsame
  rintro r hr hcount hinside _
  rw [← hcount] at hl
  refine ⟨_, .lose hinside hl hcode, ⟨hr.made, hr.opened, hr.lastItem, ?_⟩, hcount, hinside, ?_⟩
  · exact hr.accounts.handOver hsame .nil (by simp)
  · exact Nat.le_of_eq (congrArg (· + 1) hcount)

end Code

/-- Entries whose tokens were read become the last item. -/
theorem complete (hqueue : d.unexamined = lexemes.drop d.examined) (hfits : d.builder.Fits)
    {ids : List EntryId} {c : Cursor}
    (h : d.dropPending.Accounted options lexemes before bound (some ids) d.examined)
    (hids : ids ≠ []) (hitem : d.builder.IsItem lexemes ids)
    (hreaches : (Cursor.ofLexemes lexemes).Reaches c) (hbehind : d.examined ≤ c.lexemeIndex) :
    (d.itemDone c ids).Booked options lexemes before bound := by
  have hsame := d.sameQueue_dropPending
  have hrest := hsame.rest hqueue
  rw [← hsame.examined] at h
  have hthere : ∀ d', d.dropPending.Documents d' → d'.builder.IsItem lexemes ids :=
    fun d' hd' => hitem.of_documents (d.documents_dropPending.trans hd')
  have hinside := h.examineTo hrest (sameQueue_examineInside ids) (documents_examineInside ids)
    (fun _ d' _ hl hd' hthere' => hthere'.examineInside hl hids (hthere d' hd')) c.indexAfterPrev
  -- Only trivia may lie between the end of the item and what is not examined yet.
  have hexamined := examined_itemDone hqueue c ids
  have hnumbered := (Cursor.numbered_ofLexemes lexemes).of_reaches hreaches
  have hbetween := hnumbered.indexAfterPrev_le
  have hlast := hnumbered.lexemeIndex_le
  have hstop : codeStop lexemes (d.itemDone c ids).examined = c.prevStop :=
    hreaches.codeStop_eq (by omega) (by omega)
  constructor
  case queue => exact unexamined_itemDone hqueue c ids
  case fits => exact hfits.of_sameFrame (d.documents_itemDone c ids).sameFrame
  case accounted =>
    refine hinside.turn ?_ ?_
    · exact .refl _
    rintro r hr hcount hwithin hbarred
    have hdone := hthere _ (documents_examineTo (documents_examineInside ids) _ c.indexAfterPrev)
    refine ⟨_, .done hwithin, ⟨hr.made, hr.opened, ?_, hr.accounts.setLast hids hdone _⟩, hcount,
      rfl, hbarred⟩
    rw [hcount]
    exact congrArg (fun stop : Location => some (LastItem.mk ids stop.line)) hstop

/-- Entries are made that begin with the next lexeme or later. They get what
    waits, and then they come last. -/
theorem make (h : d.Booked options lexemes before bound) {c : Cursor} {l : Lexeme}
    (hl : lexemes[d.examined]? = some l) (hcode : l.isTrivia = false) (hfree : bound ≤ d.examined)
    (hnear : (d.pending.any fun p => d.exceedsGap p.lastLine l.start.line) = false)
    (hreaches : (Cursor.ofLexemes lexemes).Reaches c) (hbehind : d.examined ≤ c.lexemeIndex)
    {b : Builder} (harena : b.Arena) {n : Nat} (hsome : 0 < n)
    (hmakes : d.Makes lexemes b (List.range' d.builder.nextId n))
    (hbegins : ∀ id ∈ List.range' d.builder.nextId n,
      Register.Begins lexemes b.entry? d.examined id)
    (hsize : b.entries.size = d.builder.entries.size + n)
    (hstack : b.stack = d.builder.stack ∨ n = 1 ∧ b.stack = d.builder.nextId :: d.builder.stack) :
    (itemDone { d with builder := b, pending := none } c
      (List.range' d.builder.nextId n)).Booked options lexemes before bound := by
  let made : Draft := { d with builder := b, pending := none }
  have hmade : made.Accounted options lexemes before bound (some (List.range' d.builder.nextId n))
      d.examined := by
    refine h.accounted.turn hmakes.grows ?_
    rintro r hr hcount hinside hbarred
    have hfirst : r.made = d.builder.nextId := hr.made
    rw [← hcount] at hl hfree hbegins
    rw [← hfirst] at hmakes hbegins hstack ⊢
    rw [← hr.opened] at hstack
    refine ⟨_, .make hinside hl hcode (Nat.le_trans hbarred hfree) ?_ hsome hbegins hstack,
      ⟨?_, rfl, hr.lastItem, hr.accounts.make hmakes⟩, hcount, rfl, hbarred⟩
    · rw [hr.accounts.tooFar_iff, hnear]
      exact Bool.false_ne_true
    · rw [hsize, ← hr.made]
  have hids : List.range' d.builder.nextId n ≠ [] := by
    rw [ne_eq, List.range'_eq_nil_iff]
    exact Nat.ne_of_gt hsome
  exact complete (d := made) h.queue (.inl harena) hmade hids hmakes.item hreaches hbehind

/-- The innermost open entry is at its end. What waits in it is dropped, and then
    it comes last. -/
theorem close (h : d.Booked options lexemes before bound) {c : Cursor}
    (hreaches : (Cursor.ofLexemes lexemes).Reaches c) (hbehind : d.examined ≤ c.lexemeIndex)
    {id below : EntryId} {rest : List EntryId} (hopened : d.builder.stack = id :: below :: rest)
    (stop : Location) (harena : (d.builder.pop stop).Arena)
    (hitem : (d.builder.pop stop).IsItem lexemes [id]) :
    (itemDone { d with builder := d.builder.pop stop } c [id]).Booked options lexemes before
      bound := by
  let popped : Draft := { d with builder := d.builder.pop stop }
  have hgrows : d.builder.Grows (fun _ => True) (d.builder.pop stop) := .pop _ _
  have hdropped : popped.dropPending.builder = d.builder.pop stop := builder_dropPending popped
  have hlast : popped.dropPending.lastItem = d.lastItem := lastItem_dropPending popped
  have hclosed : popped.dropPending.Accounted options lexemes before bound (some [id])
      d.examined := by
    refine h.accounted.turn (hdropped ▸ hgrows) ?_
    rintro r hr hcount hinside hbarred
    refine ⟨_, .close hinside (hr.opened.trans hopened),
      ⟨?_, ?_, hr.lastItem.trans hlast.symm, ?_⟩, hcount, rfl, hbarred⟩
    · rw [hdropped, Builder.size_entries_pop, ← hr.made]
    · rw [hdropped, Builder.stack_pop hopened (List.cons_ne_nil _ _)]
    · exact (hr.accounts.grow hgrows fun i => d.builder.docOf_pop stop i).dropPending
  exact complete (d := popped) h.queue (.inl harena) hclosed (List.cons_ne_nil _ _) hitem hreaches
    hbehind

/-- The innermost open entry was left without an end. -/
theorem abandon (h : d.Booked options lexemes before bound) {id below : EntryId}
    {rest : List EntryId} (hopened : d.builder.stack = id :: below :: rest) (stop : Location)
    (hfits : (d.builder.pop stop).Fits) :
    Booked options lexemes before bound { d with builder := d.builder.pop stop } := by
  have hgrows : d.builder.Grows (fun _ => True) (d.builder.pop stop) := .pop _ _
  refine h.of_sameQueue ?_ hfits ?_
  · exact ⟨rfl, rfl⟩
  apply h.accounted.turn hgrows
  rintro r hr hcount hinside hbarred
  refine ⟨_, .abandon hinside (hr.opened.trans hopened), ⟨?_, ?_, hr.lastItem, ?_⟩, hcount, hinside,
    hbarred⟩
  · exact hr.made.trans (Builder.size_entries_pop _ _).symm
  · exact (Builder.stack_pop hopened (List.cons_ne_nil _ _) stop).symm
  · exact hr.accounts.grow hgrows fun i => d.builder.docOf_pop stop i

/-- A text of an entry is added. -/
theorem amend (h : d.Booked options lexemes before bound) (id : EntryId) {f : Entry → Entry}
    (hkeeps : ∀ e, d.builder.entry? id = some e → e.Keeps (f e)) (hdoc : ∀ e, (f e).doc = e.doc)
    (hfits : (d.builder.modify id f).Fits) :
    Booked options lexemes before bound { d with builder := d.builder.modify id f } := by
  have hgrows : d.builder.Grows (fun _ => True) (d.builder.modify id f) := .modify _ id hkeeps
  refine h.of_sameQueue ?_ hfits ?_
  · exact ⟨rfl, rfl⟩
  exact h.accounted.grow hgrows (fun i => d.builder.docOf_modify id i hdoc) Array.size_modify rfl

/-- At the end of the source nothing waits. -/
theorem finish (h : d.Booked options lexemes before bound) {c : Cursor}
    (hend : (d.finish c).examined = lexemes.length) (harena : d.builder.Arena) :
    (d.finish c).Booked options lexemes before bound ∧ (d.finish c).pending = none := by
  have hlast := h.examineAll c.lexemeCount
  have hframe := harena.of_sameFrame
    (documents_examineTo documents_examine d c.lexemeCount).sameFrame
  rw [finish_eq, (sameQueue_handTo _ _).examined] at hend
  rw [finish_eq]
  generalize d.examineTo examine c.lexemeCount = last at hlast hframe hend ⊢
  obtain ⟨top, htop, hmem, _⟩ := hframe.exists_top
  have hdocs : last.Documents (last.handTo last.builder.top?.toList) := last.documents_handTo _
  refine ⟨hlast.of_sameQueue (sameQueue_handTo _ _) (hlast.fits.of_sameFrame hdocs.sameFrame)
    (hlast.accounted.turn (.of_documents hdocs) ?_), pending_handTo _ _⟩
  rintro r hr hcount hinside hbarred
  refine ⟨_, .finish hinside (hcount.trans hend), ?_, hcount, hinside, hbarred⟩
  have hitem : last.builder.IsItem lexemes [top] := .single (hframe.stack_lt top hmem)
  have hhead : r.opened.head?.toList = [top] := by
    rw [hr.opened]
    exact congrArg Option.toList htop
  rw [hhead, htop]
  exact hr.handTo hitem

end Booked

end Draft

end PascalOutline
