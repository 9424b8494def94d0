import PascalOutline.Proofs.Cursor.Index
import PascalOutline.Proofs.Outline.Grows

/-! # Accounting for documentation

  Each documentation comment of a source is delivered once: to an item, to the
  documentation that waits for a declaration, or to nobody. A ledger lists the
  deliveries, each one with the places of its comments and the entries that got
  their text. It accounts for a draft when

  - the comments before some place are those in the ledger, each one once;
  - the documentation of every entry consists of what was delivered to it;
  - no delivery goes to two declarations.
-/

namespace PascalOutline

/-! ### Documentation comments -/

section Comments

variable (options : Options) (lexemes : List Lexeme)

/-- The documentation comment at a place among all lexemes. -/
def docAt? (place : Nat) : Option DocComment :=
  lexemes[place]?.bind (DocComment.ofLexeme? options)

/-- The places of the documentation comments among the first lexemes. -/
def docPlaces (count : Nat) : List Nat :=
  (List.range count).filter fun place => (docAt? options lexemes place).isSome

/-- The texts of comments, joined; the list begins with the last comment.
    Between two texts stands a line break if the second comment begins on the
    line after the one before it or earlier, else an empty line. A text that is
    empty adds nothing. -/
def joinedBack : List DocComment → String
  | [] => ""
  | doc :: before =>
    let text := joinedBack before
    let near := before.head?.any fun previous => doc.line ≤ previous.lastLine + 1
    if text = "" then doc.text
    else if doc.text = "" then text
    else text ++ (if near then "\n" else "\n\n") ++ doc.text

/-- What is waiting after comments were taken up one after the other: their
    texts, up to the line on which the last one ends. -/
def Pending.ofDocs (docs : List DocComment) : Option Pending :=
  docs.getLast?.map fun last => ⟨joinedBack docs.reverse, last.lastLine⟩

/-- The text of the comments at some places, joined. -/
def textAt (places : List Nat) : String :=
  joinedBack (places.filterMap (docAt? options lexemes)).reverse

/-- Documentation with one more paragraph. -/
def withParagraph (doc text : String) : String :=
  if text = "" then doc else if doc = "" then text else doc ++ "\n\n" ++ text

end Comments

/-- What stands between two texts that are joined: nothing if one of them is
    empty, else a line break or an empty line. -/
def IsGap (gap first second : String) : Prop :=
  if first = "" ∨ second = "" then gap = "" else gap = "\n" ∨ gap = "\n\n"

/-! ### Deliveries -/

/-- The ways of a documentation comment. -/
inductive Route where
  /-- To an item that it trails, or inside of whose tokens it stands. -/
  | item
  /-- To the documentation that waits for a declaration. -/
  | waiting
  /-- To nobody, although it is marked as trailing. -/
  | dropped
deriving DecidableEq, Repr

/-- Comments that were delivered together. -/
structure Delivery where
  /-- The places of the comments among all lexemes. -/
  comments : List Nat
  /-- The way that they took. -/
  route : Route
  /-- The entries that got their text. -/
  ids : List EntryId
deriving DecidableEq, Repr

/-- The documentation of an entry that consists of deliveries. -/
def delivered (options : Options) (lexemes : List Lexeme) (deliveries : List Delivery)
    (id : EntryId) : String :=
  (deliveries.filter fun delivery => decide (id ∈ delivery.ids)).foldl
    (fun doc delivery => withParagraph doc (textAt options lexemes delivery.comments)) ""

/-- Entries that one declaration makes: at most one, or one for each of the
    names that stand together at some place of the source. `look` finds the
    entries. -/
def OneDeclaration (lexemes : List Lexeme) (look : EntryId → Option Entry)
    (ids : List EntryId) : Prop :=
  ids.length ≤ 1 ∨ ∃ c, (Cursor.ofLexemes lexemes).Reaches c ∧
    ids.map (fun id => (look id).map fun e => (e.name, e.start))
      = (Clause.declaredNames c.ahead).1.map fun t => some (t.text, t.start)

/-- A comment that documents what follows it unless it trails an item. -/
def Leads (options : Options) (lexemes : List Lexeme) (place : Nat) : Prop :=
  ∃ doc, docAt? options lexemes place = some doc ∧ doc.trailing = false

/-- A delivery keeps to the rules of its route. -/
def Delivery.Regular (options : Options) (lexemes : List Lexeme) (delivery : Delivery) : Prop :=
  match delivery.route with
  | .item => delivery.ids ≠ [] ∧ ∃ place, delivery.comments = [place]
  | .waiting => delivery.comments.Pairwise (· < ·) ∧
      ∀ place ∈ delivery.comments, Leads options lexemes place
  | .dropped => delivery.ids = [] ∧ ∃ place doc, delivery.comments = [place] ∧
      docAt? options lexemes place = some doc ∧ doc.trailing = true

/-! ### The documentation in a builder -/

namespace Builder

/-- The documentation of an entry, empty if there is no such entry. -/
def docOf (b : Builder) (id : EntryId) : String :=
  ((b.entry? id).map Entry.doc).getD ""

theorem docOf_of_size_le {b : Builder} {i : EntryId} (h : b.entries.size ≤ i) : b.docOf i = "" := by
  rw [docOf, entry?, Array.getElem?_eq_none h]
  rfl

theorem docOf_modify (b : Builder) (id i : EntryId) {f : Entry → Entry}
    (hf : ∀ e, (f e).doc = e.doc) : (b.modify id f).docOf i = b.docOf i := by
  rw [docOf, entry?_modify]
  split
  · rw [Option.map_map]
    exact congrArg (fun view => (Option.map view (b.entry? i)).getD "") (funext hf)
  · rfl

theorem docOf_close (b : Builder) (id i : EntryId) (stop : Location) :
    (b.close id stop).docOf i = b.docOf i :=
  b.docOf_modify id i fun _ => rfl

theorem docOf_pop (b : Builder) (stop : Location) (i : EntryId) :
    (b.pop stop).docOf i = b.docOf i := by
  unfold pop
  split
  · exact b.docOf_close _ i stop
  · rfl

theorem docOf_insert (b : Builder) (e : Entry) (i : EntryId) :
    (b.insert e).docOf i = if i = b.nextId then e.doc else b.docOf i := by
  rw [docOf, entry?_insert]
  split
  · rfl
  · split
    · rw [Option.map_map]
      rfl
    · rfl

theorem docOf_push (b : Builder) (e : Entry) (i : EntryId) :
    (b.push e).docOf i = if i = b.nextId then e.doc else b.docOf i :=
  b.docOf_insert e i

theorem docOf_addLeaf (b : Builder) (e : Entry) (i : EntryId) :
    (b.addLeaf e).docOf i = if i = b.nextId then e.doc else b.docOf i := by
  unfold addLeaf
  dsimp only
  split
  · rw [docOf_close, docOf_insert]
  · exact b.docOf_push e i

/-- Entries that are made with the same documentation have it. -/
theorem docOf_foldl_addLeaf (b : Builder) {entries : List Entry} {doc : String}
    (hdoc : ∀ e ∈ entries, e.doc = doc) (i : EntryId) :
    (entries.foldl addLeaf b).docOf i
      = if i ∈ List.range' b.nextId entries.length then doc else b.docOf i := by
  induction entries generalizing b with
  | nil => simp
  | cons e es ih =>
    have hsize : (b.addLeaf e).nextId = b.nextId + 1 := b.size_addLeaf e
    rw [List.foldl_cons, ih (b.addLeaf e) fun e' he' => hdoc e' (List.mem_cons_of_mem e he'),
      docOf_addLeaf, hdoc e List.mem_cons_self, hsize, List.length_cons, List.range'_succ]
    by_cases hfirst : i = b.nextId <;> simp [hfirst]

theorem docOf_addDoc (b : Builder) {id : EntryId} (hid : id < b.entries.size) (text : String)
    (i : EntryId) :
    (b.addDoc id text).docOf i
      = if i = id then withParagraph (b.docOf i) text else b.docOf i := by
  have hparagraph (e : Entry) : (e.addDoc text).doc = withParagraph e.doc text := by
    unfold withParagraph Entry.addDoc
    split
    · rfl
    · split <;> rfl
  rw [docOf, addDoc, entry?_modify]
  split
  · next h =>
    obtain ⟨e, he⟩ := exists_entry? (h ▸ hid)
    rw [docOf, he]
    exact hparagraph e
  · rfl

theorem docOf_foldl_addDoc (b : Builder) {ids : List EntryId} (hids : ids.Nodup)
    (hsize : ∀ id ∈ ids, id < b.entries.size) (text : String) (i : EntryId) :
    (ids.foldl (fun b id => b.addDoc id text) b).docOf i
      = if i ∈ ids then withParagraph (b.docOf i) text else b.docOf i := by
  induction ids generalizing b with
  | nil => simp
  | cons id ids ih =>
    obtain ⟨hid, hids⟩ := List.nodup_cons.mp hids
    obtain ⟨hfirst, hrest⟩ := List.forall_mem_cons.mp hsize
    have hsame : (b.addDoc id text).entries.size = b.entries.size := Array.size_modify
    rw [List.foldl_cons, ih _ hids (by rwa [hsame]), docOf_addDoc b hfirst]
    by_cases hi : i = id
    · subst hi
      rw [if_neg hid, if_pos rfl, if_pos List.mem_cons_self]
    · simp [hi]

end Builder

/-! ### Items -/

/-- Some entries of a builder are those of one declaration. The root is never
    one of several. -/
structure Builder.IsItem (lexemes : List Lexeme) (b : Builder) (ids : List EntryId) : Prop where
  /-- No entry is listed twice. -/
  nodup : ids.Nodup
  /-- They are there. -/
  lt_size : ∀ id ∈ ids, id < b.entries.size
  /-- One declaration makes them. -/
  one : OneDeclaration lexemes b.entry? ids
  /-- The root stands alone. -/
  root : ids.length ≤ 1 ∨ 0 ∉ ids

namespace Builder.IsItem

variable {lexemes : List Lexeme} {b b' : Builder} {ids : List EntryId}

/-- At most one entry. -/
theorem of_length_le (hlength : ids.length ≤ 1) (hsize : ∀ id ∈ ids, id < b.entries.size) :
    b.IsItem lexemes ids := by
  refine ⟨?_, hsize, .inl hlength, .inl hlength⟩
  match ids, hlength with
  | [], _ => exact List.nodup_nil
  | [_], _ => simp

theorem nil : b.IsItem lexemes [] :=
  of_length_le (Nat.zero_le 1) (by simp)

theorem single {id : EntryId} (h : id < b.entries.size) : b.IsItem lexemes [id] :=
  of_length_le (Nat.le_refl 1) (List.forall_mem_singleton.mpr h)

/-- Entries keep their names and places. -/
theorem of_grows (h : b.IsItem lexemes ids) {made : Entry → Prop} (hgrows : b.Grows made b') :
    b'.IsItem lexemes ids := by
  refine ⟨h.nodup, fun id hid => Nat.lt_of_lt_of_le (h.lt_size id hid) hgrows.size_le, ?_, h.root⟩
  rcases h.one with hlength | ⟨c, hc, hnames⟩
  · exact .inl hlength
  · refine .inr ⟨c, hc, Eq.trans ?_ hnames⟩
    apply List.map_congr_left
    intro id hid
    obtain ⟨e, he⟩ := exists_entry? (h.lt_size id hid)
    obtain ⟨e', he', hkeeps⟩ := hgrows.kept id e he
    rw [he, he', Option.map_some, Option.map_some, hkeeps.name, hkeeps.start]

theorem of_documents (h : b.IsItem lexemes ids) (hdocs : b.Documents b') : b'.IsItem lexemes ids :=
  h.of_grows (Grows.of_documents hdocs : b.Grows (fun _ => False) b')

end Builder.IsItem

/-- Entries are made, with the documentation that was waiting. -/
structure Draft.Makes (lexemes : List Lexeme) (d : Draft) (b : Builder) (ids : List EntryId) :
    Prop where
  /-- Nothing else is changed. -/
  grows : d.builder.Grows (fun _ => True) b
  /-- One declaration makes them. -/
  item : b.IsItem lexemes ids
  /-- They were not there before. -/
  new : ∀ i ∈ ids, d.builder.entries.size ≤ i
  /-- They get the documentation. -/
  docs : ∀ i, b.docOf i
    = if i ∈ ids then (d.pending.map Pending.text).getD "" else d.builder.docOf i

/-! ### Ledgers -/

/-- What became of the comments that were examined. -/
structure Ledger where
  /-- The deliveries, in their order. -/
  deliveries : List Delivery := []
  /-- The comments that wait for a declaration. -/
  waiting : List Nat := []
deriving DecidableEq, Repr

namespace Ledger

/-- A ledger accounts for the first `count` lexemes, and for what a draft made of
    them. -/
structure Accounts (options : Options) (lexemes : List Lexeme) (ledger : Ledger) (count : Nat)
    (d : Draft) : Prop where
  /-- The draft reads comments under the options. -/
  reads : d.options = options
  /-- Each comment is in the ledger once. -/
  once : (ledger.deliveries.flatMap Delivery.comments ++ ledger.waiting).Perm
    (docPlaces options lexemes count)
  /-- The documentation of an entry was delivered to it. -/
  docs : ∀ i, d.builder.docOf i = delivered options lexemes ledger.deliveries i
  /-- Each delivery goes to one declaration. -/
  items : ∀ delivery ∈ ledger.deliveries, d.builder.IsItem lexemes delivery.ids
  /-- Each delivery keeps to its rules. -/
  regular : ∀ delivery ∈ ledger.deliveries, delivery.Regular options lexemes
  /-- What is waiting in the draft is the text of the comments that wait. -/
  pending : d.pending = Pending.ofDocs (ledger.waiting.filterMap (docAt? options lexemes))
  /-- None of them is marked as trailing. -/
  leads : ∀ place ∈ ledger.waiting, Leads options lexemes place
  /-- They wait in source order. -/
  sorted : ledger.waiting.Pairwise (· < ·)
  /-- The last item is one declaration. -/
  lastItem : ∀ item, d.lastItem = some item →
    item.ids ≠ [] ∧ d.builder.IsItem lexemes item.ids

/-- One comment is delivered. -/
def give (ledger : Ledger) (place : Nat) (route : Route) (ids : List EntryId) : Ledger :=
  { ledger with deliveries := ledger.deliveries ++ [⟨[place], route, ids⟩] }

/-- What was waiting is delivered. -/
def handOver (ledger : Ledger) (ids : List EntryId) : Ledger :=
  { deliveries := ledger.deliveries ++ [⟨ledger.waiting, .waiting, ids⟩] }

/-- One more comment waits. -/
def keep (ledger : Ledger) (place : Nat) : Ledger :=
  { ledger with waiting := ledger.waiting ++ [place] }

end Ledger

/-! ### Text -/

section Text

variable (options : Options) (lexemes : List Lexeme)

theorem docAt?_of_getElem? {lexemes : List Lexeme} {place : Nat} {l : Lexeme}
    (hl : lexemes[place]? = some l) :
    docAt? options lexemes place = DocComment.ofLexeme? options l := by
  rw [docAt?, hl]
  rfl

/-- Code does not document. -/
theorem DocComment.ofLexeme?_of_not_isTrivia {l : Lexeme} (hl : ¬ l.isTrivia = true) :
    ofLexeme? options l = none := by
  unfold ofLexeme?
  split
  · next c hkind =>
    refine absurd ?_ hl
    rw [Lexeme.isTrivia, hkind]
    rfl
  · rfl

theorem DocComment.line_of_ofLexeme? {options : Options} {l : Lexeme} {doc : DocComment}
    (h : ofLexeme? options l = some doc) : doc.line = l.start.line ∧ l.isTrivia = true := by
  unfold ofLexeme? at h
  split at h
  · next kind hkind =>
    obtain ⟨body, _, rfl⟩ := Option.map_eq_some_iff.mp h
    refine ⟨rfl, ?_⟩
    rw [Lexeme.isTrivia, hkind]
    rfl
  · cases h

/-- A new paragraph is parted from what stands before it by an empty line. -/
theorem exists_withParagraph_eq (doc text : String) :
    ∃ gap, IsGap gap doc text ∧ withParagraph doc text = doc ++ gap ++ text := by
  rw [withParagraph]
  by_cases htext : text = ""
  · refine ⟨"", ?_, ?_⟩
    · simp [IsGap, htext]
    · simp [htext]
  · by_cases hdoc : doc = ""
    · refine ⟨"", ?_, ?_⟩
      · simp [IsGap, hdoc]
      · simp [htext, hdoc]
    · refine ⟨"\n\n", ?_, ?_⟩
      · simp [IsGap, htext, hdoc]
      · simp [htext, hdoc]

/-- The last text is parted from those before it by a gap. -/
theorem exists_joinedBack_cons_eq (last : DocComment) (before : List DocComment) :
    ∃ gap, IsGap gap (joinedBack before) last.text ∧
      joinedBack (last :: before) = joinedBack before ++ gap ++ last.text := by
  generalize htext : joinedBack before = text
  rw [joinedBack, htext]
  by_cases hnone : text = ""
  · refine ⟨"", ?_, ?_⟩
    · simp [IsGap, hnone]
    · simp [hnone]
  · by_cases hempty : last.text = ""
    · refine ⟨"", ?_, ?_⟩
      · simp [IsGap, hempty]
      · simp [hnone, hempty]
    · refine ⟨_, ?_, by rw [if_neg hnone, if_neg hempty]⟩
      rw [IsGap, if_neg (not_or.mpr ⟨hnone, hempty⟩)]
      split
      · exact .inl rfl
      · exact .inr rfl

theorem empty_withParagraph (text : String) : withParagraph "" text = text := by
  unfold withParagraph
  split
  · next h => exact h.symm
  · rfl

theorem textAt_singleton {place : Nat} {doc : DocComment}
    (h : docAt? options lexemes place = some doc) : textAt options lexemes [place] = doc.text := by
  simp [textAt, h, joinedBack]

theorem delivered_append (deliveries : List Delivery) (delivery : Delivery) (i : EntryId) :
    delivered options lexemes (deliveries ++ [delivery]) i
      = if i ∈ delivery.ids then
          withParagraph (delivered options lexemes deliveries i)
            (textAt options lexemes delivery.comments)
        else delivered options lexemes deliveries i := by
  unfold delivered
  rw [List.filter_append, List.foldl_append]
  split
  · next h => simp [h]
  · next h => simp [h]

theorem docPlaces_succ (count : Nat) :
    docPlaces options lexemes (count + 1)
      = docPlaces options lexemes count
        ++ (if (docAt? options lexemes count).isSome then [count] else []) := by
  rw [docPlaces, List.range_succ, List.filter_append, docPlaces]
  congr 1
  split
  · next h => simp [h]
  · next h => simp [h]

theorem lt_of_mem_docPlaces {count place : Nat} (h : place ∈ docPlaces options lexemes count) :
    place < count :=
  List.mem_range.mp (List.mem_filter.mp h).1

theorem Pending.text_ofDocs (docs : List DocComment) :
    ((Pending.ofDocs docs).map Pending.text).getD "" = joinedBack docs.reverse := by
  cases docs using List.reverseRecOn with
  | nil => rfl
  | append_singleton docs last => simp [Pending.ofDocs]

/-- One more comment is joined to what waits. -/
theorem Pending.ofDocs_append (docs : List DocComment) (doc : DocComment) :
    Pending.ofDocs (docs ++ [doc])
      = some ((Pending.ofDocs docs).elim ⟨doc.text, doc.lastLine⟩ (Draft.joinDocs · doc)) := by
  have hlast : Pending.ofDocs (docs ++ [doc])
      = some ⟨joinedBack (doc :: docs.reverse), doc.lastLine⟩ := by simp [Pending.ofDocs]
  rw [hlast]
  cases docs using List.reverseRecOn with
  | nil => rfl
  | append_singleton docs previous =>
    simp only [Pending.ofDocs, List.getLast?_append, List.getLast?_singleton, Option.some_or,
      Option.map_some, Option.elim_some, Draft.joinDocs, List.reverse_append,
      List.reverse_singleton, List.singleton_append]
    generalize hbefore : joinedBack (previous :: docs.reverse) = before
    rw [joinedBack, hbefore]
    by_cases hnone : before = ""
    · simp [hnone]
    · by_cases hempty : doc.text = ""
      · simp [hnone, hempty]
      · simp [hnone, hempty]

end Text

/-! ### Keeping the books -/

namespace Ledger.Accounts

variable {options : Options} {lexemes : List Lexeme} {ledger : Ledger} {count : Nat} {d d' : Draft}

/-- Only the outline and the documentation of a draft matter, and no item has
    to stay the last one. -/
theorem congr (h : ledger.Accounts options lexemes count d) (hoptions : d'.options = d.options)
    (hbuilder : d'.builder = d.builder) (hpending : d'.pending = d.pending)
    (hlast : ∀ item, d'.lastItem = some item → d.lastItem = some item) :
    ledger.Accounts options lexemes count d' := by
  refine ⟨hoptions.trans h.reads, h.once, ?_, ?_, h.regular, hpending.trans h.pending, h.leads,
    h.sorted, ?_⟩
  · rw [hbuilder]
    exact h.docs
  · rw [hbuilder]
    exact h.items
  · intro item hitem
    rw [hbuilder]
    exact h.lastItem item (hlast item hitem)

/-- Another item comes last. -/
theorem setLast (h : ledger.Accounts options lexemes count d) {ids : List EntryId}
    (hids : ids ≠ []) (hitem : d.builder.IsItem lexemes ids) (line : Nat) :
    ledger.Accounts options lexemes count { d with lastItem := some ⟨ids, line⟩ } := by
  refine { h with lastItem := ?_ }
  intro item hlast
  obtain rfl := Option.some.inj hlast
  exact ⟨hids, hitem⟩

/-- The next lexeme documents nothing. -/
theorem skip (h : ledger.Accounts options lexemes count d)
    (hnone : docAt? options lexemes count = none) :
    ledger.Accounts options lexemes (count + 1) d := by
  refine { h with once := ?_ }
  rw [docPlaces_succ, hnone]
  simpa using h.once

/-- Entries get an end or another text, or new ones are made without
    documentation. -/
theorem grow (h : ledger.Accounts options lexemes count d) {made : Entry → Prop} {b : Builder}
    (hgrows : d.builder.Grows made b) (hdocs : ∀ i, b.docOf i = d.builder.docOf i) :
    ledger.Accounts options lexemes count { d with builder := b } := by
  refine { h with docs := ?_, items := ?_, lastItem := ?_ }
  · intro i
    exact (hdocs i).trans (h.docs i)
  · intro delivery hdelivery
    exact (h.items delivery hdelivery).of_grows hgrows
  · intro item hitem
    exact ⟨(h.lastItem item hitem).1, (h.lastItem item hitem).2.of_grows hgrows⟩

/-- An entry without documentation is begun. -/
theorem push (h : ledger.Accounts options lexemes count d) {e : Entry} (hdoc : e.doc = "") :
    ledger.Accounts options lexemes count { d with builder := d.builder.push e } := by
  have hgrows : d.builder.Grows (fun _ => True) (d.builder.push e) := .push _ trivial
  refine h.grow hgrows ?_
  intro i
  rw [Builder.docOf_push]
  split
  · next hi =>
    rw [hdoc, hi]
    exact (Builder.docOf_of_size_le (Nat.le_refl _)).symm
  · rfl

/-- The next comment waits too. -/
theorem keep (h : ledger.Accounts options lexemes count d) {doc : DocComment}
    (hdoc : docAt? options lexemes count = some doc) (hleads : doc.trailing = false) :
    (ledger.keep count).Accounts options lexemes (count + 1)
      { d with
        pending := some (d.pending.elim ⟨doc.text, doc.lastLine⟩ (Draft.joinDocs · doc)) } := by
  refine { h with once := ?_, pending := ?_, leads := ?_, sorted := ?_ }
  · rw [docPlaces_succ, hdoc, Ledger.keep, ← List.append_assoc]
    exact h.once.append_right [count]
  · show some _ = Pending.ofDocs ((ledger.waiting ++ [count]).filterMap _)
    have hlast : [count].filterMap (docAt? options lexemes) = [doc] := by simp [hdoc]
    rw [List.filterMap_append, hlast, Pending.ofDocs_append, h.pending]
  · intro place hplace
    rcases List.mem_append.mp hplace with hbefore | hnew
    · exact h.leads place hbefore
    · obtain rfl := List.mem_singleton.mp hnew
      exact ⟨doc, hdoc, hleads⟩
  · -- What waits was examined before.
    refine List.pairwise_append.mpr ⟨h.sorted, List.pairwise_singleton _ _, ?_⟩
    intro place hplace last hlast
    obtain rfl := List.mem_singleton.mp hlast
    refine lt_of_mem_docPlaces options lexemes (h.once.subset ?_)
    exact List.mem_append_right _ hplace

/-- Comments are delivered to entries: those that stood next in the source, or
    those that were waiting. -/
theorem deliver (h : ledger.Accounts options lexemes count d) {made : Entry → Prop} {b : Builder}
    (delivery : Delivery) {waiting : List Nat} {next : Nat}
    (honce : (ledger.deliveries.flatMap Delivery.comments ++ delivery.comments ++ waiting).Perm
      (docPlaces options lexemes next))
    (hwaiting : waiting.Sublist ledger.waiting) (hregular : delivery.Regular options lexemes)
    (hgrows : d.builder.Grows made b) (hitem : b.IsItem lexemes delivery.ids)
    (hdocs : ∀ i, b.docOf i = if i ∈ delivery.ids then
      withParagraph (d.builder.docOf i) (textAt options lexemes delivery.comments)
      else d.builder.docOf i) :
    Accounts options lexemes ⟨ledger.deliveries ++ [delivery], waiting⟩ next
      { d with
        builder := b
        pending := Pending.ofDocs (waiting.filterMap (docAt? options lexemes)) } := by
  refine
    { reads := h.reads, once := ?_, docs := ?_, items := ?_, regular := ?_, pending := rfl
      leads := fun place hplace => h.leads place (hwaiting.subset hplace)
      sorted := h.sorted.sublist hwaiting, lastItem := ?_ }
  · simpa using honce
  · intro i
    rw [delivered_append, ← h.docs i]
    exact hdocs i
  · intro other hother
    rcases List.mem_append.mp hother with hbefore | hnew
    · exact (h.items other hbefore).of_grows hgrows
    · obtain rfl := List.mem_singleton.mp hnew
      exact hitem
  · intro other hother
    rcases List.mem_append.mp hother with hbefore | hnew
    · exact h.regular other hbefore
    · obtain rfl := List.mem_singleton.mp hnew
      exact hregular
  · intro item hitem
    exact ⟨(h.lastItem item hitem).1, (h.lastItem item hitem).2.of_grows hgrows⟩

/-- The next comment is delivered, and what is waiting goes on waiting. -/
theorem give (h : ledger.Accounts options lexemes count d) {doc : DocComment} {route : Route}
    {ids : List EntryId} (hdoc : docAt? options lexemes count = some doc)
    (hregular : Delivery.Regular options lexemes ⟨[count], route, ids⟩)
    (hitem : d.builder.IsItem lexemes ids) :
    (ledger.give count route ids).Accounts options lexemes (count + 1) (d.addDoc ids doc.text) := by
  have hgrows : d.builder.Grows (fun _ => False)
      (ids.foldl (fun b id => b.addDoc id doc.text) d.builder) :=
    .of_documents (.foldl_addDoc d.builder ids doc.text)
  have honce : (ledger.deliveries.flatMap Delivery.comments ++ [count] ++ ledger.waiting).Perm
      (docPlaces options lexemes (count + 1)) := by
    rw [docPlaces_succ, hdoc, List.append_assoc]
    refine (List.Perm.append_left _ List.perm_append_comm).trans ?_
    rw [← List.append_assoc]
    exact h.once.append_right [count]
  have hdocs := d.builder.docOf_foldl_addDoc hitem.nodup hitem.lt_size doc.text
  rw [← textAt_singleton options lexemes hdoc] at hdocs hgrows
  have hdeliver := h.deliver ⟨[count], route, ids⟩ honce (List.Sublist.refl _) hregular hgrows
    (hitem.of_grows hgrows) hdocs
  rw [← h.pending, textAt_singleton options lexemes hdoc] at hdeliver
  exact hdeliver

/-- What was waiting is delivered. -/
theorem handOver (h : ledger.Accounts options lexemes count d) {made : Entry → Prop} {b : Builder}
    {ids : List EntryId} (hgrows : d.builder.Grows made b) (hitem : b.IsItem lexemes ids)
    (hdocs : ∀ i, b.docOf i = if i ∈ ids then
      withParagraph (d.builder.docOf i) (textAt options lexemes ledger.waiting)
      else d.builder.docOf i) :
    (ledger.handOver ids).Accounts options lexemes count { d with builder := b, pending := none } :=
  h.deliver ⟨ledger.waiting, .waiting, ids⟩ (by simpa using h.once) (List.nil_sublist _)
    ⟨h.sorted, h.leads⟩ hgrows hitem hdocs

/-- The text of what is waiting. -/
theorem text_pending (h : ledger.Accounts options lexemes count d) :
    textAt options lexemes ledger.waiting = (d.pending.map Pending.text).getD "" := by
  rw [h.pending, Pending.text_ofDocs]
  rfl

/-- New entries get what was waiting. -/
theorem make (h : ledger.Accounts options lexemes count d) {b : Builder} {ids : List EntryId}
    (hmakes : d.Makes lexemes b ids) :
    (ledger.handOver ids).Accounts options lexemes count
      { d with builder := b, pending := none } := by
  refine h.handOver hmakes.grows hmakes.item ?_
  intro i
  rw [hmakes.docs i, h.text_pending]
  split
  · next hi => rw [Builder.docOf_of_size_le (hmakes.new i hi), empty_withParagraph]
  · rfl

/-- What was waiting is dropped. -/
theorem dropPending (h : ledger.Accounts options lexemes count d) :
    (ledger.handOver []).Accounts options lexemes count d.dropPending := by
  have hsame : d.builder.Grows (fun _ => False) d.builder := .refl _
  have hdropped := h.handOver hsame .nil (by simp)
  unfold Draft.dropPending
  split
  · exact hdropped.congr rfl rfl rfl fun _ hitem => hitem
  · next hnone => exact hdropped.congr rfl rfl hnone fun _ hitem => hitem

end Ledger.Accounts

end PascalOutline
