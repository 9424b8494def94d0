import PascalOutline.Proofs.Documentation

/-! # What a ledger tells of a scan

  A ledger explains a scan if it lists every documentation comment of the
  source once, and if the documentation of each entry of the outline consists
  of what was delivered to it. Then the text of a comment that is attached
  stands in the documentation of an entry, and entries have no other
  documentation.
-/

namespace PascalOutline

/-! ### Parts of a text -/

/-- A text stands in another one. -/
def IsPart (part whole : String) : Prop :=
  ∃ before after : String, whole = before ++ part ++ after

namespace IsPart

variable {part whole doc text : String}

theorem refl (text : String) : IsPart text text :=
  ⟨"", "", by simp⟩

theorem empty (whole : String) : IsPart "" whole :=
  ⟨"", whole, by simp⟩

theorem eq_empty (h : IsPart part "") : part = "" := by
  obtain ⟨before, after, hwhole⟩ := h
  exact (String.append_eq_empty_iff.mp (String.append_eq_empty_iff.mp hwhole.symm).1).2

theorem append_right (h : IsPart part whole) (more : String) : IsPart part (whole ++ more) := by
  obtain ⟨before, after, rfl⟩ := h
  exact ⟨before, after ++ more, by simp [String.append_assoc]⟩

theorem append_left (h : IsPart part whole) (more : String) : IsPart part (more ++ whole) := by
  obtain ⟨before, after, rfl⟩ := h
  exact ⟨more ++ before, after, by simp [String.append_assoc]⟩

/-- Documentation keeps its parts when it gets a new paragraph. -/
theorem withParagraph (h : IsPart part doc) (text : String) :
    IsPart part (withParagraph doc text) := by
  rw [PascalOutline.withParagraph]
  split
  · exact h
  · split
    · next hdoc =>
      rw [hdoc] at h
      rw [h.eq_empty]
      exact .empty text
    · exact (h.append_right _).append_right _

/-- A new paragraph becomes a part of the documentation. -/
theorem of_paragraph (h : IsPart part text) (doc : String) :
    IsPart part (PascalOutline.withParagraph doc text) := by
  rw [PascalOutline.withParagraph]
  split
  · next htext =>
    rw [htext] at h
    rw [h.eq_empty]
    exact .empty doc
  · split
    · exact h
    · exact h.append_left _

end IsPart

section Parts

variable {options : Options} {lexemes : List Lexeme} {deliveries : List Delivery} {id : EntryId}

theorem isPart_joinedBack {docs : List DocComment} {doc : DocComment} (h : doc ∈ docs) :
    IsPart doc.text (joinedBack docs) := by
  induction docs with
  | nil => cases h
  | cons last before ih =>
    obtain ⟨gap, _, heq⟩ := exists_joinedBack_cons_eq last before
    rw [heq]
    rcases List.mem_cons.mp h with rfl | hbefore
    · exact (IsPart.refl _).append_left _
    · exact ((ih hbefore).append_right _).append_right _

theorem isPart_textAt {places : List Nat} {place : Nat} {doc : DocComment} (hplace : place ∈ places)
    (hdoc : docAt? options lexemes place = some doc) :
    IsPart doc.text (textAt options lexemes places) :=
  isPart_joinedBack (List.mem_reverse.mpr (List.mem_filterMap.mpr ⟨place, hplace, hdoc⟩))

theorem isPart_delivered {delivery : Delivery} (hdelivery : delivery ∈ deliveries)
    (hid : id ∈ delivery.ids) {place : Nat} {doc : DocComment} (hplace : place ∈ delivery.comments)
    (hdoc : docAt? options lexemes place = some doc) :
    IsPart doc.text (delivered options lexemes deliveries id) := by
  induction deliveries using List.reverseRecOn with
  | nil => cases hdelivery
  | append_singleton deliveries last ih =>
    rw [delivered_append]
    rcases List.mem_append.mp hdelivery with hbefore | hlast
    · split
      · exact (ih hbefore).withParagraph _
      · exact ih hbefore
    · obtain rfl := List.mem_singleton.mp hlast
      rw [if_pos hid]
      exact (isPart_textAt hplace hdoc).of_paragraph _

/-- Documentation was delivered by comments. -/
theorem exists_of_delivered_ne_empty (h : delivered options lexemes deliveries id ≠ "") :
    ∃ delivery ∈ deliveries, id ∈ delivery.ids ∧ delivery.comments ≠ [] := by
  induction deliveries using List.reverseRecOn with
  | nil => exact absurd rfl h
  | append_singleton deliveries last ih =>
    have hbefore (hne : delivered options lexemes deliveries id ≠ "") :
        ∃ delivery ∈ deliveries ++ [last], id ∈ delivery.ids ∧ delivery.comments ≠ [] := by
      obtain ⟨delivery, hdelivery, hfound⟩ := ih hne
      exact ⟨delivery, List.mem_append_left _ hdelivery, hfound⟩
    rw [delivered_append] at h
    split at h
    · next hid =>
      by_cases hcomments : last.comments = []
      · rw [hcomments] at h
        exact hbefore h
      · exact ⟨last, List.mem_append_right _ List.mem_cons_self, hid, hcomments⟩
    · exact hbefore h

end Parts

/-! ### Ledgers of a scan -/

namespace Ledger

/-- The comment at a place was delivered to some entry. -/
def Attaches (ledger : Ledger) (place : Nat) : Prop :=
  ∃ delivery ∈ ledger.deliveries, place ∈ delivery.comments ∧ delivery.ids ≠ []

/-- A ledger tells where the documentation of an outline comes from. -/
structure Explains (options : Options) (file source : String) (ledger : Ledger) : Prop where
  /-- Every documentation comment is in one delivery. -/
  once : (ledger.deliveries.flatMap Delivery.comments).Perm
    (docPlaces options (Lexer.lex options.nestedComments source)
      (Lexer.lex options.nestedComments source).length)
  /-- Each delivery keeps to its rules. -/
  regular : ∀ delivery ∈ ledger.deliveries,
    delivery.Regular options (Lexer.lex options.nestedComments source)
  /-- Each delivery goes to one declaration. -/
  one : ∀ delivery ∈ ledger.deliveries,
    OneDeclaration (Lexer.lex options.nestedComments source) (scan options file source).outline.get?
      delivery.ids
  /-- Its entries are in the outline. -/
  entries : ∀ delivery ∈ ledger.deliveries, ∀ id ∈ delivery.ids,
    ∃ e, (scan options file source).outline.get? id = some e
  /-- Entries have the documentation that was delivered to them. -/
  docs : ∀ id e, (scan options file source).outline.get? id = some e →
    e.doc = delivered options (Lexer.lex options.nestedComments source) ledger.deliveries id

namespace Explains

variable {options : Options} {file source : String} {ledger : Ledger}

/-- The text of a comment that is attached stands in the documentation of an
    entry. -/
theorem exists_isPart (h : ledger.Explains options file source) {place : Nat} {doc : DocComment}
    (hdoc : docAt? options (Lexer.lex options.nestedComments source) place = some doc)
    (hattached : ledger.Attaches place) :
    ∃ id e, (scan options file source).outline.get? id = some e ∧ IsPart doc.text e.doc := by
  obtain ⟨delivery, hdelivery, hplace, hids⟩ := hattached
  obtain ⟨id, hid⟩ := List.exists_mem_of_ne_nil _ hids
  obtain ⟨e, he⟩ := h.entries delivery hdelivery id hid
  refine ⟨id, e, he, ?_⟩
  rw [h.docs id e he]
  exact isPart_delivered hdelivery hid hplace hdoc

/-- An entry with documentation has it from a comment. -/
theorem exists_attaches (h : ledger.Explains options file source) {id : EntryId} {e : Entry}
    (he : (scan options file source).outline.get? id = some e) (hne : e.doc ≠ "") :
    ∃ place ∈ docPlaces options (Lexer.lex options.nestedComments source)
      (Lexer.lex options.nestedComments source).length, ledger.Attaches place := by
  rw [h.docs id e he] at hne
  obtain ⟨delivery, hdelivery, hid, hcomments⟩ := exists_of_delivered_ne_empty hne
  obtain ⟨place, hplace⟩ := List.exists_mem_of_ne_nil _ hcomments
  exact ⟨place, h.once.subset (List.mem_flatMap.mpr ⟨delivery, hdelivery, hplace⟩), delivery,
    hdelivery, hplace, List.ne_nil_of_mem hid⟩

/-- The only comment is attached if there is documentation. -/
theorem attaches_of_only (h : ledger.Explains options file source) {only : Nat}
    (hplaces : docPlaces options (Lexer.lex options.nestedComments source)
      (Lexer.lex options.nestedComments source).length = [only])
    {id : EntryId} {text : String}
    (hdoc : ((scan options file source).outline.get? id).map Entry.doc = some text)
    (hne : text ≠ "") : ledger.Attaches only := by
  obtain ⟨e, he, rfl⟩ := Option.map_eq_some_iff.mp hdoc
  obtain ⟨place, hplace, hattached⟩ := h.exists_attaches he hne
  rw [hplaces] at hplace
  obtain rfl := List.mem_singleton.mp hplace
  exact hattached

end Explains

/-- A ledger for the last draft of a scan explains the scan. -/
theorem Accounts.explains {options : Options} {file source : String} {ledger : Ledger}
    (h : ledger.Accounts options (Lexer.lex options.nestedComments source)
      (Lexer.lex options.nestedComments source).length
      (State.ofSource options file (Lexer.lex options.nestedComments source)).draft)
    (hpending : (State.ofSource options file
      (Lexer.lex options.nestedComments source)).draft.pending = none) :
    ledger.Explains options file source := by
  have hreachable := State.reachable_run options file (Lexer.lex options.nestedComments source)
  let s := State.ofSource options file (Lexer.lex options.nestedComments source)
  have hroot : s.draft.builder.hasRoot = true :=
    (hreachable.agrees.arena.of_sameFrame (State.documents_finish _).sameFrame).hasRoot
  constructor
  case once =>
    have honce := h.once
    rwa [h.waiting_eq_nil hpending, List.append_nil] at honce
  case regular => exact h.regular
  case one => exact fun delivery hdelivery => (h.items delivery hdelivery).finish hroot _
  case entries =>
    intro delivery hdelivery id hid
    have hlt := (h.items delivery hdelivery).lt_size id hid
    have hgrows : s.draft.builder.Grows (fun _ => False)
        (s.draft.builder.popTimes s.cursor.eof s.draft.builder.unclosed) := .popTimes _ _ _
    obtain ⟨e, he⟩ := Builder.exists_entry? (Nat.lt_of_lt_of_le hlt hgrows.size_le)
    show ∃ e, (s.draft.builder.finish s.cursor.eof).get? id = some e
    rw [Builder.get?_finish hroot, he]
    split <;> exact ⟨_, rfl⟩
  case docs =>
    intro id e he
    rw [Builder.doc_of_get?_finish hroot he]
    exact h.docs id

end Ledger

end PascalOutline
