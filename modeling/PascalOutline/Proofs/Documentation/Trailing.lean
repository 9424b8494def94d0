import PascalOutline.Proofs.Documentation.Draft
import PascalOutline.Proofs.Outline.Closed

/-! # Comments behind an item

  A comment trails an entry if it begins on the line on which the entry ended
  and no code stands between them. Such a comment is a piece of the
  documentation of one entry: of the one that it trails, except that a complete
  enumeration gets what trails its last value (`Builder.Recipient`).

  `Builder.Attended` says so of the comments before some place, with a condition
  on those after it that depends on what will become of them. Code makes the
  condition needless, since no comment behind it trails an entry before it.
-/

namespace PascalOutline

/-! ### Pieces of documentation -/

/-- A text stands in documentation, and blank lines part it from what stands
    before and after it. -/
def IsPiece (text doc : String) : Prop :=
  ∃ before after : String, doc = before ++ text ++ after ∧
    (before = "" ∨ ∃ s, before = s ++ "\n\n") ∧ (after = "" ∨ ∃ s, after = "\n\n" ++ s)

section Pieces

variable {text doc : String}

theorem isPiece_self (text : String) : IsPiece text text :=
  ⟨"", "", by simp, .inl rfl, .inl rfl⟩

theorem eq_empty_of_isPiece_empty (h : IsPiece text "") : text = "" := by
  obtain ⟨before, after, hdoc, _, _⟩ := h
  have hboth := (String.append_eq_empty_iff.mp hdoc.symm).1
  exact (String.append_eq_empty_iff.mp hboth).2

/-- A new paragraph is a piece. -/
theorem isPiece_withParagraph (hne : text ≠ "") (doc : String) :
    IsPiece text (withParagraph doc text) := by
  rw [PascalOutline.withParagraph, if_neg hne]
  split
  · exact isPiece_self text
  · exact ⟨doc ++ "\n\n", "", by simp, .inr ⟨doc, rfl⟩, .inl rfl⟩

/-- What was a piece is one still after a new paragraph. -/
theorem IsPiece.withParagraph (h : IsPiece text doc) (hne : text ≠ "") (more : String) :
    IsPiece text (withParagraph doc more) := by
  rw [PascalOutline.withParagraph]
  split
  · exact h
  · split
    · next hdoc =>
      rw [hdoc] at h
      exact absurd (eq_empty_of_isPiece_empty h) hne
    · obtain ⟨before, after, rfl, hbefore, hafter⟩ := h
      refine ⟨before, after ++ "\n\n" ++ more, by simp [String.append_assoc], hbefore, .inr ?_⟩
      rcases hafter with rfl | ⟨s, rfl⟩
      · exact ⟨more, by simp⟩
      · exact ⟨s ++ "\n\n" ++ more, by simp [String.append_assoc]⟩

end Pieces

/-! ### Comments behind code -/

/-- The lexemes stand in source order, and none of them is empty. -/
structure InOrder (lexemes : List Lexeme) : Prop where
  /-- Each one ends before the next ones begin. -/
  apart : lexemes.Pairwise fun l m => l.stop.offset ≤ m.start.offset
  /-- Each one has some extent. -/
  filled : ∀ l ∈ lexemes, l.start.offset < l.stop.offset

theorem inOrder_lex (nested : Bool) (source : String) : InOrder (Lexer.lex nested source) := by
  constructor
  · exact (pairwise_lexFrom nested .start source.toList).imp fun h => h.offset
  · intro l hl
    obtain ⟨pre, post, hstands⟩ := standsAt_of_mem_lex hl
    exact hstands.offset_lt

theorem InOrder.offset_le {lexemes : List Lexeme} (h : InOrder lexemes) {k m : Nat} {l l' : Lexeme}
    (hl : lexemes[k]? = some l) (hl' : lexemes[m]? = some l') (hkm : k < m) :
    l.stop.offset ≤ l'.start.offset := by
  obtain ⟨hk, rfl⟩ := List.getElem?_eq_some_iff.mp hl
  obtain ⟨hm, rfl⟩ := List.getElem?_eq_some_iff.mp hl'
  exact List.pairwise_iff_getElem.mp h.apart k m hk hm hkm

/-- The documentation comment at a place trails what ends at a location: it
    begins there or later on the same line, and no code stands between. -/
structure Trails (options : Options) (lexemes : List Lexeme) (stop : Location) (place : Nat)
    (doc : DocComment) : Prop where
  /-- It documents. -/
  reads : docAt? options lexemes place = some doc
  /-- It has a text. -/
  text : doc.text ≠ ""
  /-- It begins on the same line, and not too early. -/
  behind : ∀ l, lexemes[place]? = some l → stop.offset ≤ l.start.offset ∧ l.start.line = stop.line
  /-- No code stands between. -/
  adjacent : ∀ k m, k < place → lexemes[k]? = some m → stop.offset ≤ m.start.offset →
    m.isTrivia = true

instance (options : Options) (lexemes : List Lexeme) (stop : Location) (place : Nat)
    (doc : DocComment) : Decidable (Trails options lexemes stop place doc) :=
  decidable_of_iff
    (docAt? options lexemes place = some doc ∧ doc.text ≠ "" ∧
      (∀ l ∈ lexemes[place]?, stop.offset ≤ l.start.offset ∧ l.start.line = stop.line) ∧
      ∀ k < place, ∀ m ∈ lexemes[k]?, stop.offset ≤ m.start.offset → m.isTrivia = true)
    ⟨fun ⟨hreads, htext, hbehind, hadjacent⟩ =>
        ⟨hreads, htext, hbehind, fun k m hk hm => hadjacent k hk m hm⟩,
      fun h => ⟨h.reads, h.text, h.behind, fun k hk m hm => h.adjacent k m hk hm⟩⟩

/-- The code that ends at a location is the last lexeme before a place. -/
def CodeEnds (lexemes : List Lexeme) (stop : Location) (place : Nat) : Prop :=
  ∃ k l, place = k + 1 ∧ lexemes[k]? = some l ∧ l.isTrivia = false ∧ l.stop = stop

section Behind

variable {options : Options} {lexemes : List Lexeme} {stop : Location} {place n : Nat}
variable {doc : DocComment} {c : Cursor}

namespace Trails

theorem exists_lexeme (h : Trails options lexemes stop place doc) :
    ∃ l, lexemes[place]? = some l ∧ DocComment.ofLexeme? options l = some doc :=
  Option.bind_eq_some_iff.mp h.reads

theorem lt_length (h : Trails options lexemes stop place doc) : place < lexemes.length := by
  obtain ⟨l, hl, _⟩ := h.exists_lexeme
  exact (List.getElem?_eq_some_iff.mp hl).1

theorem line_eq (h : Trails options lexemes stop place doc) : doc.line = stop.line := by
  obtain ⟨l, hl, hread⟩ := h.exists_lexeme
  rw [(DocComment.line_of_ofLexeme? hread).1]
  exact (h.behind l hl).2

/-- Nothing but trivia stands between the code and the comment. -/
theorem after_code (h : Trails options lexemes stop place doc) (horder : InOrder lexemes)
    (hends : CodeEnds lexemes stop n) :
    n ≤ place ∧ ∀ k l, n ≤ k → k ≤ place → lexemes[k]? = some l → l.isTrivia = true := by
  obtain ⟨k, code, rfl, hcode, hsignificant, rfl⟩ := hends
  obtain ⟨comment, hcomment, hread⟩ := h.exists_lexeme
  have htrivia := (DocComment.line_of_ofLexeme? hread).2
  constructor
  · rcases Nat.lt_trichotomy k place with hlt | rfl | hgt
    · exact hlt
    · rw [hcode] at hcomment
      obtain rfl := Option.some.inj hcomment
      simp [hsignificant] at htrivia
    · -- A comment before the code would end before it, but it begins behind it.
      have hle := horder.offset_le hcomment hcode hgt
      have hbehind := (h.behind comment hcomment).1
      have hfilled := horder.filled comment (List.mem_of_getElem? hcomment)
      have hfilled' := horder.filled code (List.mem_of_getElem? hcode)
      omega
  · intro m l hm hplace hl
    rcases Nat.lt_or_eq_of_le hplace with hlt | rfl
    · exact h.adjacent m l hlt hl (horder.offset_le hcode hl hm)
    · rw [hl] at hcomment
      obtain rfl := Option.some.inj hcomment
      exact htrivia

/-- No comment behind later code trails what ended before it. -/
theorem le_of_code (h : Trails options lexemes stop place doc) (horder : InOrder lexemes)
    (hends : CodeEnds lexemes stop n) {m : Nat} {l : Lexeme} (hl : lexemes[m]? = some l)
    (hcode : l.isTrivia = false) (hn : n ≤ m) : place < m := by
  by_contra hle
  have htrivia := (h.after_code horder hends).2 m l hn (Nat.le_of_not_lt hle) hl
  simp [hcode] at htrivia

end Trails

/-! ### Comments behind a cursor -/

/-- At a cursor stands code, or all lexemes lie before it. -/
theorem Cursor.Reaches.code_lexemeIndex (h : (Cursor.ofLexemes lexemes).Reaches c) :
    lexemes.length ≤ c.lexemeIndex ∨
      ∃ l, lexemes[c.lexemeIndex]? = some l ∧ l.isTrivia = false := by
  unfold lexemeIndex
  cases hpeek : c.peek? with
  | none => exact .inl (Nat.le_of_eq ((numbered_ofLexemes lexemes).of_reaches h).lexemeCount.symm)
  | some t => exact .inr ⟨t.lexeme, h.getElem?_index (mem_tokens_of_peek? hpeek)⟩

theorem Cursor.Reaches.codeEnds_prevStop (h : (Cursor.ofLexemes lexemes).Reaches c)
    (hpassed : 0 < c.indexAfterPrev) : CodeEnds lexemes c.prevStop c.indexAfterPrev := by
  unfold indexAfterPrev at hpassed ⊢
  cases hprev : c.prev? with
  | none => simp [hprev] at hpassed
  | some t =>
    obtain ⟨hl, hcode⟩ := h.getElem?_index (mem_tokens_of_prev? hprev)
    refine ⟨t.index, t.lexeme, rfl, hl, hcode, ?_⟩
    rw [prevStop_eq_of_prev? hprev]
    rfl

/-- A comment behind the last token that was passed, and behind nothing else,
    trails what ended with that token. -/
theorem Trails.eq_prevStop (h : Trails options lexemes stop place doc) (horder : InOrder lexemes)
    (hends : CodeEnds lexemes stop n) (hc : (Cursor.ofLexemes lexemes).Reaches c)
    (hn : n ≤ c.indexAfterPrev) (hplace : c.indexAfterPrev ≤ place) : stop = c.prevStop := by
  have hpositive : 0 < n := by
    obtain ⟨k, _, rfl, _⟩ := hends
    exact Nat.succ_pos k
  obtain ⟨m, l, hm, hl, hcode, hstop⟩ := hc.codeEnds_prevStop (Nat.lt_of_lt_of_le hpositive hn)
  have hlast : m < n := by
    by_contra hle
    have hlt := h.le_of_code horder hends hl hcode (Nat.le_of_not_lt hle)
    omega
  obtain ⟨k, l', rfl, hl', _, rfl⟩ := hends
  obtain rfl : k = m := by omega
  rw [hl] at hl'
  obtain rfl := Option.some.inj hl'
  exact hstop

end Behind

/-! ### Documentation that is kept -/

namespace Builder

/-- Every piece of documentation stays one. -/
def KeepsPieces (b b' : Builder) : Prop :=
  ∀ i text, text ≠ "" → IsPiece text (b.docOf i) → IsPiece text (b'.docOf i)

theorem keepsPieces_of_docOf_eq {b b' : Builder} (h : ∀ i, b'.docOf i = b.docOf i) :
    b.KeepsPieces b' := by
  intro i text _ hpiece
  rwa [h]

/-- A new entry has no documentation that could get lost. -/
theorem keepsPieces_push (b : Builder) (e : Entry) : b.KeepsPieces (b.push e) := by
  intro i text hne hpiece
  rw [docOf_push]
  split
  · next hnew =>
    rw [docOf_of_size_le (Nat.le_of_eq hnew.symm)] at hpiece
    exact absurd (eq_empty_of_isPiece_empty hpiece) hne
  · exact hpiece

theorem keepsPieces_of_documents {b b' : Builder} (h : b.Documents b') : b.KeepsPieces b' := by
  induction h with
  | refl => exact fun _ _ _ hpiece => hpiece
  | @tail b₁ _ _ hstep ih =>
    obtain ⟨id, text, rfl⟩ := hstep
    intro i piece hne hpiece
    have hbefore := ih i piece hne hpiece
    by_cases hid : id < b₁.entries.size
    · rw [docOf_addDoc b₁ hid]
      split
      · exact hbefore.withParagraph hne text
      · exact hbefore
    · -- There is no such entry, and nothing changes.
      have hnone : b₁.entry? id = none := Array.getElem?_eq_none (Nat.le_of_not_lt hid)
      rw [docOf, addDoc, entry?_modify]
      split
      · next heq =>
        rw [docOf, heq, hnone] at hbefore
        rw [heq, hnone]
        exact hbefore
      · exact hbefore

/-- A text that is added to some entries is a piece of the documentation of
    each of them. -/
theorem isPiece_foldl_addDoc {ids : List EntryId} {o : EntryId} (ho : o ∈ ids) (b : Builder)
    (hsize : o < b.entries.size) {text : String} (hne : text ≠ "") :
    IsPiece text ((ids.foldl (fun b id => b.addDoc id text) b).docOf o) := by
  induction ids generalizing b with
  | nil => cases ho
  | cons id ids ih =>
    have hsame : (b.addDoc id text).entries.size = b.entries.size := Array.size_modify
    rw [List.foldl_cons]
    rcases List.mem_cons.mp ho with rfl | ho
    · refine keepsPieces_of_documents (.foldl_addDoc _ ids text) o text hne ?_
      rw [docOf_addDoc b hsize, if_pos rfl]
      exact isPiece_withParagraph hne _
    · exact ih ho _ (by rwa [hsame])

/-! ### What trails an item -/

section Attended

variable (options : Options) (lexemes : List Lexeme)

/-- A comment that trails an item is a piece of the documentation of its
    recipient, as far as comments before a place are concerned. Later ones are
    still to be examined, and there has to be a claim on them. -/
def Attended (place : Nat) (claims : EntryId → Nat → Prop) (b : Builder) : Prop :=
  ∀ i stop o comment doc, b.ItemEnds i stop → b.Recipient i o →
    Trails options lexemes stop comment doc →
      (comment < place → IsPiece doc.text (b.docOf o)) ∧ (place ≤ comment → claims o stop.line)

/-- The items of a builder end before a place. -/
def Past (place : Nat) (b : Builder) : Prop :=
  ∀ i stop, b.ItemEnds i stop → ∃ n ≤ place, CodeEnds lexemes stop n

variable {options lexemes} {place n : Nat} {claims claims' : EntryId → Nat → Prop}
variable {b b' : Builder}

theorem Past.congr (h : b.Past lexemes place) (hitems : b.SameItems b') : b'.Past lexemes place :=
  fun i stop hitem => h i stop ((hitems.ends i stop).mp hitem)

theorem Past.mono (h : b.Past lexemes place) (hn : place ≤ n) : b.Past lexemes n := by
  intro i stop hitem
  obtain ⟨m, hm, hends⟩ := h i stop hitem
  exact ⟨m, Nat.le_trans hm hn, hends⟩

theorem Past.foldl_addLeaf (h : b.Past lexemes place) (harena : b.Arena) (hn : place ≤ n)
    {entries : List Entry} (hspan : ∀ e ∈ entries, e.start.Precedes e.stop)
    (hends : ∀ e ∈ entries, ∃ m ≤ n, CodeEnds lexemes e.stop m) :
    (entries.foldl addLeaf b).Past lexemes n := by
  intro i stop hitem
  rcases itemEnds_foldl_addLeaf harena hspan hitem with hold | ⟨_, e, he, rfl⟩
  · exact h.mono hn i stop hold
  · exact hends e he

theorem Past.conclude (h : b.Past lexemes place) (harena : b.Arena) (hn : place ≤ n) {p : Location}
    (hbefore : b.LiesBefore p) {t : EntryId} {rest : List EntryId} (hstack : b.stack = t :: rest)
    (hrest : rest ≠ []) (hends : CodeEnds lexemes p n) : (b.pop p).Past lexemes n := by
  intro i stop hitem
  rcases itemEnds_pop harena hbefore hstack hrest hitem with hold | ⟨_, rfl⟩
  · exact h.mono hn i stop hold
  · exact ⟨n, Nat.le_refl n, hends⟩

namespace Attended

theorem congr (h : b.Attended options lexemes place claims) (hitems : b.SameItems b')
    (hkeeps : b.KeepsPieces b') : b'.Attended options lexemes place claims := by
  intro i stop o comment doc hitem ho htrails
  obtain ⟨hbefore, hafter⟩ :=
    h i stop o comment doc ((hitems.ends i stop).mp hitem) ((hitems.recipient_iff i o).mp ho)
      htrails
  exact ⟨fun hlt => hkeeps o doc.text htrails.text (hbefore hlt), hafter⟩

theorem mono (h : b.Attended options lexemes place claims)
    (hclaims : ∀ o line, claims o line → claims' o line) :
    b.Attended options lexemes place claims' := by
  intro i stop o comment doc hitem ho htrails
  obtain ⟨hbefore, hafter⟩ := h i stop o comment doc hitem ho htrails
  exact ⟨hbefore, fun hle => hclaims o stop.line (hafter hle)⟩

/-- One more lexeme was examined. -/
theorem succ (h : b.Attended options lexemes place claims)
    (hnext : ∀ i stop o doc, b.ItemEnds i stop → b.Recipient i o →
      Trails options lexemes stop place doc → claims o stop.line → IsPiece doc.text (b'.docOf o))
    (hitems : b.SameItems b') (hkeeps : b.KeepsPieces b') :
    b'.Attended options lexemes (place + 1) claims := by
  intro i stop o comment doc hitem ho htrails
  have hitem := (hitems.ends i stop).mp hitem
  have ho := (hitems.recipient_iff i o).mp ho
  obtain ⟨hbefore, hafter⟩ := h i stop o comment doc hitem ho htrails
  refine ⟨fun hlt => ?_, fun hle => hafter (Nat.le_of_succ_le hle)⟩
  rcases Nat.lt_or_eq_of_le (Nat.le_of_lt_succ hlt) with hlt | rfl
  · exact hkeeps o doc.text htrails.text (hbefore hlt)
  · exact hnext i stop o doc hitem ho htrails (hafter (Nat.le_refl _))

/-- Code ends all claims. -/
theorem ended (h : b.Attended options lexemes place claims) (hpast : b.Past lexemes place)
    (horder : InOrder lexemes)
    (hcode : lexemes.length ≤ place ∨ ∃ l, lexemes[place]? = some l ∧ l.isTrivia = false) :
    b.Attended options lexemes place fun _ _ => False := by
  intro i stop o comment doc hitem ho htrails
  refine ⟨(h i stop o comment doc hitem ho htrails).1, fun hle => ?_⟩
  rcases hcode with hend | ⟨l, hl, hcode⟩
  · exact absurd htrails.lt_length (by omega)
  · obtain ⟨n, hn, hends⟩ := hpast i stop hitem
    exact absurd (htrails.le_of_code horder hends hl hcode hn) (Nat.not_lt.mpr hle)

/-- New items get what trails them, and it was not examined yet. -/
theorem foldl_addLeaf (h : b.Attended options lexemes place fun _ _ => False) (harena : b.Arena)
    (horder : InOrder lexemes) {entries : List Entry} {text : String}
    (hdoc : ∀ e ∈ entries, e.doc = text) (hspan : ∀ e ∈ entries, e.start.Precedes e.stop)
    (hlate : ∀ e ∈ entries, ∃ n, place ≤ n ∧ CodeEnds lexemes e.stop n) :
    (entries.foldl addLeaf b).Attended options lexemes place fun o _ =>
      o ∈ List.range' b.nextId entries.length := by
  intro i stop o comment doc hitem ho htrails
  have hlast := lastValue_foldl_addLeaf harena hspan i
  have hrecipient : (entries.foldl addLeaf b).Recipient i o ↔ b.Recipient i o := by
    simp only [Recipient, hlast]
  rcases itemEnds_foldl_addLeaf harena hspan hitem with hold | ⟨hnew, e, he, rfl⟩
  · obtain ⟨hbefore, hafter⟩ := h i stop o comment doc hold (hrecipient.mp ho) htrails
    refine ⟨fun hlt => ?_, fun hle => (hafter hle).elim⟩
    have hsize : o ∉ List.range' b.nextId entries.length := fun hmem =>
      absurd ((hrecipient.mp ho).lt_size hold) (Nat.not_lt.mpr (List.mem_range'_1.mp hmem).1)
    rw [docOf_foldl_addLeaf b hdoc, if_neg hsize]
    exact hbefore hlt
  · obtain ⟨n, hn, hends⟩ := hlate e he
    refine ⟨fun hlt => absurd (htrails.after_code horder hends).1 (by omega), fun _ => ?_⟩
    rcases (hrecipient.mp ho) with hvalue | ⟨rfl, _⟩
    · -- A last value was made before its enumeration was complete.
      exact absurd (hvalue.closed harena).1 (Nat.not_lt.mpr (List.mem_range'_1.mp hnew).1)
    · exact hnew

/-- A complete enumeration gets what trails it or its last value; nothing of
    that was examined yet. -/
theorem conclude (h : b.Attended options lexemes place claims) (harena : b.Arena)
    (horder : InOrder lexemes) {p : Location} (hbefore : b.LiesBefore p) {t : EntryId}
    {rest : List EntryId} (hstack : b.stack = t :: rest) (hrest : rest ≠ [])
    (hkind : ∃ q, b.profile? t = some q ∧ q.kind = .type_) (hends : CodeEnds lexemes p n)
    (hn : place ≤ n) (hclaims : ∀ o line, claims o line → o = (b.lastChild? t).getD t)
    (hvalue : ∀ v q, b.lastChild? t = some v → b.profile? v = some q → q.kind ≠ .type_)
    (hspared : ∀ v stop comment doc, b.lastChild? t = some v → b.ItemEnds v stop →
      Trails options lexemes stop comment doc → place ≤ comment) :
    (b.pop p).Attended options lexemes place fun o _ => o ∈ [t] := by
  intro i stop o comment doc hitem ho htrails
  have hlast := lastValue_pop harena hbefore hstack hrest hkind
  have hopen : t ∈ b.stack := by
    rw [hstack]
    exact List.mem_cons_self
  have hgets : place ≤ comment → o = t →
      (comment < place → IsPiece doc.text ((b.pop p).docOf o)) ∧ (place ≤ comment → o ∈ [t]) := by
    intro hle ho
    exact ⟨fun hlt => absurd hle (Nat.not_le.mpr hlt), fun _ => List.mem_singleton.mpr ho⟩
  rcases itemEnds_pop harena hbefore hstack hrest hitem with hold | ⟨rfl, rfl⟩
  · -- What was claimed so far is claimed by the enumeration, or it trails the
    -- last value, which the enumeration takes over.
    have hdocs : (b.pop p).docOf o = b.docOf o := b.docOf_pop p o
    have hcases : (o = t ∧ b.lastChild? t = some i) ∨
        (b.Recipient i o ∧ ∀ v, b.lastChild? t = some v → o ≠ v) := by
      rcases ho with hvalue' | ⟨rfl, hno⟩
      · rcases (hlast i o).mp hvalue' with hbefore | hnow
        · refine .inr ⟨.inl hbefore, fun v hv => ?_⟩
          rintro rfl
          obtain ⟨x, hx, htype, _⟩ := hbefore
          exact hvalue o x.profile hv (views_of_closed? hx).1 htype
        · exact .inl hnow
      · refine .inr ⟨.inr ⟨rfl, fun s hs => hno s ((hlast o s).mpr (.inl hs))⟩, fun v hv => ?_⟩
        rintro rfl
        exact hno t ((hlast o t).mpr (.inr ⟨rfl, hv⟩))
    rcases hcases with ⟨rfl, hv⟩ | ⟨hrecipient, hother⟩
    · exact hgets (hspared i stop comment doc hv hold htrails) rfl
    · obtain ⟨hearlier, hlater⟩ := h i stop o comment doc hold hrecipient htrails
      rw [hdocs]
      refine ⟨hearlier, fun hle => List.mem_singleton.mpr ?_⟩
      have hclaim := hclaims o stop.line (hlater hle)
      cases hv : b.lastChild? t with
      | none => simpa [hv] using hclaim
      | some v => exact absurd (by simpa [hv] using hclaim) (hother v hv)
  · refine hgets (Nat.le_trans hn (htrails.after_code horder hends).1) ?_
    rcases ho with hvalue' | ⟨rfl, _⟩
    · rcases (hlast i o).mp hvalue' with hbefore | ⟨rfl, _⟩
      · exact absurd hopen (hbefore.closed harena).2
      · rfl
    · rfl

end Attended

end Attended

end Builder

end PascalOutline
