import PascalOutline.Proofs.Bounds.Lexer
import PascalOutline.Proofs.Cursor.Index
import PascalOutline.Proofs.Recognizer.Acts

/-! # Partial operations of a draft

  A draft counts lines past its documentation, cuts documentation out of the
  source, searches backwards among the lexemes, and links new entries by their
  numbers. Its functions are restated with these operations checked.

  `Draft.Fits` is what makes them safe: what waits ends on a line that has a next
  one, the lexemes that were not examined stand in the source, and the open
  entries are there. No act of the recognizer breaks it.
-/

namespace PascalOutline

open Lexer

/-! ### Searching backwards -/

namespace Cursor

/-- The search for the place after the last lexeme that begins before an offset,
    backwards from a place and not past what was examined. -/
def searchBack (lexemes : List Lexeme) (examined offset place : Nat) : Option Nat :=
  if examined < place then
    match _ : Word32.sub? place 1 with
    | none => none
    | some before =>
      if (lexemes[before]?).any fun l => offset ≤ l.start.offset then
        searchBack lexemes examined offset before
      else some place
  else some place
termination_by place
decreasing_by
  rename_i hplace hbefore _
  rw [Word32.sub?_of_le (by omega)] at hbefore
  have hsub := Option.some.inj hbefore
  omega

/-- The place right after the last token that was passed, searched backwards from
    the cursor. -/
def checkedIndexAfterPrev (lexemes : List Lexeme) (examined : Nat) (c : Cursor) : Option Nat :=
  searchBack lexemes examined c.prevStop.offset (min c.lexemeIndex lexemes.length)

end Cursor

section Search

variable {nested : Bool} {source : String} {c : Cursor}

/-- The lexemes after the last token that was passed begin after it, and it is the
    one before them. -/
theorem offset_prevStop_le_iff (h : (Cursor.ofLexemes (lex nested source)).Reaches c)
    {i : Nat} {l : Lexeme} (hl : (lex nested source)[i]? = some l)
    (hi : c.indexAfterPrev ≤ i + 1) :
    c.prevStop.offset ≤ l.start.offset ↔ c.indexAfterPrev ≤ i := by
  cases hprev : c.prev? with
  | none =>
    -- Nothing was passed, and every lexeme begins after the beginning.
    have hstop : c.prevStop = .start := Cursor.prevStop_of_prev?_eq_none hprev
    have hindex : c.indexAfterPrev = 0 := by
      rw [Cursor.indexAfterPrev, hprev]
      rfl
    rw [hstop, hindex]
    exact ⟨fun _ => Nat.zero_le _, fun _ => Nat.zero_le _⟩
  | some t =>
    have hindex : c.indexAfterPrev = t.index + 1 := by
      rw [Cursor.indexAfterPrev, hprev]
      rfl
    have htoken : t ∈ Token.ofLexemesFrom 0 false (lex nested source) := by
      have hmem := Cursor.mem_tokens_of_prev? hprev
      rw [h.tokens_eq] at hmem
      exact hmem
    have hlexeme : (lex nested source)[t.index]? = some t.lexeme :=
      getElem?_of_mem_ofLexemesFrom htoken
    rw [Cursor.prevStop_eq_of_prev? hprev, hindex]
    rw [hindex] at hi
    by_cases hlast : i = t.index
    · -- The token itself is not empty.
      subst hlast
      obtain rfl : l = t.lexeme := Option.some.inj (hl.symm.trans hlexeme)
      obtain ⟨pre, post, hstands⟩ := standsAt_of_mem_lex (List.mem_of_getElem? hl)
      have hlt := hstands.offset_lt
      exact iff_of_false (Nat.not_le.mpr hlt) (Nat.not_le.mpr (Nat.lt_succ_self _))
    · have hafter : t.index < i := by omega
      obtain ⟨ht, hgett⟩ := List.getElem?_eq_some_iff.mp hlexeme
      obtain ⟨hi', hgeti⟩ := List.getElem?_eq_some_iff.mp hl
      have hsorted : (lex nested source).Pairwise fun l next => l.stop.Precedes next.start :=
        pairwise_lexFrom nested .start source.toList
      have hprecedes := List.pairwise_iff_getElem.mp hsorted t.index i ht hi' hafter
      rw [hgett, hgeti] at hprecedes
      exact iff_of_true hprecedes.offset hafter

theorem searchBack_eq (h : (Cursor.ofLexemes (lex nested source)).Reaches c) (examined : Nat)
    {place : Nat} (hplace : place ≤ (lex nested source).length)
    (hprev : c.indexAfterPrev ≤ place) :
    Cursor.searchBack (lex nested source) examined c.prevStop.offset place
      = some (min place (max examined c.indexAfterPrev)) := by
  -- The search goes back lexeme by lexeme. It compares offsets, but offsets
  -- and indices of lexemes have the same order.
  induction place with
  | zero =>
    rw [Cursor.searchBack, if_neg (Nat.not_lt_zero _), Nat.zero_min]
  | succ place ih =>
    rw [Cursor.searchBack]
    split
    · next hmore =>
      obtain ⟨l, hl⟩ : ∃ l, (lex nested source)[place]? = some l :=
        ⟨_, List.getElem?_eq_getElem hplace⟩
      have hoffset := offset_prevStop_le_iff h hl hprev
      have hsub : Word32.sub? (place + 1) 1 = some place := Word32.sub?_of_le (Nat.le_add_left 1 _)
      split
      · next hnone =>
        rw [hsub] at hnone
        cases hnone
      · next before hbefore =>
        obtain rfl : place = before := Option.some.inj (hsub.symm.trans hbefore)
        rw [hl]
        by_cases hback : c.prevStop.offset ≤ l.start.offset
        · rw [if_pos (by simpa using hback), ih (by omega) (hoffset.mp hback)]
          have hle := hoffset.mp hback
          congr 1
          omega
        · rw [if_neg (by simpa using hback)]
          have hlt : place < c.indexAfterPrev := Nat.not_le.mp fun hle => hback (hoffset.mpr hle)
          congr 1
          omega
    · congr 1
      omega

theorem checkedIndexAfterPrev_eq (h : (Cursor.ofLexemes (lex nested source)).Reaches c)
    (examined : Nat) :
    c.checkedIndexAfterPrev (lex nested source) examined
      = some (min c.lexemeIndex (max examined c.indexAfterPrev)) := by
  have hnumbered := (Cursor.numbered_ofLexemes (lex nested source)).of_reaches h
  have hindex := hnumbered.lexemeIndex_le
  rw [Cursor.checkedIndexAfterPrev, Nat.min_eq_left hindex]
  exact searchBack_eq h examined hindex hnumbered.indexAfterPrev_le

end Search

/-! ### Numbers of entries -/

namespace Builder

/-- The entries that are open are there. -/
def Open (b : Builder) : Prop :=
  ∀ id ∈ b.stack, id < b.entries.size

/-- Makes an entry a child of the innermost open one, which is looked up. -/
def checkedInsert (b : Builder) (e : Entry) : Option Builder :=
  match b.top? with
  | some parent => (b.entry? parent).map fun _ => b.insert e
  | none => some (b.insert e)

/-- Makes an entry and leaves it open, its parent looked up. -/
def checkedPush (b : Builder) (e : Entry) : Option Builder :=
  (b.checkedInsert e).map fun made => { made with stack := b.nextId :: b.stack }

/-- Makes an entry that is already complete. It is looked up to be closed. -/
def checkedAddLeaf (b : Builder) (e : Entry) : Option Builder :=
  if b.hasRoot then
    (b.checkedInsert e).bind fun made =>
      (made.entry? b.nextId).map fun leaf => made.close b.nextId leaf.stop
  else b.checkedPush e

/-- The outline, whose root is looked up. -/
def checkedFinish (b : Builder) (eof : Location) : Option Outline :=
  (if b.hasRoot then some b else b.checkedPush {}).bind fun rooted =>
    let closed := rooted.popTimes eof rooted.unclosed
    (closed.entry? 0).map fun _ => b.finish eof

namespace Open

variable {b b' : Builder}

theorem of_sameFrame (h : b.Open) (hframe : b.SameFrame b') : b'.Open := by
  intro id hid
  rw [hframe.stack] at hid
  rw [hframe.size]
  exact h id hid

theorem push (h : b.Open) (e : Entry) : (b.push e).Open := by
  intro id hid
  show id < (b.insert e).entries.size
  rw [size_insert]
  rcases List.mem_cons.mp hid with rfl | hid
  · exact Nat.lt_succ_self _
  · exact Nat.lt_succ_of_lt (h id hid)

theorem addLeaf (h : b.Open) (e : Entry) : (b.addLeaf e).Open := by
  unfold Builder.addLeaf
  dsimp only
  split
  · intro id hid
    rw [size_entries_close, size_insert]
    exact Nat.lt_succ_of_lt (h id hid)
  · exact h.push e

theorem modify (h : b.Open) (id : EntryId) (f : Entry → Entry) : (b.modify id f).Open := by
  intro i hi
  have hlt := h i hi
  simpa [Builder.modify] using hlt

theorem pop (h : b.Open) (stop : Location) : (b.pop stop).Open := by
  unfold Builder.pop
  split
  · intro id hid
    show id < (b.close _ stop).entries.size
    rw [size_entries_close]
    exact h id (List.mem_of_mem_tail hid)
  · exact h

theorem checkedInsert_eq (h : b.Open) (e : Entry) : b.checkedInsert e = some (b.insert e) := by
  unfold checkedInsert
  split
  · next parent htop =>
    obtain ⟨holder, hholder⟩ := exists_entry? (h parent (List.mem_of_mem_head? htop))
    rw [hholder]
    rfl
  · rfl

theorem checkedPush_eq (h : b.Open) (e : Entry) : b.checkedPush e = some (b.push e) := by
  rw [checkedPush, h.checkedInsert_eq]
  rfl

theorem checkedAddLeaf_eq (h : b.Open) (e : Entry) : b.checkedAddLeaf e = some (b.addLeaf e) := by
  unfold checkedAddLeaf Builder.addLeaf
  split
  · rw [h.checkedInsert_eq, Option.bind_some, entry?_insert, if_pos rfl]
    rfl
  · exact h.checkedPush_eq e

theorem foldlM_checkedAddLeaf_eq (h : b.Open) (entries : List Entry) :
    entries.foldlM checkedAddLeaf b = some (entries.foldl Builder.addLeaf b) ∧
      (entries.foldl Builder.addLeaf b).Open := by
  induction entries generalizing b with
  | nil => exact ⟨rfl, h⟩
  | cons e entries ih =>
    obtain ⟨hrest, hopen⟩ := ih (h.addLeaf e)
    refine ⟨?_, hopen⟩
    rw [List.foldlM_cons, h.checkedAddLeaf_eq]
    exact hrest

theorem checkedFinish_eq (h : b.Open) (eof : Location) :
    b.checkedFinish eof = some (b.finish eof) := by
  have hrooted : (if b.hasRoot then some b else b.checkedPush {}) = some b.withRoot := by
    unfold withRoot
    split
    · rfl
    · exact h.checkedPush_eq {}
  have hsize : 0 < (b.withRoot.popTimes eof b.withRoot.unclosed).entries.size := by
    rw [size_entries_popTimes]
    exact b.size_entries_withRoot_pos
  obtain ⟨root, hroot⟩ := exists_entry? hsize
  rw [checkedFinish, hrooted, Option.bind_some]
  dsimp only
  rw [hroot]
  rfl

end Open

end Builder

/-! ### Documentation -/

/-- A lexeme stands in a source, and there is a line after it. -/
structure Lexeme.Fits (source : String) (l : Lexeme) : Prop where
  /-- It stands in the source. -/
  stands : ∃ pre post, l.StandsAt source pre post
  /-- It does not end on the last possible line. -/
  line : l.stop.line < Word32.max

namespace Lexeme.Fits

variable {source : String} {l : Lexeme}

theorem lastLine_lt (h : l.Fits source) {options : Options} {doc : DocComment}
    (hdoc : DocComment.ofLexeme? options l = some doc) : doc.lastLine < Word32.max := by
  unfold DocComment.ofLexeme? at hdoc
  split at hdoc
  · obtain ⟨_, _, rfl⟩ := Option.map_eq_some_iff.mp hdoc
    exact h.line
  · cases hdoc

theorem checkedOfLexeme?_eq (h : l.Fits source) (options : Options) :
    DocComment.checkedOfLexeme? options source.toList l
      = some (DocComment.ofLexeme? options l) := by
  obtain ⟨pre, post, hstands⟩ := h.stands
  exact DocComment.checkedOfLexeme?_eq options hstands

end Lexeme.Fits

namespace Draft

/-- Whether more blank lines lie between two lines than the gap limit allows, with
    a checked line. -/
def checkedExceedsGap (d : Draft) (lastLine nextLine : Nat) : Option Bool :=
  (Word32.add? lastLine 1).map fun after =>
    d.options.docGap.any fun limit => limit < nextLine - after

/-- Documentation with more text after it, with a checked line. -/
def checkedJoinDocs (p : Pending) (doc : DocComment) : Option Pending :=
  (Word32.add? p.lastLine 1).map fun after =>
    let gap := if p.text = "" ∨ doc.text = "" then ""
      else if doc.line ≤ after then "\n" else "\n\n"
    ⟨p.text ++ gap ++ doc.text, doc.lastLine⟩

/-- Takes up a documentation comment that documents what follows it. -/
def checkedHold (d : Draft) (doc : DocComment) : Option Draft :=
  match d.pending with
  | none => some { d with pending := some ⟨doc.text, doc.lastLine⟩ }
  | some p =>
    (d.checkedExceedsGap p.lastLine doc.line).bind fun far =>
      if far then
        some { d.addDoc d.orphanage p.text with pending := some ⟨doc.text, doc.lastLine⟩ }
      else (checkedJoinDocs p doc).map fun joined => { d with pending := some joined }

/-- Takes up a documentation comment. -/
def checkedTakeUp (d : Draft) (doc : DocComment) : Option Draft :=
  match d.lastItem with
  | some item =>
    if doc.trailing || doc.line == item.line then some (d.addDoc item.ids doc.text)
    else d.checkedHold doc
  | none => if doc.trailing then some (d.log (.trailerDropped doc.line)) else d.checkedHold doc

section Source

variable (source : String)

/-- Examines a lexeme, its documentation cut out of the source. -/
def checkedExamine (d : Draft) (l : Lexeme) : Option Draft :=
  if l.isTrivia then
    (DocComment.checkedOfLexeme? d.options source.toList l).bind fun doc =>
      (doc.map d.checkedTakeUp).getD (some d)
  else some { d.dropPending with lastItem := none }

/-- Examines a lexeme of a word that does not part documentation from its
    declaration. -/
def checkedExamineTransparent (d : Draft) (l : Lexeme) : Option Draft :=
  if l.isTrivia then checkedExamine source d l else some d

/-- Examines a lexeme inside of some entries. -/
def checkedExamineInside (ids : List EntryId) (d : Draft) (l : Lexeme) : Option Draft :=
  (DocComment.checkedOfLexeme? d.options source.toList l).map fun doc =>
    (doc.map fun doc => d.addDoc ids doc.text).getD d

/-- Examines the lexemes up to a place among all lexemes. -/
def checkedExamineTo (d : Draft) (examine : Draft → Lexeme → Option Draft) (place : Nat) :
    Option Draft :=
  let found := d.unexamined.take (place - d.examined)
  found.foldlM examine
    { d with
      unexamined := d.unexamined.drop (place - d.examined)
      examined := d.examined + found.length }

/-- Examines everything before the cursor. -/
def checkedSync (d : Draft) (c : Cursor) : Option Draft :=
  d.checkedExamineTo (checkedExamine source) c.lexemeIndex

/-- Examines everything up to the last token that was passed. -/
def checkedSkipTransparent (lexemes : List Lexeme) (d : Draft) (c : Cursor) : Option Draft :=
  (c.checkedIndexAfterPrev lexemes d.examined).bind
    (d.checkedExamineTo (checkedExamineTransparent source))

/-- Hands over the documentation for a declaration that begins at the cursor. -/
def checkedTakeLeading (d : Draft) (c : Cursor) : Option (String × Draft) :=
  (checkedSync source d c).bind fun synced =>
    let synced := { synced with lastItem := none }
    match synced.pending with
    | none => some ("", synced)
    | some p =>
      let taken := { synced with pending := none }
      (taken.checkedExceedsGap p.lastLine c.location.line).map fun far =>
        if far then ("", taken.addDoc taken.orphanage p.text) else (p.text, taken)

/-- Notes that some entries were just made from the tokens before the cursor. -/
def checkedItemDone (lexemes : List Lexeme) (d : Draft) (c : Cursor) (ids : List EntryId) :
    Option Draft :=
  (c.checkedIndexAfterPrev lexemes d.dropPending.examined).bind fun place =>
    (d.dropPending.checkedExamineTo (checkedExamineInside source ids) place).map fun inside =>
      { inside with lastItem := some ⟨ids, c.prevStop.line⟩ }

/-- Examines the rest of the source. -/
def checkedFinish (d : Draft) (c : Cursor) : Option Draft :=
  (d.checkedExamineTo (checkedExamine source) c.lexemeCount).map fun last =>
    match last.pending with
    | some p => { last.addDoc last.builder.top?.toList p.text with pending := none }
    | none => last

end Source

/-! ### What keeps a draft safe -/

/-- The numbers and places of a draft fit. -/
structure Fits (source : String) (d : Draft) : Prop where
  /-- There is a line after what waits. -/
  pending : ∀ p, d.pending = some p → p.lastLine < Word32.max
  /-- What is left to examine stands in the source. -/
  queue : ∀ l ∈ d.unexamined, l.Fits source
  /-- The open entries are there. -/
  stack : d.builder.Open

theorem checkedExceedsGap_eq (d : Draft) {lastLine : Nat} (h : lastLine < Word32.max)
    (nextLine : Nat) :
    d.checkedExceedsGap lastLine nextLine = some (d.exceedsGap lastLine nextLine) := by
  rw [checkedExceedsGap, Word32.add?_of_le h]
  rfl

namespace Fits

variable {nested : Bool} {source : String} {c : Cursor} {d d' : Draft} {doc : DocComment}
variable {l : Lexeme}

theorem congr (h : d.Fits source) (hpending : ∀ p, d'.pending = some p → d.pending = some p)
    (hqueue : d'.unexamined = d.unexamined) (hframe : d.SameFrame d') : d'.Fits source := by
  constructor
  case pending => exact fun p hp => h.pending p (hpending p hp)
  case queue =>
    rw [hqueue]
    exact h.queue
  case stack => exact h.stack.of_sameFrame hframe

/-- Documentation that waits now, instead of what waited before. -/
theorem wait (h : d.Fits source) {p : Pending} (hp : p.lastLine < Word32.max) :
    Fits source { d with pending := some p } := by
  refine ⟨?_, h.queue, h.stack⟩
  intro q hq
  obtain rfl := Option.some.inj hq
  exact hp

theorem addDoc (h : d.Fits source) (ids : List EntryId) (text : String) :
    (d.addDoc ids text).Fits source :=
  h.congr (fun _ hp => hp) rfl (d.documents_addDoc ids text).sameFrame

theorem dropPending (h : d.Fits source) : d.dropPending.Fits source := by
  unfold Draft.dropPending
  split
  · exact h.congr (fun _ hp => by cases hp) rfl (.refl _)
  · exact h

/-! ### Taking up comments -/

theorem hold (h : d.Fits source) (hdoc : doc.lastLine < Word32.max) :
    d.checkedHold doc = some (d.hold doc) ∧ (d.hold doc).Fits source := by
  unfold checkedHold Draft.hold
  cases hpending : d.pending with
  | none => exact ⟨rfl, h.wait hdoc⟩
  | some p =>
    have hline := h.pending p hpending
    dsimp only
    rw [checkedExceedsGap_eq d hline, Option.bind_some]
    split
    · exact ⟨rfl, (h.addDoc _ _).wait hdoc⟩
    · rw [checkedJoinDocs, Word32.add?_of_le hline]
      exact ⟨rfl, h.wait hdoc⟩

theorem takeUp (h : d.Fits source) (hdoc : doc.lastLine < Word32.max) :
    d.checkedTakeUp doc = some (d.takeUp doc) ∧ (d.takeUp doc).Fits source := by
  unfold checkedTakeUp Draft.takeUp
  cases d.lastItem with
  | some item =>
    dsimp only
    split
    · exact ⟨rfl, h.addDoc _ _⟩
    · exact h.hold hdoc
  | none =>
    dsimp only
    split
    · exact ⟨rfl, h.congr (fun _ hp => hp) rfl (.refl _)⟩
    · exact h.hold hdoc

/-! ### Examining lexemes -/

theorem examine (h : d.Fits source) (hl : l.Fits source) :
    checkedExamine source d l = some (d.examine l) ∧ (d.examine l).Fits source := by
  unfold checkedExamine Draft.examine
  split
  · rw [hl.checkedOfLexeme?_eq, Option.bind_some]
    cases hdoc : DocComment.ofLexeme? d.options l with
    | none => exact ⟨rfl, h⟩
    | some doc => exact h.takeUp (hl.lastLine_lt hdoc)
  · exact ⟨rfl, h.dropPending.congr (fun _ hp => hp) rfl (.refl _)⟩

theorem examineTransparent (h : d.Fits source) (hl : l.Fits source) :
    checkedExamineTransparent source d l = some (d.examineTransparent l) ∧
      (d.examineTransparent l).Fits source := by
  unfold checkedExamineTransparent Draft.examineTransparent
  split
  · exact h.examine hl
  · exact ⟨rfl, h⟩

theorem examineInside (ids : List EntryId) (h : d.Fits source) (hl : l.Fits source) :
    checkedExamineInside source ids d l = some (Draft.examineInside ids d l) ∧
      (Draft.examineInside ids d l).Fits source := by
  unfold checkedExamineInside Draft.examineInside
  rw [hl.checkedOfLexeme?_eq, Option.map_some]
  cases DocComment.ofLexeme? d.options l with
  | none => exact ⟨rfl, h⟩
  | some doc => exact ⟨rfl, h.addDoc _ _⟩

/-- What is safe for every lexeme is safe for all of them in turn. -/
theorem foldl {checked : Draft → Lexeme → Option Draft} {f : Draft → Lexeme → Draft}
    (hf : ∀ {d l}, Fits source d → Lexeme.Fits source l →
      checked d l = some (f d l) ∧ Fits source (f d l))
    (h : d.Fits source) {ls : List Lexeme} (hls : ∀ l ∈ ls, l.Fits source) :
    ls.foldlM checked d = some (ls.foldl f d) ∧ (ls.foldl f d).Fits source := by
  induction ls generalizing d with
  | nil => exact ⟨rfl, h⟩
  | cons l ls ih =>
    obtain ⟨heq, hfits⟩ := hf h (hls l List.mem_cons_self)
    obtain ⟨hrest, hlast⟩ := ih hfits fun l hl => hls l (List.mem_cons_of_mem _ hl)
    refine ⟨?_, hlast⟩
    rw [List.foldlM_cons, heq]
    exact hrest

theorem examineTo {checked : Draft → Lexeme → Option Draft} {f : Draft → Lexeme → Draft}
    (hf : ∀ {d l}, Fits source d → Lexeme.Fits source l →
      checked d l = some (f d l) ∧ Fits source (f d l))
    (h : d.Fits source) (place : Nat) :
    d.checkedExamineTo checked place = some (d.examineTo f place) ∧
      (d.examineTo f place).Fits source := by
  have hstart : Fits source
      { d with
        unexamined := d.unexamined.drop (place - d.examined)
        examined := d.examined + (d.unexamined.take (place - d.examined)).length } :=
    ⟨h.pending, fun l hl => h.queue l (List.mem_of_mem_drop hl), h.stack⟩
  exact foldl hf hstart fun l hl => h.queue l (List.mem_of_mem_take hl)

/-! ### At a declaration -/

theorem sync (h : d.Fits source) (c : Cursor) :
    checkedSync source d c = some (d.sync c) ∧ (d.sync c).Fits source :=
  h.examineTo examine c.lexemeIndex

/-- The place that is searched backwards leaves the same lexemes to examine. -/
theorem examineTo_min (d : Draft) (f : Draft → Lexeme → Draft)
    (hc : (Cursor.ofLexemes (lex nested source)).Reaches c) :
    d.examineTo f (min c.lexemeIndex (max d.examined c.indexAfterPrev))
      = d.examineTo f c.indexAfterPrev := by
  have hprev := ((Cursor.numbered_ofLexemes _).of_reaches hc).indexAfterPrev_le
  have hcount : min c.lexemeIndex (max d.examined c.indexAfterPrev) - d.examined
      = c.indexAfterPrev - d.examined := by omega
  simp only [Draft.examineTo, hcount]

theorem skipTransparent (h : d.Fits source)
    (hc : (Cursor.ofLexemes (lex nested source)).Reaches c) :
    checkedSkipTransparent source (lex nested source) d c = some (d.skipTransparent c) ∧
      (d.skipTransparent c).Fits source := by
  have hexamined := h.examineTo examineTransparent
    (min c.lexemeIndex (max d.examined c.indexAfterPrev))
  rw [examineTo_min d _ hc] at hexamined
  rw [checkedSkipTransparent, checkedIndexAfterPrev_eq hc, Option.bind_some]
  exact hexamined

theorem takeLeading (h : d.Fits source) (c : Cursor) :
    checkedTakeLeading source d c = some (d.takeLeading c) ∧ (d.takeLeading c).2.Fits source := by
  obtain ⟨hsync, hfits⟩ := h.sync c
  unfold checkedTakeLeading Draft.takeLeading
  rw [hsync, Option.bind_some]
  have htaken : Fits source { d.sync c with lastItem := none, pending := none } :=
    hfits.congr (fun _ hp => by cases hp) rfl (.refl _)
  cases hpending : (d.sync c).pending with
  | none =>
    dsimp only
    rw [hpending]
    exact ⟨rfl, htaken⟩
  | some p =>
    dsimp only
    rw [hpending]
    dsimp only
    rw [checkedExceedsGap_eq _ (hfits.pending p hpending), Option.map_some]
    refine ⟨rfl, ?_⟩
    split
    · exact htaken.addDoc _ _
    · exact htaken

theorem itemDone (h : d.Fits source) (hc : (Cursor.ofLexemes (lex nested source)).Reaches c)
    (ids : List EntryId) :
    checkedItemDone source (lex nested source) d c ids = some (d.itemDone c ids) ∧
      (d.itemDone c ids).Fits source := by
  obtain ⟨hinside, hfits⟩ := h.dropPending.examineTo (examineInside ids)
    (min c.lexemeIndex (max d.dropPending.examined c.indexAfterPrev))
  rw [examineTo_min d.dropPending _ hc] at hinside hfits
  rw [checkedItemDone, checkedIndexAfterPrev_eq hc, Option.bind_some, hinside]
  exact ⟨rfl, hfits.congr (fun _ hp => hp) rfl (.refl _)⟩

theorem finish (h : d.Fits source) (c : Cursor) :
    checkedFinish source d c = some (d.finish c) ∧ (d.finish c).Fits source := by
  obtain ⟨hlast, hfits⟩ := h.examineTo examine c.lexemeCount
  rw [checkedFinish, hlast]
  refine ⟨rfl, ?_⟩
  unfold Draft.finish
  dsimp only
  split
  · exact (hfits.addDoc _ _).congr (fun _ hp => by cases hp) rfl (.refl _)
  · exact hfits

end Fits

/-! ### Acts -/

section Acts

variable (source : String) (lexemes : List Lexeme)

/-- Makes entries from what lies between two cursors, every partial operation
    checked. -/
def checkedDeclare (d : Draft) (c c' : Cursor) (entries : List Entry) : Option Draft :=
  (checkedTakeLeading source d c).bind fun led =>
    (entries.foldlM Builder.checkedAddLeaf led.2.builder).bind fun made =>
      checkedItemDone source lexemes { led.2 with builder := made } c'
        (List.range' led.2.builder.nextId entries.length)

/-- Begins an entry from what lies between two cursors, every partial operation
    checked. -/
def checkedEnter (d : Draft) (c c' : Cursor) (e : Entry) : Option Draft :=
  (checkedTakeLeading source d c).bind fun led =>
    (led.2.builder.checkedPush e).bind fun made =>
      checkedItemDone source lexemes { led.2 with builder := made } c' [led.2.builder.nextId]

/-- Whatever is done to a draft at a cursor, no partial operation is used outside
    of its domain. There is one part for each act that has such operations, and
    one for the end of the source. -/
structure InBounds (c : Cursor) (d : Draft) : Prop where
  /-- Examining what lies before the cursor. -/
  sync : checkedSync source d c = some (d.sync c)
  /-- Examining what does not part documentation. -/
  skip : checkedSkipTransparent source lexemes d c = some (d.skipTransparent c)
  /-- Taking documentation. -/
  lead : checkedTakeLeading source d c = some (d.takeLeading c)
  /-- Making entries. -/
  declare : ∀ c' entries, c.Reaches c' → checkedDeclare source lexemes d c c' entries
    = some (Draft.itemDone
        { (d.takeLeading c).2 with
          builder := entries.foldl Builder.addLeaf (d.takeLeading c).2.builder }
        c' (List.range' (d.takeLeading c).2.builder.nextId entries.length))
  /-- Beginning an entry. -/
  enter : ∀ c' e, c.Reaches c' → checkedEnter source lexemes d c c' e
    = some (Draft.itemDone
        { (d.takeLeading c).2 with builder := (d.takeLeading c).2.builder.push e }
        c' [(d.takeLeading c).2.builder.nextId])
  /-- Beginning an entry that no phrase declares. -/
  push : ∀ e, d.builder.checkedPush e = some (d.builder.push e)
  /-- Completing entries. -/
  item : ∀ ids, checkedItemDone source lexemes d c ids = some (d.itemDone c ids)
  /-- Examining the rest of the source. -/
  finish : checkedFinish source d c = some (d.finish c)
  /-- Finishing the outline. -/
  outline : (d.finish c).builder.checkedFinish c.eof = some ((d.finish c).builder.finish c.eof)

end Acts

namespace Fits

variable {nested : Bool} {source : String} {c c' : Cursor} {d : Draft}

theorem build (h : d.Fits source) {b : Builder} (hb : b.Open) :
    Fits source { d with builder := b } :=
  ⟨h.pending, h.queue, hb⟩

theorem declare (h : d.Fits source) (hc : (Cursor.ofLexemes (lex nested source)).Reaches c)
    (hreaches : c.Reaches c') (entries : List Entry) :
    let led := (d.takeLeading c).2
    let made := Draft.itemDone { led with builder := entries.foldl Builder.addLeaf led.builder }
      c' (List.range' led.builder.nextId entries.length)
    checkedDeclare source (lex nested source) d c c' entries = some made ∧ made.Fits source := by
  obtain ⟨hlead, hled⟩ := h.takeLeading c
  obtain ⟨hleaves, hopen⟩ := hled.stack.foldlM_checkedAddLeaf_eq entries
  intro led made
  rw [checkedDeclare, hlead, Option.bind_some, hleaves, Option.bind_some]
  exact (hled.build hopen).itemDone (hc.trans hreaches) _

theorem enter (h : d.Fits source) (hc : (Cursor.ofLexemes (lex nested source)).Reaches c)
    (hreaches : c.Reaches c') (e : Entry) :
    let led := (d.takeLeading c).2
    let made := Draft.itemDone { led with builder := led.builder.push e } c' [led.builder.nextId]
    checkedEnter source (lex nested source) d c c' e = some made ∧ made.Fits source := by
  obtain ⟨hlead, hled⟩ := h.takeLeading c
  intro led made
  rw [checkedEnter, hlead, Option.bind_some, hled.stack.checkedPush_eq, Option.bind_some]
  exact (hled.build (hled.stack.push e)).itemDone (hc.trans hreaches) _

theorem inBounds (h : d.Fits source) (hc : (Cursor.ofLexemes (lex nested source)).Reaches c) :
    d.InBounds source (lex nested source) c where
  sync := (h.sync c).1
  skip := (h.skipTransparent hc).1
  lead := (h.takeLeading c).1
  declare := fun _ entries hreaches => (h.declare hc hreaches entries).1
  enter := fun _ e hreaches => (h.enter hc hreaches e).1
  push := h.stack.checkedPush_eq
  item := fun ids => (h.itemDone hc ids).1
  finish := (h.finish c).1
  outline := (h.finish c).2.stack.checkedFinish_eq c.eof

end Fits

end Draft

/-- No act breaks what keeps a draft safe. -/
theorem Act.fits {nested : Bool} {source : String} {x y : Cursor × Draft} (h : Act x y)
    (hx : x.2.Fits source) (hc : (Cursor.ofLexemes (lex nested source)).Reaches x.1) :
    y.2.Fits source := by
  cases h with
  | move => exact hx
  | log e => exact hx.congr (fun _ hp => hp) rfl (.refl _)
  | sync => exact (hx.sync _).2
  | skip => exact (hx.skipTransparent hc).2
  | lead => exact (hx.takeLeading _).2
  | @declare c c' d led doc entries hled hreaches _ _ _ =>
    have hmade := (hx.declare hc hreaches entries).2
    rw [show (d.takeLeading c).2 = led by rw [hled]] at hmade
    exact hmade
  | @enter c c' d led e hled hreaches _ =>
    have hmade := (hx.enter hc hreaches e).2
    rw [show (d.takeLeading c).2 = led by rw [hled]] at hmade
    exact hmade
  | push => exact hx.build (hx.stack.push _)
  | item => exact (hx.itemDone hc _).2
  | amend id => exact hx.build (hx.stack.modify id _)
  | pop => exact hx.build (hx.stack.pop _)

theorem Acts.fits {nested : Bool} {source : String} {x y : Cursor × Draft} (h : Acts x y)
    (hx : x.2.Fits source) (hc : (Cursor.ofLexemes (lex nested source)).Reaches x.1) :
    y.2.Fits source := by
  induction h with
  | refl => exact hx
  | tail hacts hact ih => exact hact.fits ih (hc.trans (Acts.grows hacts).2)

end PascalOutline
