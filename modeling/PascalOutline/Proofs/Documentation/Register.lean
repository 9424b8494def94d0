import PascalOutline.Proofs.Documentation.Ledger
import PascalOutline.Recognizer.Run

/-! # The register of deliveries

  A register follows an outline from outside. It walks over the lexemes of a
  source, each one once, and keeps a ledger of what becomes of the documentation
  comments. All that it knows of the outline is how many entries were made,
  which of them are open, and which item was complete last. `Register.Turn` lists
  what it may do next; each turn is told by the lexemes alone, and by where the
  entries begin in the finished outline.

  A course is any number of turns. A draft that is on a course
  (`Register.Records`) has delivered every comment the way the turns say.
-/

namespace PascalOutline

/-- An entry begins with one of the lexemes between two places. -/
def Entry.BeginsIn (lexemes : List Lexeme) (first last : Nat) (e : Entry) : Prop :=
  ∃ k l, first ≤ k ∧ k < last ∧ lexemes[k]? = some l ∧ e.start = l.start

theorem Entry.BeginsIn.mono {lexemes : List Lexeme} {first last later : Nat} {e : Entry}
    (h : e.BeginsIn lexemes first last) (hle : last ≤ later) : e.BeginsIn lexemes first later := by
  obtain ⟨k, l, hfirst, hlast, hrest⟩ := h
  exact ⟨k, l, hfirst, Nat.lt_of_lt_of_le hlast hle, hrest⟩

/-- The end of the last code among the first lexemes. -/
def codeStop (lexemes : List Lexeme) (count : Nat) : Location :=
  (((lexemes.take count).filter fun l => !l.isTrivia).getLast?.map Lexeme.stop).getD .start

/-- A line is too far from the comments that wait: more blank lines than the
    limit lie between the last of them and that line. -/
def TooFar (options : Options) (lexemes : List Lexeme) (waiting : List Nat) (line : Nat) : Prop :=
  ∃ place doc limit, waiting.getLast? = some place ∧ docAt? options lexemes place = some doc ∧
    options.docGap = some limit ∧ doc.lastLine + 1 + limit < line

/-- The number of lexemes that were examined, what is known of the outline, and
    the deliveries. -/
structure Register where
  /-- The number of lexemes that were examined. -/
  count : Nat := 0
  /-- The number of entries that were made. -/
  made : Nat := 0
  /-- The open entries, innermost first. -/
  opened : List EntryId := []
  /-- The entries to which the next lexemes belong. -/
  inside : Option (List EntryId) := none
  /-- The item that trailing documentation belongs to. -/
  lastItem : Option LastItem := none
  /-- Behind the code before this place no more entries are made. -/
  barred : Nat := 0
  /-- What became of the comments that were examined. -/
  ledger : Ledger := {}

namespace Register

section Turns

variable (options : Options) (lexemes : List Lexeme) (look : EntryId → Option Entry)

/-- An entry begins with a lexeme from some place on. Only trivia stands before
    that place if the entry is the root. -/
def Begins (place : Nat) (id : EntryId) : Prop :=
  if id = 0 then ∀ k l, k < place → lexemes[k]? = some l → l.isTrivia = true
  else ∃ e, look id = some e ∧ e.BeginsIn lexemes place lexemes.length

/-- One turn of a register; `look` finds the entries of the outline. -/
inductive Turn : Register → Register → Prop where
  /-- The next lexeme does not document, and nothing happens. -/
  | pass {r : Register} (hlt : r.count < lexemes.length)
      (hnone : docAt? options lexemes r.count = none) :
      Turn r { r with count := r.count + 1 }
  /-- The next comment trails the last item: it is marked, or it begins on the
      line on which the item ended. -/
  | trail {r : Register} {doc : DocComment} {item : LastItem} (houtside : r.inside = none)
      (hdoc : docAt? options lexemes r.count = some doc) (hitem : r.lastItem = some item)
      (htrails : doc.trailing = true ∨ doc.line = item.line) :
      Turn r { r with count := r.count + 1, ledger := r.ledger.give r.count .item item.ids }
  /-- The next comment is marked as trailing, but there is no last item. -/
  | drop {r : Register} {doc : DocComment} (houtside : r.inside = none)
      (hdoc : docAt? options lexemes r.count = some doc) (hitem : r.lastItem = none)
      (htrailing : doc.trailing = true) :
      Turn r { r with count := r.count + 1, ledger := r.ledger.give r.count .dropped [] }
  /-- The next comment trails nothing, and it is near those that wait. So it
      waits too. -/
  | keep {r : Register} {doc : DocComment} (houtside : r.inside = none)
      (hdoc : docAt? options lexemes r.count = some doc) (hleads : doc.trailing = false)
      (hitem : ∀ item, r.lastItem = some item → doc.line ≠ item.line)
      (hnear : ¬ TooFar options lexemes r.ledger.waiting doc.line) :
      Turn r { r with count := r.count + 1, ledger := r.ledger.keep r.count }
  /-- What waits is too far from the next lexeme, which is code or a comment that
      documents what follows. It goes to an entry that was made, or to nobody
      if there is none. -/
  | far {r : Register} {l : Lexeme} {ids : List EntryId} (houtside : r.inside = none)
      (hl : lexemes[r.count]? = some l)
      (hnext : l.isTrivia = false ∨ Leads options lexemes r.count)
      (hfar : TooFar options lexemes r.ledger.waiting l.start.line)
      (hids : r.opened = [] ∧ ids = [] ∨ ∃ id < r.made, ids = [id]) :
      Turn r { r with ledger := r.ledger.handOver ids }
  /-- The next lexeme is code. No comment behind it trails the last item. -/
  | forget {r : Register} {l : Lexeme} (houtside : r.inside = none)
      (hl : lexemes[r.count]? = some l) (hcode : l.isTrivia = false) :
      Turn r { r with lastItem := none }
  /-- The next lexeme is code, and parts what waits from what follows. -/
  | part {r : Register} {l : Lexeme} (houtside : r.inside = none)
      (hl : lexemes[r.count]? = some l) (hcode : l.isTrivia = false) :
      Turn r { r with count := r.count + 1, lastItem := none, ledger := r.ledger.handOver [] }
  /-- The next lexeme is code with which no entry begins after all, although
      documentation was taken for one. -/
  | lose {r : Register} {l : Lexeme} (houtside : r.inside = none)
      (hl : lexemes[r.count]? = some l) (hcode : l.isTrivia = false) :
      Turn r { r with barred := r.count + 1, ledger := r.ledger.handOver [] }
  /-- A source without a module header has a root before its first lexeme. -/
  | root {r : Register} (hfirst : r.count = 0) (hnone : r.made = 0)
      (hheader : State.moduleKind? (Cursor.ofLexemes lexemes) = none) :
      Turn r { r with made := 1, opened := [0] }
  /-- The next lexeme is code, with which entries begin. They get what waits,
      unless it is too far away. A single entry may be left open. -/
  | make {r : Register} {l : Lexeme} {n : Nat} {opened : List EntryId} (houtside : r.inside = none)
      (hl : lexemes[r.count]? = some l) (hcode : l.isTrivia = false)
      (hfree : r.barred ≤ r.count)
      (hnear : ¬ TooFar options lexemes r.ledger.waiting l.start.line) (hsome : 0 < n)
      (hbegins : ∀ id ∈ List.range' r.made n, Begins lexemes look r.count id)
      (hopened : opened = r.opened ∨ n = 1 ∧ opened = r.made :: r.opened) :
      Turn r
        { r with
          made := r.made + n, opened, inside := some (List.range' r.made n)
          ledger := r.ledger.handOver (List.range' r.made n) }
  /-- The next comment stands inside of entries and documents them. -/
  | within {r : Register} {ids : List EntryId} {doc : DocComment} (hinside : r.inside = some ids)
      (hdoc : docAt? options lexemes r.count = some doc) :
      Turn r { r with count := r.count + 1, ledger := r.ledger.give r.count .item ids }
  /-- Entries are complete. They are the last item now, which ended with the
      last code. -/
  | done {r : Register} {ids : List EntryId} (hinside : r.inside = some ids) :
      Turn r
        { r with inside := none, lastItem := some ⟨ids, (codeStop lexemes r.count).line⟩ }
  /-- The innermost open entry is at its end. What waits in it is dropped. -/
  | close {r : Register} {id below : EntryId} {rest : List EntryId} (houtside : r.inside = none)
      (hopened : r.opened = id :: below :: rest) :
      Turn r
        { r with opened := below :: rest, inside := some [id], ledger := r.ledger.handOver [] }
  /-- The innermost open entry was left without an end. -/
  | abandon {r : Register} {id below : EntryId} {rest : List EntryId} (houtside : r.inside = none)
      (hopened : r.opened = id :: below :: rest) :
      Turn r { r with opened := below :: rest }
  /-- The source is at its end. What still waits goes to the innermost open
      entry. -/
  | finish {r : Register} (houtside : r.inside = none) (hend : r.count = lexemes.length) :
      Turn r { r with ledger := r.ledger.handOver r.opened.head?.toList }

/-- Any number of turns. -/
abbrev Course : Register → Register → Prop :=
  Relation.ReflTransGen (Turn options lexemes look)

end Turns

/-! ### Turns and outlines -/

variable {options : Options} {lexemes : List Lexeme} {look look' : EntryId → Option Entry}
variable {r r' : Register}

/-- The entries of one outline, but the root, begin at the same places in
    another one. -/
def SameStarts (look look' : EntryId → Option Entry) : Prop :=
  ∀ id e, id ≠ 0 → look id = some e → ∃ e', look' id = some e' ∧ e'.start = e.start

theorem SameStarts.of_grows {b b' : Builder} {made : Entry → Prop} (h : b.Grows made b') :
    SameStarts b.entry? b'.entry? := by
  intro id e _ he
  obtain ⟨e', he', hkeeps⟩ := h.kept id e he
  exact ⟨e', he', hkeeps.start⟩

theorem Begins.mono (hlook : SameStarts look look') {place : Nat} {id : EntryId}
    (h : Begins lexemes look place id) : Begins lexemes look' place id := by
  unfold Begins at h ⊢
  split
  · next hroot => rwa [if_pos hroot] at h
  · next hroot =>
    rw [if_neg hroot] at h
    obtain ⟨e, he, k, l, hfirst, hlast, hl, hstart⟩ := h
    obtain ⟨e', he', hsame⟩ := hlook id e hroot he
    exact ⟨e', he', k, l, hfirst, hlast, hl, hsame.trans hstart⟩

/-- Turns know of the entries only where they begin. -/
theorem Turn.mono (hlook : SameStarts look look') (h : Turn options lexemes look r r') :
    Turn options lexemes look' r r' := by
  cases h with
  | pass hlt hnone => exact .pass hlt hnone
  | trail houtside hdoc hitem htrails => exact .trail houtside hdoc hitem htrails
  | drop houtside hdoc hitem htrailing => exact .drop houtside hdoc hitem htrailing
  | keep houtside hdoc hleads hitem hnear => exact .keep houtside hdoc hleads hitem hnear
  | far houtside hl hnext hfar hids => exact .far houtside hl hnext hfar hids
  | forget houtside hl hcode => exact .forget houtside hl hcode
  | part houtside hl hcode => exact .part houtside hl hcode
  | lose houtside hl hcode => exact .lose houtside hl hcode
  | root hfirst hnone hheader => exact .root hfirst hnone hheader
  | make houtside hl hcode hfree hnear hsome hbegins hopened =>
    exact .make houtside hl hcode hfree hnear hsome (fun id hid => (hbegins id hid).mono hlook)
      hopened
  | within hinside hdoc => exact .within hinside hdoc
  | done hinside => exact .done hinside
  | close houtside hopened => exact .close houtside hopened
  | abandon houtside hopened => exact .abandon houtside hopened
  | finish houtside hend => exact .finish houtside hend

theorem Course.mono (hlook : SameStarts look look') (h : Course options lexemes look r r') :
    Course options lexemes look' r r' :=
  Relation.ReflTransGen.mono (fun _ _ => Turn.mono hlook) _ _ h

/-- No lexeme is examined twice. -/
theorem Turn.count_le (h : Turn options lexemes look r r') : r.count ≤ r'.count := by
  cases h <;> first | exact Nat.le_refl _ | exact Nat.le_succ _

theorem Course.count_le (h : Course options lexemes look r r') : r.count ≤ r'.count := by
  induction h with
  | refl => exact Nat.le_refl _
  | tail _ hturn ih => exact Nat.le_trans ih hturn.count_le

end Register

/-! ### Registers of drafts -/

/-- A register is up to date with a draft. -/
structure Register.Records (options : Options) (lexemes : List Lexeme) (r : Register) (d : Draft) :
    Prop where
  /-- So many entries were made. -/
  made : r.made = d.builder.entries.size
  /-- These are open. -/
  opened : r.opened = d.builder.stack
  /-- This item came last. -/
  lastItem : r.lastItem = d.lastItem
  /-- The comments that were examined are accounted for. -/
  accounts : r.ledger.Accounts options lexemes r.count d

/-! ### The end of the last code -/

/-- Up to the next token, the last code ends where the last token that was passed
    ends. -/
theorem Cursor.Reaches.codeStop_eq {lexemes : List Lexeme} {c : Cursor}
    (h : (ofLexemes lexemes).Reaches c) {place : Nat} (hfirst : c.indexAfterPrev ≤ place)
    (hlast : place ≤ c.lexemeIndex) : codeStop lexemes place = c.prevStop := by
  have htrivia : ∀ l ∈ (lexemes.take place).drop c.indexAfterPrev, ¬ (!l.isTrivia) = true := by
    intro l hl
    obtain ⟨k, hk⟩ := List.getElem?_of_mem hl
    rw [List.getElem?_drop, List.getElem?_take] at hk
    split at hk
    · next hlt => simp [h.isTrivia_of_between hk (Nat.le_add_right _ _) (by omega)]
    · cases hk
  have hbehind : (lexemes.take place).filter (fun l => !l.isTrivia)
      = (lexemes.take c.indexAfterPrev).filter fun l => !l.isTrivia := by
    conv_lhs => rw [← List.take_append_drop c.indexAfterPrev (lexemes.take place)]
    rw [List.filter_append, List.filter_eq_nil_iff.mpr htrivia, List.append_nil, List.take_take,
      Nat.min_eq_left hfirst]
  rw [codeStop, hbehind]
  cases hprev : c.prev? with
  | none =>
    rw [prevStop_of_prev?_eq_none hprev, indexAfterPrev, hprev]
    rfl
  | some t =>
    obtain ⟨hl, hcode⟩ := h.getElem?_index (mem_tokens_of_prev? hprev)
    have hindex : c.indexAfterPrev = t.index + 1 := by
      rw [indexAfterPrev, hprev]
      rfl
    rw [hindex, List.take_add_one, hl, prevStop_eq_of_prev? hprev]
    simp [hcode, Token.stop]

end PascalOutline
