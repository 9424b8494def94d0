import PascalOutline.Proofs.Documentation.Gap
import PascalOutline.Proofs.Documentation.Strung

/-! # Comments in turn

  Comments are examined in source order, and most of them are delivered in that
  order too. Only a comment that is marked as trailing does not wait: it goes to
  the last item at once, while unmarked comments that stand before it go on
  waiting and are delivered later (`Overtakes`).

  `Draft.Timely` says that nothing else happens. It is kept by every function
  of a draft, as long as the entries begin before what is not examined yet
  (`Builder.BegunBy`): what waits then stands behind all entries, so that an
  overtaken comment and the one that overtakes it lie between the same entries.
-/

namespace PascalOutline

/-! ### Lexemes in order -/

/-- The lexemes of a source, each one behind the ones before it. -/
structure LinedUp (lexemes : List Lexeme) : Prop where
  /-- Each one ends before the next ones begin. -/
  apart : lexemes.Pairwise fun l m => l.stop.Precedes m.start
  /-- None ends before it begins. -/
  extent : ∀ l ∈ lexemes, l.start.Precedes l.stop
  /-- They begin behind the beginning of the text. -/
  first : ∀ l ∈ lexemes, Location.start.Precedes l.start

theorem linedUp_lex (nested : Bool) (source : String) : LinedUp (Lexer.lex nested source) := by
  constructor
  · exact pairwise_lexFrom nested .start source.toList
  · intro l hl
    obtain ⟨pre, post, hstands⟩ := standsAt_of_mem_lex hl
    rw [hstands.stop]
    exact l.start.precedes_after _
  · intro l hl
    exact precedes_start_of_mem_lexFrom hl

/-- A location is not behind the beginning of the lexeme at a place, nor of
    any later one. -/
def Location.BeforeAll (lexemes : List Lexeme) (place : Nat) (p : Location) : Prop :=
  ∀ k l, place ≤ k → lexemes[k]? = some l → p.Precedes l.start

theorem Location.BeforeAll.mono {lexemes : List Lexeme} {place next : Nat} {p : Location}
    (h : p.BeforeAll lexemes place) (hle : place ≤ next) : p.BeforeAll lexemes next :=
  fun k l hk hl => h k l (Nat.le_trans hle hk) hl

theorem Location.Precedes.line_le {p q : Location} (h : p.Precedes q) : p.line ≤ q.line := by
  have hle := Location.le_def.mp h.order
  omega

namespace LinedUp

variable {lexemes : List Lexeme} {place : Nat} {l : Lexeme}

theorem beforeAll_stop (h : LinedUp lexemes) (hl : lexemes[place]? = some l) :
    l.stop.BeforeAll lexemes (place + 1) := by
  intro k m hk hm
  obtain ⟨hplace, rfl⟩ := List.getElem?_eq_some_iff.mp hl
  obtain ⟨hlt, rfl⟩ := List.getElem?_eq_some_iff.mp hm
  exact List.pairwise_iff_getElem.mp h.apart place k hplace hlt hk

theorem beforeAll_start (h : LinedUp lexemes) (hl : lexemes[place]? = some l) :
    l.start.BeforeAll lexemes place := by
  intro k m hk hm
  by_cases hsame : k = place
  · rw [hsame, hl] at hm
    rw [Option.some.inj hm]
    exact .refl _
  · have hstop := h.beforeAll_stop hl k m (by omega) hm
    exact (h.extent l (List.mem_of_getElem? hl)).trans hstop

/-- The last token that a cursor passed ends before the lexemes behind it. -/
theorem beforeAll_prevStop (h : LinedUp lexemes) {c : Cursor}
    (hreaches : (Cursor.ofLexemes lexemes).Reaches c) :
    c.prevStop.BeforeAll lexemes c.indexAfterPrev := by
  cases hprev : c.prev? with
  | none =>
    intro k l _ hl
    rw [Cursor.prevStop_of_prev?_eq_none hprev]
    exact h.first l (List.mem_of_getElem? hl)
  | some t =>
    have hlexeme := (hreaches.getElem?_index (Cursor.mem_tokens_of_prev? hprev)).1
    have hindex : c.indexAfterPrev = t.index + 1 := by
      rw [Cursor.indexAfterPrev, hprev]
      rfl
    rw [hindex, Cursor.prevStop_eq_of_prev? hprev]
    exact h.beforeAll_stop hlexeme

end LinedUp

/-! ### Entries and places -/

/-- Every entry but the root begins before the lexemes from a place on. -/
def Builder.BegunBy (lexemes : List Lexeme) (place : Nat) (b : Builder) : Prop :=
  ∀ i e, b.entry? i = some e → i ≠ 0 → e.start.BeforeAll lexemes place

/-- The entries of a builder, but the root, were there before or begin between
    two places. -/
def Builder.Extends (lexemes : List Lexeme) (first last : Nat) (b b' : Builder) : Prop :=
  ∀ i e, b'.entry? i = some e → i ≠ 0 →
    (∃ old, b.entry? i = some old ∧ e.start = old.start) ∨ e.BeginsIn lexemes first last

namespace Builder

variable {lexemes : List Lexeme} {b b' : Builder} {place first last : Nat}

theorem BegunBy.mono (h : b.BegunBy lexemes place) {next : Nat} (hle : place ≤ next) :
    b.BegunBy lexemes next :=
  fun i e he hi => (h i e he hi).mono hle

/-- New entries begin between the places, and the others where they began. -/
theorem Grows.extends (h : b.Grows (·.BeginsIn lexemes first last) b') :
    b.Extends lexemes first last b' := by
  intro i e he _
  by_cases hi : i < b.entries.size
  · obtain ⟨old, hold⟩ := exists_entry? hi
    obtain ⟨e', he', hkeeps⟩ := h.kept i old hold
    obtain rfl := Option.some.inj (he'.symm.trans he)
    exact .inl ⟨old, hold, hkeeps.start⟩
  · obtain ⟨new, ⟨k, l, hfirst, hlast, hl, hstart⟩, hkeeps⟩ := h.new i e he (Nat.le_of_not_lt hi)
    exact .inr ⟨k, l, hfirst, hlast, hl, hkeeps.start.trans hstart⟩

/-- Where no entry is made, all begin where they began. -/
theorem Grows.extends_of_kept (h : b.Grows (fun _ => False) b') (first last : Nat) :
    b.Extends lexemes first last b' :=
  (h.mono fun _ hnone => hnone.elim).extends

theorem BegunBy.of_extends (h : b.BegunBy lexemes place) (hlined : LinedUp lexemes)
    (hextends : b.Extends lexemes first last b') {next : Nat} (hle : place ≤ next)
    (hlast : last ≤ next) : b'.BegunBy lexemes next := by
  intro i e he hi
  rcases hextends i e he hi with ⟨old, hold, hstart⟩ | ⟨k, l, _, hk, hl, hstart⟩
  · rw [hstart]
    exact (h i old hold hi).mono hle
  · rw [hstart]
    exact (hlined.beforeAll_start hl).mono (by omega)

theorem BegunBy.of_grows (h : b.BegunBy lexemes place) (hgrows : b.Grows (fun _ => False) b') :
    b'.BegunBy lexemes place := by
  intro i e he hi
  obtain ⟨old, hold, hkeeps⟩ := hgrows.exists_kept he
  rw [hkeeps.start]
  exact h i old hold hi

theorem BegunBy.of_documents (h : b.BegunBy lexemes place) (hdocs : b.Documents b') :
    b'.BegunBy lexemes place :=
  h.of_grows (.of_documents hdocs)

end Builder

/-! ### Overtaking -/

/-- A comment that is marked as trailing overtakes an unmarked one that stands
    before it. No entry but the root begins between the two; `look` finds the
    entries. -/
structure Overtakes (options : Options) (lexemes : List Lexeme) (look : EntryId → Option Entry)
    (marked unmarked : Nat) : Prop where
  /-- It stands behind the other one. -/
  behind : unmarked < marked
  /-- It is marked. -/
  trailing : ∃ doc, docAt? options lexemes marked = some doc ∧ doc.trailing = true
  /-- The other one is not. -/
  leads : Leads options lexemes unmarked
  /-- Entries begin before both or after both. -/
  together : ∀ i e, look i = some e → i ≠ 0 → e.start.BeforeAll lexemes unmarked ∨
    ∀ l, lexemes[marked]? = some l → l.start.Precedes e.start

/-- One comment comes before another one in the source, or overtakes it. -/
def InTurn (options : Options) (lexemes : List Lexeme) (look : EntryId → Option Entry)
    (first second : Nat) : Prop :=
  first < second ∨ Overtakes options lexemes look first second

section Extends

variable {options : Options} {lexemes : List Lexeme} {b b' : Builder} {first last x y : Nat}

/-- Entries that are made later begin behind both comments. -/
theorem Overtakes.of_extends (h : Overtakes options lexemes b.entry? x y) (hlined : LinedUp lexemes)
    (hextends : b.Extends lexemes first last b') (hx : x ≤ first) :
    Overtakes options lexemes b'.entry? x y := by
  constructor
  case behind => exact h.behind
  case trailing => exact h.trailing
  case leads => exact h.leads
  case together =>
    intro i e he hi
    rcases hextends i e he hi with ⟨old, hold, hstart⟩ | ⟨k, m, hk, _, hm, hstart⟩
    · rw [hstart]
      exact h.together i old hold hi
    · apply Or.inr
      intro l hl
      rw [hstart]
      exact hlined.beforeAll_start hl k m (by omega) hm

theorem InTurn.of_extends (h : InTurn options lexemes b.entry? x y) (hlined : LinedUp lexemes)
    (hextends : b.Extends lexemes first last b') (hx : x ≤ first) :
    InTurn options lexemes b'.entry? x y :=
  h.imp_right fun hovertakes => hovertakes.of_extends hlined hextends hx

end Extends

/-! ### Ledgers -/

namespace Ledger

/-- All comments of a ledger, in the order in which they are delivered. -/
def order (ledger : Ledger) : List Nat :=
  ledger.deliveries.flatMap Delivery.comments ++ ledger.waiting

@[simp] theorem order_handOver (ledger : Ledger) (ids : List EntryId) :
    (ledger.handOver ids).order = ledger.order := by
  simp [order, handOver]

@[simp] theorem order_keep (ledger : Ledger) (place : Nat) :
    (ledger.keep place).order = ledger.order ++ [place] := by
  simp [order, keep]

theorem order_give (ledger : Ledger) (place : Nat) (route : Route) (ids : List EntryId) :
    (ledger.give place route ids).order
      = ledger.deliveries.flatMap Delivery.comments ++ place :: ledger.waiting := by
  simp [order, give]

theorem Accounts.lt_of_mem_order {options : Options} {lexemes : List Lexeme} {ledger : Ledger}
    {count : Nat} {d : Draft} (h : ledger.Accounts options lexemes count d) {place : Nat}
    (hplace : place ∈ ledger.order) : place < count :=
  lt_of_mem_docPlaces options lexemes (h.once.subset hplace)

/-- The comments of a ledger for the first `count` lexemes are in turn, and the
    next ones will be. -/
structure Timely (options : Options) (lexemes : List Lexeme) (ledger : Ledger) (count : Nat)
    (d : Draft) : Prop where
  /-- They are delivered in source order, up to overtaking. -/
  turn : ledger.order.Pairwise (InTurn options lexemes d.builder.entry?)
  /-- What waits stands behind the beginnings of all entries. -/
  begun : ∀ place ∈ ledger.waiting, d.builder.BegunBy lexemes place
  /-- It begins below the line on which the last item ended. -/
  below : ∀ item, d.lastItem = some item → ∀ place ∈ ledger.waiting, ∀ l,
    lexemes[place]? = some l → item.line < l.start.line
  /-- What follows does not begin above that line. -/
  follows : ∀ item, d.lastItem = some item → ∀ k l, count ≤ k → lexemes[k]? = some l →
    item.line ≤ l.start.line

end Ledger

/-! ### Drafts -/

namespace Draft

/-- The comments among the first `count` lexemes are accounted for, and they are
    in turn. -/
def Timely (options : Options) (lexemes : List Lexeme) (count : Nat) (d : Draft) : Prop :=
  ∃ ledger : Ledger, ledger.Accounts options lexemes count d ∧
    ledger.Timely options lexemes count d

namespace Timely

variable {options : Options} {lexemes : List Lexeme} {count : Nat} {d d' : Draft}

theorem reads (h : d.Timely options lexemes count) : d.options = options := by
  obtain ⟨_, haccounts, _⟩ := h
  exact haccounts.reads

theorem lastItem (h : d.Timely options lexemes count) {item : LastItem}
    (hitem : d.lastItem = some item) : item.ids ≠ [] ∧ d.builder.IsItem lexemes item.ids := by
  obtain ⟨_, haccounts, _⟩ := h
  exact haccounts.lastItem item hitem

/-- Only the outline, the documentation and the last item matter. -/
theorem congr (h : d.Timely options lexemes count) (hoptions : d'.options = d.options)
    (hbuilder : d'.builder = d.builder) (hpending : d'.pending = d.pending)
    (hlast : ∀ item, d'.lastItem = some item → d.lastItem = some item) :
    d'.Timely options lexemes count := by
  obtain ⟨ledger, haccounts, htimely⟩ := h
  refine ⟨ledger, haccounts.congr hoptions hbuilder hpending hlast, ?_⟩
  constructor
  · rw [hbuilder]
    exact htimely.turn
  · rw [hbuilder]
    exact htimely.begun
  · exact fun item hitem => htimely.below item (hlast item hitem)
  · exact fun item hitem => htimely.follows item (hlast item hitem)

theorem forgetLast (h : d.Timely options lexemes count) :
    Timely options lexemes count { d with lastItem := none } :=
  h.congr rfl rfl rfl fun _ hnone => by cases hnone

theorem skip (h : d.Timely options lexemes count) (hnone : docAt? options lexemes count = none) :
    d.Timely options lexemes (count + 1) := by
  obtain ⟨ledger, haccounts, htimely⟩ := h
  refine ⟨ledger, haccounts.skip hnone, htimely.turn, htimely.begun, htimely.below, ?_⟩
  intro item hitem k l hk hl
  exact htimely.follows item hitem k l (by omega) hl

/-- Where nothing waits, a new item may come last. -/
theorem setLast (h : d.Timely options lexemes count) (hpending : d.pending = none)
    {ids : List EntryId} (hids : ids ≠ []) (hitem : d.builder.IsItem lexemes ids) {p : Location}
    (hp : p.BeforeAll lexemes count) :
    Timely options lexemes count { d with lastItem := some ⟨ids, p.line⟩ } := by
  obtain ⟨ledger, haccounts, htimely⟩ := h
  have hwaiting := haccounts.waiting_eq_nil hpending
  refine ⟨ledger, haccounts.setLast hids hitem p.line, htimely.turn, htimely.begun, ?_, ?_⟩
  · intro item _ place hplace
    rw [hwaiting] at hplace
    cases hplace
  · intro item hlast k l hk hl
    obtain rfl := Option.some.inj hlast
    exact (hp k l hk hl).line_le

/-- The next comment is delivered at once. Nothing waits, or it is marked. -/
theorem give (h : d.Timely options lexemes count) {doc : DocComment} {route : Route}
    {ids : List EntryId} (hdoc : docAt? options lexemes count = some doc)
    (hregular : Delivery.Regular options lexemes ⟨[count], route, ids⟩)
    (hitem : d.builder.IsItem lexemes ids) (hlined : LinedUp lexemes)
    (hmarked : d.pending = none ∨ doc.trailing = true) :
    (d.addDoc ids doc.text).Timely options lexemes (count + 1) := by
  obtain ⟨ledger, haccounts, htimely⟩ := h
  have hdocs : d.Documents (d.addDoc ids doc.text) := d.documents_addDoc ids doc.text
  have hgrows : d.builder.Grows (fun _ => False) (d.addDoc ids doc.text).builder :=
    .of_documents hdocs
  refine ⟨ledger.give count route ids, haccounts.give hdoc hregular hitem, ?_⟩
  -- The comments that were delivered stand before it; it overtakes the others.
  have hbefore : ∀ place ∈ ledger.deliveries.flatMap Delivery.comments,
      InTurn options lexemes d.builder.entry? place count := by
    intro place hplace
    exact .inl (haccounts.lt_of_mem_order (List.mem_append_left _ hplace))
  have hovertakes : ∀ place ∈ ledger.waiting,
      InTurn options lexemes d.builder.entry? count place := by
    intro place hplace
    rcases hmarked with hnone | htrailing
    · rw [haccounts.waiting_eq_nil hnone] at hplace
      cases hplace
    · apply Or.inr
      constructor
      case behind => exact haccounts.lt_of_mem_order (List.mem_append_right _ hplace)
      case trailing => exact ⟨doc, hdoc, htrailing⟩
      case leads => exact haccounts.leads place hplace
      case together => exact fun i e he hi => .inl (htimely.begun place hplace i e he hi)
  have hturn : (ledger.give count route ids).order.Pairwise
      (InTurn options lexemes d.builder.entry?) := by
    obtain ⟨hdelivered, hwaiting, hacross⟩ := List.pairwise_append.mp htimely.turn
    rw [Ledger.order_give]
    apply List.pairwise_append.mpr
    refine ⟨hdelivered, List.pairwise_cons.mpr ⟨hovertakes, hwaiting⟩, ?_⟩
    intro x hx y hy
    rcases List.mem_cons.mp hy with rfl | hy
    · exact hbefore x hx
    · exact hacross x hx y hy
  constructor
  case turn =>
    apply hturn.imp_of_mem
    intro x y hx _ hxy
    have hlt : x < count + 1 := (haccounts.give hdoc hregular hitem).lt_of_mem_order hx
    exact hxy.of_extends hlined (hgrows.extends_of_kept (count + 1) 0) (Nat.le_of_lt hlt)
  case begun => exact fun place hplace => (htimely.begun place hplace).of_documents hdocs
  case below => exact htimely.below
  case follows => exact fun item hlast k l hk hl => htimely.follows item hlast k l (by omega) hl

/-- Texts of entries change, or entries end. -/
theorem grow (h : d.Timely options lexemes count) {b : Builder} (hlined : LinedUp lexemes)
    (hgrows : d.builder.Grows (fun _ => False) b) (hdocs : ∀ i, b.docOf i = d.builder.docOf i) :
    Timely options lexemes count { d with builder := b } := by
  obtain ⟨ledger, haccounts, htimely⟩ := h
  refine ⟨ledger, haccounts.grow hgrows hdocs, ?_, ?_, htimely.below, htimely.follows⟩
  · apply htimely.turn.imp_of_mem
    intro x y hx _ hxy
    have hlt := haccounts.lt_of_mem_order hx
    exact hxy.of_extends hlined (hgrows.extends_of_kept count 0) (Nat.le_of_lt hlt)
  · exact fun place hplace => (htimely.begun place hplace).of_grows hgrows

/-- What waits is delivered: the order is the same. -/
theorem handOver (h : d.Timely options lexemes count) {made : Entry → Prop} {b : Builder}
    {ids : List EntryId} {first last : Nat} (hlined : LinedUp lexemes)
    (hgrows : d.builder.Grows made b) (hextends : d.builder.Extends lexemes first last b)
    (hfirst : count ≤ first) (hitem : b.IsItem lexemes ids)
    (hdocs : ∀ i, b.docOf i = if i ∈ ids then
      withParagraph (d.builder.docOf i) ((d.pending.map Pending.text).getD "")
      else d.builder.docOf i) :
    Timely options lexemes count { d with builder := b, pending := none } := by
  obtain ⟨ledger, haccounts, htimely⟩ := h
  have hhanded : (ledger.handOver ids).Accounts options lexemes count
      { d with builder := b, pending := none } := by
    apply haccounts.handOver hgrows hitem
    rw [haccounts.text_pending]
    exact hdocs
  refine ⟨ledger.handOver ids, hhanded, ?_⟩
  constructor
  case turn =>
    rw [Ledger.order_handOver]
    apply htimely.turn.imp_of_mem
    intro x y hx _ hxy
    have hlt := haccounts.lt_of_mem_order hx
    exact hxy.of_extends hlined hextends (by omega)
  case begun =>
    intro place hplace
    cases hplace
  case below =>
    intro item _ place hplace
    cases hplace
  case follows => exact htimely.follows

theorem dropPending (h : d.Timely options lexemes count) (hlined : LinedUp lexemes) :
    d.dropPending.Timely options lexemes count := by
  have hsame : d.builder.Grows (fun _ => False) d.builder := .refl _
  have hdropped := h.handOver hlined hsame (hsame.extends_of_kept count 0) (Nat.le_refl count) .nil
    (by simp)
  unfold Draft.dropPending
  split
  · exact hdropped.congr rfl rfl rfl fun _ hitem => hitem
  · next hnone => exact hdropped.congr rfl rfl hnone fun _ hitem => hitem

/-- What waits goes to entries that are there. -/
theorem handTo (h : d.Timely options lexemes count) (hlined : LinedUp lexemes) {ids : List EntryId}
    (hitem : d.builder.IsItem lexemes ids) : (d.handTo ids).Timely options lexemes count := by
  unfold Draft.handTo
  split
  · next p hpending =>
    have hdocs : d.builder.Documents (ids.foldl (fun b id => b.addDoc id p.text) d.builder) :=
      .foldl_addDoc d.builder ids p.text
    have hgrows : d.builder.Grows (fun _ => False)
        (ids.foldl (fun b id => b.addDoc id p.text) d.builder) := .of_documents hdocs
    apply h.handOver hlined hgrows (hgrows.extends_of_kept count 0) (Nat.le_refl count)
      (hitem.of_grows hgrows)
    rw [hpending]
    exact d.builder.docOf_foldl_addDoc hitem.nodup hitem.lt_size p.text
  · exact h

theorem handFar (h : d.Timely options lexemes count) (hlined : LinedUp lexemes)
    (hfits : d.builder.Fits) (line : Nat) : (d.handFar line).Timely options lexemes count := by
  unfold Draft.handFar
  split
  · exact h.handTo hlined hfits.isItem_orphanage
  · exact h

/-- The next comment waits too. It stands below the last item. -/
theorem keep (h : d.Timely options lexemes count) (hbegun : d.builder.BegunBy lexemes count)
    {doc : DocComment} (hdoc : docAt? options lexemes count = some doc)
    (hleads : doc.trailing = false)
    (hline : ∀ item, d.lastItem = some item → doc.line ≠ item.line) :
    Timely options lexemes (count + 1)
      { d with pending := some (d.pending.elim ⟨doc.text, doc.lastLine⟩ (joinDocs · doc)) } := by
  obtain ⟨ledger, haccounts, htimely⟩ := h
  refine ⟨ledger.keep count, haccounts.keep hdoc hleads, ?_⟩
  constructor
  case turn =>
    rw [Ledger.order_keep]
    apply List.pairwise_append.mpr
    refine ⟨htimely.turn, List.pairwise_singleton _ _, ?_⟩
    intro x hx y hy
    rw [List.mem_singleton.mp hy]
    exact .inl (haccounts.lt_of_mem_order hx)
  case begun =>
    intro place hplace
    rcases List.mem_append.mp hplace with hbefore | hnew
    · exact htimely.begun place hbefore
    · rw [List.mem_singleton.mp hnew]
      exact hbegun
  case below =>
    intro item hitem place hplace l hl
    rcases List.mem_append.mp hplace with hbefore | hnew
    · exact htimely.below item hitem place hbefore l hl
    · rw [List.mem_singleton.mp hnew] at hl
      rw [docAt?_of_getElem? options hl] at hdoc
      have hhere := (DocComment.line_of_ofLexeme? hdoc).1
      have hne := hline item hitem
      have hle := htimely.follows item hitem count l (Nat.le_refl count) hl
      omega
  case follows => exact fun item hlast k l hk hl => htimely.follows item hlast k l (by omega) hl

section Comments

variable (h : d.Timely options lexemes count) (hlined : LinedUp lexemes)
  (hfits : d.builder.Fits) (hbegun : d.builder.BegunBy lexemes count)
include h hlined hfits hbegun

theorem hold {doc : DocComment} (hdoc : docAt? options lexemes count = some doc)
    (hleads : doc.trailing = false)
    (hline : ∀ item, d.lastItem = some item → doc.line ≠ item.line) :
    (d.hold doc).Timely options lexemes (count + 1) := by
  have hlast : (d.handFar doc.line).lastItem = d.lastItem := by
    unfold Draft.handFar
    split
    · exact d.lastItem_handTo _
    · rfl
  have hdocs : d.Documents (d.handFar doc.line) := by
    unfold Draft.handFar
    split
    · unfold Draft.handTo
      split
      · exact d.documents_addDoc _ _
      · exact .refl d
    · exact .refl d
  rw [hold_eq]
  apply (h.handFar hlined hfits doc.line).keep (hbegun.of_documents hdocs) hdoc hleads
  rw [hlast]
  exact hline

/-- What does not wait is marked: on the line of the last item nothing waits. -/
theorem takeUp {doc : DocComment} (hdoc : docAt? options lexemes count = some doc) :
    (d.takeUp doc).Timely options lexemes (count + 1) := by
  unfold Draft.takeUp
  split
  · next item hitem =>
    split
    · next htrails =>
      obtain ⟨hids, hthere⟩ := h.lastItem hitem
      have hregular : Delivery.Regular options lexemes ⟨[count], .item, item.ids⟩ :=
        ⟨hids, count, rfl⟩
      apply h.give hdoc hregular hthere hlined
      by_cases htrailing : doc.trailing = true
      · exact .inr htrailing
      · -- The comment is on the line of the item, and what waits is below it.
        have hline : doc.line = item.line := by simpa [htrailing] using htrails
        obtain ⟨ledger, haccounts, htimely⟩ := h
        have hwaiting : ledger.waiting = [] := by
          apply List.eq_nil_iff_forall_not_mem.mpr
          intro place hplace
          have hlt := haccounts.lt_of_mem_order (List.mem_append_right _ hplace)
          obtain ⟨l, hl, hread⟩ := Option.bind_eq_some_iff.mp hdoc
          have hhere := (DocComment.line_of_ofLexeme? hread).1
          obtain ⟨other, hother, _⟩ := haccounts.leads place hplace
          obtain ⟨m, hm, _⟩ := Option.bind_eq_some_iff.mp hother
          have hbelow := htimely.below item hitem place hplace m hm
          have hle := (hlined.beforeAll_start hm count l (Nat.le_of_lt hlt) hl).line_le
          omega
        have hpending := haccounts.pending
        rw [hwaiting] at hpending
        exact .inl hpending
    · next htrails =>
      simp only [Bool.or_eq_true, not_or, Bool.not_eq_true, beq_iff_eq] at htrails
      apply h.hold hlined hfits hbegun hdoc htrails.1
      intro other hother
      rw [hitem] at hother
      rw [← Option.some.inj hother]
      simpa using htrails.2
  · next hnone =>
    split
    · next htrailing =>
      -- There is no item before the comment.
      have hregular : Delivery.Regular options lexemes ⟨[count], .dropped, []⟩ :=
        ⟨rfl, count, doc, rfl, hdoc, htrailing⟩
      have hgiven := h.give hdoc hregular .nil hlined (.inr htrailing)
      exact hgiven.congr rfl rfl rfl fun _ hitem => hitem
    · next htrails =>
      apply h.hold hlined hfits hbegun hdoc (Bool.not_eq_true _ ▸ htrails)
      intro item hitem
      rw [hnone] at hitem
      cases hitem

theorem examine {l : Lexeme} (hl : lexemes[count]? = some l) :
    (d.examine l).Timely options lexemes (count + 1) := by
  have hdoc := docAt?_of_getElem? options hl
  unfold Draft.examine
  split
  · rw [h.reads]
    cases hread : DocComment.ofLexeme? options l with
    | none => exact h.skip (hdoc.trans hread)
    | some doc => exact h.takeUp hlined hfits hbegun (hdoc.trans hread)
  · next hcode =>
    have hnone := DocComment.ofLexeme?_of_not_isTrivia options hcode
    exact (h.dropPending hlined).forgetLast.skip (hdoc.trans hnone)

theorem examineTransparent {l : Lexeme} (hl : lexemes[count]? = some l) :
    (d.examineTransparent l).Timely options lexemes (count + 1) := by
  unfold Draft.examineTransparent
  split
  · exact h.examine hlined hfits hbegun hl
  · next hcode =>
    have hnone := DocComment.ofLexeme?_of_not_isTrivia options hcode
    exact h.skip ((docAt?_of_getElem? options hl).trans hnone)

end Comments

/-- Inside of an item nothing waits. -/
theorem examineInside (h : d.Timely options lexemes count) (hlined : LinedUp lexemes)
    (hpending : d.pending = none) {l : Lexeme} (hl : lexemes[count]? = some l) {ids : List EntryId}
    (hids : ids ≠ []) (hitem : d.builder.IsItem lexemes ids) :
    (Draft.examineInside ids d l).Timely options lexemes (count + 1) := by
  have hdoc := docAt?_of_getElem? options hl
  unfold Draft.examineInside
  rw [h.reads]
  split
  · next doc hread =>
    have hregular : Delivery.Regular options lexemes ⟨[count], .item, ids⟩ := ⟨hids, count, rfl⟩
    exact h.give (hdoc.trans hread) hregular hitem hlined (.inl hpending)
  · next hread => exact h.skip (hdoc.trans hread)

end Timely

end Draft

end PascalOutline
