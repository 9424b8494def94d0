import PascalOutline.Proofs.Documentation.Claims
import PascalOutline.Proofs.Kinds

/-! # Every deed attends to trailing comments

  A comment may be examined much later than its item was made: whenever the
  next declaration, the end of a block or the end of the source is read. So
  every deed keeps the claim of the last item on what was not examined yet
  (`Draft.AttendsAt`). While the values of an enumeration are read, what trails
  the last one was not examined at all (`Draft.Awaits`): it goes to the
  enumeration as soon as this is complete.
-/

namespace PascalOutline

/-! ### Everything lies before the cursor -/

section Before

variable {source : String} {p : Site} {c : Cursor} {d : Draft}

theorem Entry.Between.spans {e : Entry} (h : e.Between p.cursor c)
    (hordered : p.cursor.Ordered source) :
    e.start.Precedes e.stop ∧ e.start.offset < e.stop.offset ∧ e.stop.Precedes c.prevStop := by
  obtain ⟨c₁, c₂, hbefore, hpasses, hafter, hstart, hstop⟩ := h
  have hfirst := hordered.of_reaches hbefore
  rw [hstart, hstop]
  obtain ⟨hspan, hlt⟩ := hfirst.location_precedes_prevStop hpasses
  exact ⟨hspan, hlt, (hfirst.of_reaches hpasses.reaches).prevStop_precedes hafter⟩

theorem Entry.Between.codeEnds {lexemes : List Lexeme} {e : Entry} (h : e.Between p.cursor c)
    (hp : (Cursor.ofLexemes lexemes).Reaches p.cursor) :
    ∃ n, p.cursor.lexemeIndex < n ∧ n ≤ c.indexAfterPrev ∧ CodeEnds lexemes e.stop n := by
  obtain ⟨c₁, c₂, hbefore, hpasses, hafter, _, hstop⟩ := h
  have hnumbered := (Cursor.numbered_ofLexemes lexemes).of_reaches hp
  have hfirst := hnumbered.of_reaches hbefore
  have hlast := hfirst.of_reaches hpasses.reaches
  have hlt := Nat.lt_of_le_of_lt (hnumbered.lexemeIndex_mono hbefore)
    (hfirst.lexemeIndex_lt_indexAfterPrev hpasses)
  have hends := ((hp.trans hbefore).trans hpasses.reaches).codeEnds_prevStop (Nat.zero_lt_of_lt hlt)
  rw [← hstop] at hends
  exact ⟨c₂.indexAfterPrev, hlt, hlast.indexAfterPrev_mono hafter, hends⟩

end Before

/-! ### What holds at a site -/

/-- While the values of an enumeration are read, what trails the last one was
    not examined. -/
structure Draft.Awaits (options : Options) (lexemes : List Lexeme) (c : Cursor) (t : EntryId)
    (d : Draft) : Prop where
  /-- Nothing behind the last token was examined. -/
  behind : d.examined ≤ c.indexAfterPrev
  /-- The last item is the last value, or the enumeration before its first one. -/
  item : ∃ item, d.lastItem = some item ∧ item.ids = [(d.builder.lastChild? t).getD t]
  /-- The last value is none of the types. -/
  value : ∀ v q, d.builder.lastChild? t = some v → d.builder.profile? v = some q → q.kind ≠ .type_
  /-- What trails the last value was not examined. -/
  spared : ∀ v stop place doc, d.builder.lastChild? t = some v → d.builder.ItemEnds v stop →
    Trails options lexemes stop place doc → d.examined ≤ place

/-- A value that ends where the cursor stands is the last item. -/
theorem Draft.awaits_itemDone {options : Options} {lexemes : List Lexeme} {c : Cursor} {t : EntryId}
    {made : Draft} {b : Builder} {e : Entry} (harena : b.Arena) (horder : InOrder lexemes)
    (hspan : e.start.Precedes e.stop) (htop : b.top? = some t) (hkind : e.kind = .enumValue)
    (hstop : e.stop = c.prevStop) (hends : CodeEnds lexemes c.prevStop c.indexAfterPrev)
    (hmade : made.builder = b.addLeaf e)
    (hdone : (made.itemDone c [b.nextId]).examined = c.indexAfterPrev) :
    (made.itemDone c [b.nextId]).Awaits options lexemes c t := by
  have hdocs : (b.addLeaf e).Documents (made.itemDone c [b.nextId]).builder := by
    rw [← hmade]
    exact made.documents_itemDone c [b.nextId]
  have hlast : (made.itemDone c [b.nextId]).builder.lastChild? t = some b.nextId := by
    rw [Builder.lastChild?_eq_links?, hdocs.sameFrame.links, ← Builder.lastChild?_eq_links?]
    exact Builder.lastChild?_addLeaf harena htop
  constructor
  case behind => exact Nat.le_of_eq hdone
  case item =>
    refine ⟨⟨[b.nextId], c.prevStop.line⟩, rfl, ?_⟩
    rw [hlast]
    rfl
  case value =>
    intro v q hv hq
    obtain rfl := Option.some.inj (hlast.symm.trans hv)
    rw [hdocs.profile?_eq, harena.profile?_addLeaf, if_pos rfl] at hq
    obtain rfl := Option.some.inj hq
    show e.kind ≠ .type_
    rw [hkind]
    decide
  case spared =>
    intro v stop place doc hv hitem htrails
    obtain rfl := Option.some.inj (hlast.symm.trans hv)
    have hitems := Builder.sameItems_of_closed (Builder.closed?_of_documents hdocs)
    rw [hdone]
    rcases Builder.itemEnds_addLeaf harena hspan ((hitems.ends _ _).mp hitem) with hold | ⟨_, rfl⟩
    · exact absurd hold.lt_size (Nat.lt_irrefl _)
    · rw [hstop] at htrails
      exact (htrails.after_code horder hends).1

/-- What trails an item went to its recipient, or it will go there. -/
structure Draft.AttendsAt (options : Options) (lexemes : List Lexeme) (p : Site) (d : Draft) :
    Prop where
  /-- The draft has the entries that are open at the site. -/
  stands : d.StandsAt p
  /-- What was examined is accounted for. -/
  booked : d.BookedAt options lexemes {} p.cursor
  /-- All entries lie before the cursor. -/
  before : d.builder.LiesBefore p.cursor.prevStop
  /-- Comments that were examined are where they belong, the others are claimed. -/
  attends : d.Attends options lexemes d.examined
  /-- Only the innermost open entry may be an enumeration. -/
  inner : ∀ x ∈ p.opened.tail, x.2 ≠ .enumeration
  /-- The enumeration that is being read waits for its last value. -/
  awaits : ∀ t rest, p.opened = (t, .enumeration) :: rest → d.Awaits options lexemes p.cursor t

theorem Holder.Is.not_isItem {holder : Holder} {kind : EntryKind} (h : holder.Is kind)
    (hne : holder ≠ .enumeration) : kind.isItem = false := by
  cases holder <;> cases kind <;>
    simp_all [Is, EntryKind.isItem, EntryKind.isModule, EntryKind.isContainer, EntryKind.isRoutine]

namespace Draft.AttendsAt

variable {options : Options} {lexemes : List Lexeme} {source : String} {p q : Site} {d : Draft}

theorem rest (h : d.AttendsAt options lexemes p) : d.unexamined = lexemes.drop d.examined :=
  h.booked.booked.queue

/-- At a site with no enumeration at the top, nothing waits. -/
theorem awaits_of_still (hstill : p.Still) :
    ∀ t rest, p.opened = (t, .enumeration) :: rest → d.Awaits options lexemes p.cursor t :=
  fun t rest hopened => absurd hopened (hstill t rest)

/-- After an entry was closed, no enumeration is being read. -/
theorem still_below (h : d.AttendsAt options lexemes p) {top below : EntryId × Holder}
    {rest : List (EntryId × Holder)} (hopened : p.opened = top :: below :: rest) :
    (∀ x ∈ rest, x.2 ≠ .enumeration) ∧ ∀ t others, below :: rest ≠ (t, .enumeration) :: others := by
  have hinner := h.inner
  rw [hopened] at hinner
  refine ⟨fun x hx => hinner x (List.mem_cons_of_mem _ hx), fun t others heq => ?_⟩
  obtain ⟨rfl, _⟩ := List.cons.inj heq
  exact hinner (t, .enumeration) List.mem_cons_self rfl

/-! ### One deed -/

section Deed

variable {c : Cursor} {g : Draft → Draft} (h : d.AttendsAt options lexemes p)
include h

/-- What is special about a deed is what it does to items and comments. -/
theorem of_deed (hdeed : Deed p g q) (hbefore : (g d).builder.LiesBefore q.cursor.prevStop)
    (hattends : (g d).Attends options lexemes (g d).examined)
    (hinner : ∀ x ∈ q.opened.tail, x.2 ≠ .enumeration)
    (hawaits : ∀ t rest, q.opened = (t, .enumeration) :: rest →
      (g d).Awaits options lexemes q.cursor t) : (g d).AttendsAt options lexemes q :=
  ⟨hdeed.standsAt h.stands, hdeed.booked h.stands h.booked, hbefore, hattends, hinner, hawaits⟩

/-- A deed that stays where it is and at most adds documentation. -/
theorem of_documents (hdeed : Deed p g p) (hstill : p.Still) (hdocs : d.Documents (g d))
    (hattends : (g d).Attends options lexemes (g d).examined) : (g d).AttendsAt options lexemes p :=
  h.of_deed hdeed (h.before.of_sameFrame hdocs.sameFrame) hattends h.inner (awaits_of_still hstill)

/-- No open entry is an item, but an enumeration. -/
theorem not_isItem_opened {x : EntryId × Holder} (hx : x ∈ p.opened) (hne : x.2 ≠ .enumeration) :
    ∀ q, d.builder.profile? x.1 = some q → ¬ q.IsItem := by
  intro q hq hitem
  obtain ⟨q', hq', hkind, hforward⟩ := h.stands.opened x hx
  obtain rfl := Option.some.inj (hq.symm.trans hq')
  rcases hitem with hannounced | hplain
  · rw [hforward] at hannounced
    cases hannounced
  · rw [hkind.not_isItem hne] at hplain
    cases hplain

theorem ne_enumeration_of_still (hstill : p.Still) {x : EntryId × Holder} (hx : x ∈ p.opened) :
    x.2 ≠ .enumeration := by
  obtain ⟨top, rest, hopened⟩ := List.exists_cons_of_ne_nil (List.ne_nil_of_mem hx)
  have hinner := h.inner
  rw [hopened] at hx hinner
  rcases List.mem_cons.mp hx with rfl | hx
  · obtain ⟨id, holder⟩ := x
    rintro rfl
    exact hstill id rest hopened
  · exact hinner x hx

/-- At a site with no enumeration at the top, every item is closed. -/
theorem not_open_of_isItem (hstill : p.Still) {i : EntryId} {q : Profile}
    (hq : d.builder.profile? i = some q) (hitem : q.IsItem) : i ∉ d.builder.stack := by
  intro hopen
  rw [h.stands.stack] at hopen
  obtain ⟨x, hx, rfl⟩ := List.mem_map.mp hopen
  exact h.not_isItem_opened hx (h.ne_enumeration_of_still hstill hx) q hq hitem

/-- The innermost open entry is closed where the cursor stands. -/
theorem sameItems_pop {id : EntryId} {holder : Holder} {below : EntryId × Holder}
    {rest : List (EntryId × Holder)} (hopened : p.opened = (id, holder) :: below :: rest)
    (hstill : p.Still) {b : Builder} {place : Location} (hframe : d.builder.SameFrame b)
    (hprofile : ∀ i, b.profile? i = d.builder.profile? i) (hbefore : b.LiesBefore place) :
    b.SameItems (b.pop place) ∧ (b.pop place).LiesBefore place := by
  have hstack : b.stack = id :: below.1 :: rest.map Prod.fst := by
    rw [hframe.stack, h.stands.stack, hopened]
    rfl
  have harena := h.stands.arena.of_sameFrame hframe
  refine ⟨Builder.sameItems_pop harena hbefore hstack (List.cons_ne_nil _ _) ?_,
    hbefore.pop harena hstack (List.cons_ne_nil _ _)⟩
  have htop : (id, holder) ∈ p.opened := by
    rw [hopened]
    exact List.mem_cons_self
  intro q hq
  rw [hprofile] at hq
  exact h.not_isItem_opened htop (h.ne_enumeration_of_still hstill htop) q hq

theorem abandon {top below : EntryId × Holder} {rest : List (EntryId × Holder)}
    (hopened : p.opened = top :: below :: rest) (hstill : p.Still) :
    (d.abandon p.cursor.prevStop).AttendsAt options lexemes { p with opened := below :: rest } := by
  obtain ⟨hitems, hbefore⟩ := h.sameItems_pop hopened hstill (.refl _) (fun _ => rfl) h.before
  have hbelow := h.still_below hopened
  refine h.of_deed (.abandon hopened hstill) hbefore ⟨h.attends.reads, h.attends.past.congr hitems,
    h.attends.attended.congr hitems ?_⟩ hbelow.1 fun t others heq => absurd heq (hbelow.2 t others)
  exact Builder.keepsPieces_of_docOf_eq (d.builder.docOf_pop _)

variable (horder : InOrder lexemes)
include horder

theorem settled_lead :
    (d.takeLeading p.cursor).2.Settled options lexemes ∧
      (d.takeLeading p.cursor).2.examined = p.cursor.lexemeIndex ∧
      (d.takeLeading p.cursor).2.unexamined = lexemes.drop (d.takeLeading p.cursor).2.examined :=
  h.attends.takeLeading horder h.rest h.booked.reaches h.booked.behind

theorem settled_sync : (d.sync p.cursor).Settled options lexemes :=
  (h.attends.sync horder h.rest h.booked.reaches h.booked.behind).1

end Deed

section Source

variable (h : d.AttendsAt options lexemes p) (hordered : (Cursor.ofLexemes lexemes).Ordered source)
include h hordered

theorem ordered : p.cursor.Ordered source :=
  hordered.of_reaches h.booked.reaches

theorem move {c : Cursor} (hreaches : p.cursor.Reaches c) :
    d.AttendsAt options lexemes { p with cursor := c } := by
  have hprev := (h.ordered hordered).prevStop_precedes hreaches
  refine h.of_deed (g := id) (.move hreaches) (h.before.mono hprev) h.attends h.inner ?_
  intro t rest hopened
  have hawaits := h.awaits t rest hopened
  exact { hawaits with
    behind := Nat.le_trans hawaits.behind (h.booked.numbered.indexAfterPrev_mono hreaches) }

variable (horder : InOrder lexemes)
include horder

theorem shut {c : Cursor} {id : EntryId} {holder : Holder} {below : EntryId × Holder}
    {rest : List (EntryId × Holder)} {f : Entry → Entry}
    (hopened : p.opened = (id, holder) :: below :: rest) (hstill : p.Still)
    (hreaches : p.cursor.Reaches c)
    (hdeed : Deed p (fun d => (d.sync p.cursor).conclude c id f)
      { p with cursor := c, opened := below :: rest })
    (hprofile : ∀ e, (f e).profile = e.profile) (hlinks : ∀ e, (f e).links = e.links)
    (hends : ∀ e, (f e).ends = e.ends) (hdoc : ∀ e, (f e).doc = e.doc) :
    ((d.sync p.cursor).conclude c id f).AttendsAt options lexemes
      { p with cursor := c, opened := below :: rest } := by
  let synced := d.sync p.cursor
  have hsettled : synced.Settled options lexemes := h.settled_sync horder
  have hsynced : d.Documents synced := d.documents_sync p.cursor
  have hrest : synced.unexamined = lexemes.drop synced.examined := h.booked.sync.booked.queue
  -- The texts of the entry are changed, and then it is closed.
  let edited := synced.builder.modify id f
  have hframe : d.builder.SameFrame edited :=
    Builder.SameFrame.trans hsynced.sameFrame (synced.builder.sameFrame_modify id hlinks hends)
  have hedited : ∀ i, edited.profile? i = d.builder.profile? i := fun i =>
    (synced.builder.profile?_modify_of_eq id i hprofile).trans (hsynced.profile?_eq i)
  have hitems : synced.builder.SameItems edited :=
    Builder.sameItems_of_closed (synced.builder.closed?_modify hlinks hends (.inr hprofile))
  have hprev := (h.ordered hordered).prevStop_precedes hreaches
  have hplace : edited.LiesBefore c.prevStop := (h.before.mono hprev).of_sameFrame hframe
  obtain ⟨hpopped, hbefore⟩ := h.sameItems_pop hopened hstill hframe hedited hplace
  have hclosed : Settled options lexemes { synced with builder := edited.pop c.prevStop } := by
    refine hsettled.congr rfl rfl (hitems.trans hpopped) ?_
    refine Builder.keepsPieces_of_docOf_eq fun i => ?_
    exact (edited.docOf_pop _ i).trans (synced.builder.docOf_modify id i hdoc)
  have hdone : (synced.conclude c id f).Settled options lexemes :=
    Settled.itemDone (d := { synced with builder := edited.pop c.prevStop }) hrest c [id] hclosed
  have hbelow := h.still_below hopened
  refine h.of_deed hdeed ?_ hdone.attends hbelow.1 fun t others heq =>
    absurd heq (hbelow.2 t others)
  exact hbefore.of_sameFrame
    (Draft.sameFrame_itemDone { synced with builder := edited.pop c.prevStop } c [id])

theorem enter {c : Cursor} {e : Entry} (holder : Holder) (hstill : p.Still)
    (hpasses : p.cursor.Passes c) (hstart : e.start = p.cursor.location)
    (hdeed : Deed p (·.enter p.cursor c e)
      { cursor := c, opened := (p.count, holder) :: p.opened, count := p.count + 1 }) :
    (d.enter p.cursor c e).AttendsAt options lexemes
      { cursor := c, opened := (p.count, holder) :: p.opened, count := p.count + 1 } := by
  have hsource := h.ordered hordered
  obtain ⟨hsettled, hexamined, hrest⟩ := h.settled_lead horder
  have hdocs := d.documents_takeLeading p.cursor
  let led := (d.takeLeading p.cursor).2
  let documented : Entry := { e with doc := (d.takeLeading p.cursor).1 }
  let made : Draft := { led with builder := led.builder.push documented }
  have hled := h.stands.of_documents hdocs
  have hqueue : made.unexamined = lexemes.drop made.examined := hrest
  have hmade : made.Settled options lexemes := by
    refine hsettled.congr rfl rfl ?_ (led.builder.keepsPieces_push documented)
    exact Builder.sameItems_of_closed (Builder.closed?_push hled.arena documented)
  have hdone := Settled.itemDone hqueue c [led.builder.nextId] hmade
  have hbefore : made.builder.LiesBefore c.prevStop := by
    obtain ⟨hspan, hlt⟩ := hsource.location_precedes_prevStop hpasses
    rw [← hstart] at hspan hlt
    refine Builder.LiesBefore.push ?_ hspan hlt
    exact (h.before.mono (hsource.prevStop_precedes hpasses.reaches)).of_sameFrame hdocs.sameFrame
  refine h.of_deed hdeed ?_ hdone.attends ?_ ?_
  · exact hbefore.of_sameFrame (Draft.sameFrame_itemDone made c _)
  · intro x hx
    exact h.ne_enumeration_of_still hstill hx
  · intro t others heq
    obtain ⟨hid, -⟩ := List.cons.inj heq
    obtain rfl : p.count = t := congrArg Prod.fst hid
    have hnew : led.builder.nextId = p.count := hled.count
    have hnone : (made.itemDone c [led.builder.nextId]).builder.lastChild? p.count = none := by
      have hframe := Draft.sameFrame_itemDone made c [led.builder.nextId]
      rw [Builder.lastChild?_eq_links?, hframe.links, ← hnew]
      show ((led.builder.insert documented).links? led.builder.nextId).bind _ = none
      rw [Builder.links?_insert_nextId]
      rfl
    have hbehind : (made.itemDone c [led.builder.nextId]).examined ≤ c.indexAfterPrev := by
      have hdone := examined_itemDone hqueue c [led.builder.nextId]
      have hlt := h.booked.numbered.lexemeIndex_lt_indexAfterPrev hpasses
      have hmade : made.examined = p.cursor.lexemeIndex := hexamined
      omega
    refine ⟨hbehind, ⟨⟨[led.builder.nextId], c.prevStop.line⟩, rfl, ?_⟩, ?_, ?_⟩
    · show [led.builder.nextId]
        = [((made.itemDone c [led.builder.nextId]).builder.lastChild? p.count).getD p.count]
      rw [hnone, hnew]
      rfl
    · intro v q hv
      exact absurd (hnone.symm.trans hv) (by simp)
    · intro v stop place doc hv
      exact absurd (hnone.symm.trans hv) (by simp)

theorem declare {c : Cursor} {entries : List Entry} {id : EntryId} {holder : Holder}
    {rest : List (EntryId × Holder)} (hopened : p.opened = (id, holder) :: rest)
    (hreaches : p.cursor.Reaches c) (hne : entries ≠ [])
    (hbetween : ∀ e ∈ entries, e.Between p.cursor c)
    (hadmits : ∀ e ∈ entries, holder.Admits e.profile)
    (hone : holder = .enumeration → ∃ e, entries = [e] ∧ e.stop = c.prevStop)
    (hdeed : Deed p (·.declare p.cursor c entries)
      { p with cursor := c, count := p.count + entries.length }) :
    (d.declare p.cursor c entries).AttendsAt options lexemes
      { p with cursor := c, count := p.count + entries.length } := by
  have hsource := h.ordered hordered
  obtain ⟨hsettled, hexamined, hrest⟩ := h.settled_lead horder
  have hdocs := d.documents_takeLeading p.cursor
  let led := (d.takeLeading p.cursor).2
  let documented := entries.map fun e => { e with doc := (d.takeLeading p.cursor).1 }
  let made : Draft := { led with builder := documented.foldl Builder.addLeaf led.builder }
  let ids := List.range' led.builder.nextId entries.length
  have hled : led.StandsAt p := h.stands.of_documents hdocs
  have hcursor := h.booked.reaches.trans hreaches
  have hspan : ∀ e ∈ documented, e.start.Precedes e.stop ∧ e.start.offset < e.stop.offset ∧
      e.stop.Precedes c.prevStop := by
    intro e he
    obtain ⟨bare, hbare, rfl⟩ := List.mem_map.mp he
    exact (hbetween bare hbare).spans hsource
  have hprecedes : ∀ e ∈ documented, e.start.Precedes e.stop := fun e he => (hspan e he).1
  have hends : ∀ e ∈ documented, ∃ n, p.cursor.lexemeIndex < n ∧ n ≤ c.indexAfterPrev ∧
      CodeEnds lexemes e.stop n := by
    intro e he
    obtain ⟨bare, hbare, rfl⟩ := List.mem_map.mp he
    exact (hbetween bare hbare).codeEnds h.booked.reaches
  have hbehind : made.examined ≤ c.indexAfterPrev := by
    obtain ⟨e, es, rfl⟩ := List.exists_cons_of_ne_nil hne
    obtain ⟨n, hlt, hle, _⟩ := hends _ List.mem_cons_self
    have hmade : made.examined = p.cursor.lexemeIndex := hexamined
    omega
  have hpast : made.builder.Past lexemes c.indexAfterPrev := by
    refine hsettled.past.foldl_addLeaf hled.arena hbehind hprecedes ?_
    intro e he
    obtain ⟨n, _, hle, hcode⟩ := hends e he
    exact ⟨n, hle, hcode⟩
  have hattended : made.builder.Attended options lexemes made.examined fun o _ => o ∈ ids := by
    have hdoc : ∀ e ∈ documented, e.doc = (d.takeLeading p.cursor).1 := by
      intro e he
      obtain ⟨bare, _, rfl⟩ := List.mem_map.mp he
      rfl
    have hmade := hsettled.attended.foldl_addLeaf hled.arena horder hdoc hprecedes fun e he => by
      obtain ⟨n, hlt, _, hcode⟩ := hends e he
      rw [hexamined]
      exact ⟨n, Nat.le_of_lt hlt, hcode⟩
    have hlength : documented.length = entries.length := List.length_map _
    rw [hlength] at hmade
    exact hmade
  obtain ⟨hattends, hdone⟩ := attends_itemDone (d := made) hrest c ids hsettled.reads horder hcursor
    hbehind hpast hattended
  have hframe := Draft.sameFrame_itemDone made c ids
  have hbefore : made.builder.LiesBefore c.prevStop := by
    refine Builder.LiesBefore.foldl_addLeaf ?_ hled.arena hspan
    exact (h.before.mono (hsource.prevStop_precedes hreaches)).of_sameFrame hdocs.sameFrame
  refine h.of_deed hdeed (hbefore.of_sameFrame hframe) hattends h.inner ?_
  intro t others heq
  obtain ⟨hid, -⟩ := List.cons.inj (hopened.symm.trans heq)
  obtain ⟨rfl, rfl⟩ := Prod.mk.inj hid
  obtain ⟨e, rfl, hstop⟩ := hone rfl
  obtain ⟨n, hlt, hle, _⟩ := hends _ List.mem_cons_self
  have hkind : e.kind = .enumValue := by
    have hdeclares := (hadmits e List.mem_cons_self).kind
    exact (Holder.declares_enumValue_iff hdeclares).mpr rfl
  have hpassed : 0 < c.indexAfterPrev := by omega
  exact awaits_itemDone hled.arena horder (hprecedes _ List.mem_cons_self) (hled.top? hopened) hkind
    hstop (hcursor.codeEnds_prevStop hpassed) rfl hdone

theorem conclude {c : Cursor} {id : EntryId} {below : EntryId × Holder}
    {rest : List (EntryId × Holder)} {f : Entry → Entry}
    (hopened : p.opened = (id, .enumeration) :: below :: rest) (hreaches : p.cursor.Reaches c)
    (hdeed : Deed p (·.conclude c id f) { p with cursor := c, opened := below :: rest })
    (hprofile : ∀ e, (f e).profile = e.profile) (hlinks : ∀ e, (f e).links = e.links)
    (hends : ∀ e, (f e).ends = e.ends) (hdoc : ∀ e, (f e).doc = e.doc) :
    (d.conclude c id f).AttendsAt options lexemes
      { p with cursor := c, opened := below :: rest } := by
  have hawaits := h.awaits id _ hopened
  have hcursor := h.booked.reaches.trans hreaches
  let edited := d.builder.modify id f
  let closed : Draft := { d with builder := edited.pop c.prevStop }
  have hframe : d.builder.SameFrame edited := d.builder.sameFrame_modify id hlinks hends
  have hedited : ∀ i, edited.profile? i = d.builder.profile? i :=
    fun i => d.builder.profile?_modify_of_eq id i hprofile
  have hitems : d.builder.SameItems edited :=
    Builder.sameItems_of_closed (d.builder.closed?_modify hlinks hends (.inr hprofile))
  have hlast : edited.lastChild? id = d.builder.lastChild? id := by
    rw [Builder.lastChild?_eq_links?, hframe.links, ← Builder.lastChild?_eq_links?]
  have harena := h.stands.arena.of_sameFrame hframe
  have hstack : edited.stack = id :: below.1 :: rest.map Prod.fst := by
    rw [hframe.stack, h.stands.stack, hopened]
    rfl
  have hrest : below.1 :: rest.map Prod.fst ≠ [] := List.cons_ne_nil _ _
  have hbefore : edited.LiesBefore c.prevStop :=
    (h.before.mono ((h.ordered hordered).prevStop_precedes hreaches)).of_sameFrame hframe
  have hkind : ∃ q, edited.profile? id = some q ∧ q.kind = .type_ := by
    obtain ⟨q, hq, hkind, _⟩ :=
      h.stands.opened (id, .enumeration) (by rw [hopened]; exact List.mem_cons_self)
    exact ⟨q, (hedited id).trans hq, hkind⟩
  have hexamined : d.examined ≤ c.indexAfterPrev :=
    Nat.le_trans hawaits.behind (h.booked.numbered.indexAfterPrev_mono hreaches)
  have hcode : CodeEnds lexemes c.prevStop c.indexAfterPrev := by
    -- The enumeration begins before the end of the last token.
    have hopen : id ∈ edited.stack := by
      rw [hstack]
      exact List.mem_cons_self
    obtain ⟨e, he⟩ := Builder.exists_entry? (harena.stack_lt id hopen)
    have hid : id ≠ 0 := by
      have hsorted := harena.stack_sorted
      rw [hstack] at hsorted
      have hlt := (List.pairwise_cons.mp hsorted).1 _ List.mem_cons_self
      exact Nat.ne_of_gt (Nat.zero_lt_of_lt hlt)
    have hbegun := (hbefore.begun id e.ends (by rw [Builder.ends?, he]; rfl) hid).2
    exact hcursor.codeEnds_prevStop (Cursor.indexAfterPrev_pos (Nat.zero_lt_of_lt hbegun))
  have hattended : closed.builder.Attended options lexemes closed.examined fun o _ => o ∈ [id] := by
    refine (h.attends.attended.congr hitems ?_).conclude harena horder hbefore hstack hrest hkind
      hcode hexamined ?_ ?_ ?_
    · exact Builder.keepsPieces_of_docOf_eq fun i => d.builder.docOf_modify id i hdoc
    · intro o line hclaim
      obtain ⟨item, hitem, ho, _⟩ := hclaim
      obtain ⟨item', hitem', hids⟩ := hawaits.item
      obtain rfl := Option.some.inj (hitem.symm.trans hitem')
      rw [hids] at ho
      rw [hlast]
      exact List.mem_singleton.mp ho
    · intro v q hv hq
      exact hawaits.value v q (hlast ▸ hv) ((hedited v).symm.trans hq)
    · intro v stop comment doc hv hitem htrails
      exact hawaits.spared v stop comment doc (hlast ▸ hv) ((hitems.ends v stop).mp hitem) htrails
  have hpast : closed.builder.Past lexemes c.indexAfterPrev :=
    (h.attends.past.congr hitems).conclude harena hexamined hbefore hstack hrest hcode
  obtain ⟨hattends, _⟩ := attends_itemDone (d := closed) h.rest c [id] h.attends.reads horder
    hcursor hexamined hpast hattended
  have hbelow := h.still_below hopened
  refine h.of_deed hdeed ?_ hattends hbelow.1 fun t others heq => absurd heq (hbelow.2 t others)
  exact (hbefore.pop harena hstack hrest).of_sameFrame (Draft.sameFrame_itemDone closed c [id])

end Source

end Draft.AttendsAt

section Steps

variable {options : Options} {lexemes : List Lexeme} {source : String} {p q : Site} {d : Draft}

/-- What no deed breaks. -/
theorem Deed.attends {g : Draft → Draft} (hdeed : Deed p g q) (horder : InOrder lexemes)
    (hordered : (Cursor.ofLexemes lexemes).Ordered source) (h : d.AttendsAt options lexemes p) :
    (g d).AttendsAt options lexemes q := by
  have hdone := hdeed
  cases hdeed with
  | move hreaches => exact h.move hordered hreaches
  | log e =>
    refine h.of_deed hdone h.before ⟨h.attends.reads, h.attends.past, h.attends.attended⟩ h.inner ?_
    intro t rest hopened
    have hawaits := h.awaits t rest hopened
    exact ⟨hawaits.behind, hawaits.item, hawaits.value, hawaits.spared⟩
  | sync hstill =>
    exact h.of_documents hdone hstill (d.documents_sync _) (h.settled_sync horder).attends
  | skip hstill =>
    refine h.of_documents hdone hstill (d.documents_skipTransparent _) ?_
    exact h.attends.examineTo Draft.sameQueue_examineTransparent
      (fun _ _ _ hl hd => hd.examineTransparent horder hl) h.rest _
  | lead hstill hpasses =>
    have hprev := (h.ordered hordered).prevStop_precedes hpasses.reaches
    have hbefore := (h.before.mono hprev).of_sameFrame (d.documents_takeLeading p.cursor).sameFrame
    exact h.of_deed hdone hbefore (h.settled_lead horder).1.attends h.inner
      (Draft.AttendsAt.awaits_of_still hstill)
  | @use id hopened units =>
    have hitems : d.builder.SameItems (d.use id units).builder := by
      have hopen : id ∈ d.builder.stack := by
        rw [h.stands.stack, hopened]
        exact List.mem_cons_self
      exact Builder.sameItems_of_closed
        (d.builder.closed?_modify (fun _ => rfl) (fun _ => rfl) (.inl hopen))
    refine h.of_deed hdone ?_ ⟨h.attends.reads, h.attends.past.congr hitems,
      h.attends.attended.congr hitems ?_⟩ h.inner ?_
    · exact h.before.of_sameFrame (d.builder.sameFrame_modify id (fun _ => rfl) fun _ => rfl)
    · exact Builder.keepsPieces_of_docOf_eq fun i => d.builder.docOf_modify id i fun _ => rfl
    · intro t rest heq
      rw [hopened] at heq
      cases heq
  | declare hopened hreaches _ htogether hbetween hadmits hone =>
    exact h.declare hordered horder hopened hreaches htogether.nonempty hbetween hadmits hone hdone
  | enter holder _ hstill hpasses _ hstart _ _ _ =>
    exact h.enter hordered horder holder hstill hpasses hstart hdone
  | conclude hopened hreaches _ hprofile hlinks hends hdoc _ =>
    exact h.conclude hordered horder hopened hreaches hdone hprofile hlinks hends hdoc
  | shut hopened hstill hreaches _ hprofile hlinks hends hdoc _ =>
    exact h.shut hordered horder hopened hstill hreaches hdone hprofile hlinks hends hdoc
  | abandon hopened hstill => exact h.abandon hopened hstill

theorem Config.Steps.attends {x y : Config} (h : x.Steps y) (horder : InOrder lexemes)
    (hordered : (Cursor.ofLexemes lexemes).Ordered source)
    (hx : x.first.AttendsAt options lexemes x.site) : y.first.AttendsAt options lexemes y.site := by
  induction h with
  | refl => exact hx
  | tail _ hstep ih =>
    obtain ⟨hdeed, d, d'⟩ := hstep
    exact hdeed.attends horder hordered ih

end Steps

end PascalOutline
