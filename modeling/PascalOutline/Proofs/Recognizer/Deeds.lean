import PascalOutline.Proofs.Recognizer.Acts

/-! # The deeds of the recognizer

  What the recognizer does to its draft is told by the cursor, the tokens and
  the open entries alone: a deed is a change of drafts together with where it
  is done. So two readings of the same tokens that differ in what documents
  what do the same deeds, each one to its own draft (`State.Tracks`). A single
  reading is the case in which both are the same.

  A deed says which entries it makes, which part of the tokens they cover, and
  that the innermost open entry admits them. There is one lemma for each
  function of the recognizer, and what every deed keeps holds of every
  reachable state.
-/

namespace PascalOutline

/-! ### What holds what -/

/-- What an open entry makes of the declarations inside of it. -/
inductive Holder where
  /-- The module. -/
  | module
  /-- A class-like type. -/
  | container
  /-- A routine. -/
  | routine
  /-- The statements of an `initialization` or `finalization` section. -/
  | section_
  /-- An enumeration. -/
  | enumeration
deriving DecidableEq

namespace Holder

/-- The kinds of entries of which a holder can be made. -/
def Is : Holder → EntryKind → Prop
  | module, kind => kind.isModule = true ∨ kind = .other
  | container, kind => kind.isContainer = true
  | routine, kind => kind.isRoutine = true
  | section_, kind => kind = .section_
  | enumeration, kind => kind = .type_

/-- The kinds of entries that may stand in a holder. -/
def declares : Holder → EntryKind → Bool
  | module, kind => kind = .section_ || kind.isContainer || kind.isRoutine
      || kind = .const || kind = .var || kind = .type_
  | container, kind => kind.isContainer || kind.isRoutine
      || kind = .property || kind = .field || kind = .const || kind = .type_
  | routine, kind => kind.isContainer || kind.isRoutine
      || kind = .const || kind = .var || kind = .type_
  | section_, _ => false
  | enumeration, kind => kind = .enumValue

/-- A holder may hold an entry. -/
structure Admits (h : Holder) (p : Profile) : Prop where
  /-- It is of a kind that may stand there. -/
  kind : h.declares p.kind = true
  /-- Only members of a type have a visibility, and all of them have one. -/
  visibility : p.visibility.isSome = decide (h = .container)
  /-- A routine in a type is defined elsewhere. -/
  forward : h = .container → p.kind.isRoutine = true → p.forward = true
  /-- Only a routine has an owner. -/
  qualifier : p.qualifier.isSome = true → p.kind.isRoutine = true
  /-- It uses no units. -/
  uses : p.uses = []

end Holder

/-- What an entry makes of the declarations inside of it. -/
def Scope.holder : Scope → Holder
  | .module _ _ => .module
  | .container _ _ _ => .container
  | .routine _ _ => .routine
  | .statements => .section_

/-- The entry that a block holds open, and what it holds. -/
def Block.opened? : Block → Option (EntryId × Holder)
  | .entry id scope => some (id, scope.holder)
  | .statements _ => none

/-! ### Where a deed is done -/

/-- A place of the recognizer, as far as deeds are concerned. -/
structure Site where
  /-- The place in the source. -/
  cursor : Cursor
  /-- The open entries, innermost first, with what they hold. -/
  opened : List (EntryId × Holder)
  /-- The number of entries. -/
  count : Nat

/-- No enumeration is being read: only values are declared inside of one. -/
def Site.Still (p : Site) : Prop :=
  ∀ id rest, p.opened ≠ (id, .enumeration) :: rest

/-- A draft stands at a site: it has the entries that are open there. -/
structure Draft.StandsAt (d : Draft) (p : Site) : Prop where
  /-- The links of its entries fit together. -/
  arena : d.builder.Arena
  /-- These entries are open. -/
  stack : d.builder.stack = p.opened.map Prod.fst
  /-- There are so many entries. -/
  count : d.builder.nextId = p.count
  /-- The open entries are what they should be. -/
  opened : ∀ x ∈ p.opened, ∃ q, d.builder.profile? x.1 = some q ∧ x.2.Is q.kind ∧ q.forward = false

/-- An entry covers tokens between two cursors. -/
def Entry.Between (c d : Cursor) (e : Entry) : Prop :=
  ∃ c₁ c₂, c.Reaches c₁ ∧ c₁.Passes c₂ ∧ c₂.Reaches d ∧ e.start = c₁.location ∧
    e.stop = c₂.prevStop

/-! ### Changes of drafts -/

namespace Draft

/-- Makes complete entries that lie between two cursors, with the documentation
    before the first one. -/
def declare (d : Draft) (c c' : Cursor) (entries : List Entry) : Draft :=
  let led := d.takeLeading c
  let documented := entries.map fun e => { e with doc := led.1 }
  let made := { led.2 with builder := documented.foldl Builder.addLeaf led.2.builder }
  made.itemDone c' (List.range' led.2.builder.nextId entries.length)

/-- Makes an entry whose beginning lies between two cursors, with the
    documentation before the first one, and leaves it open. -/
def enter (d : Draft) (c c' : Cursor) (e : Entry) : Draft :=
  let led := d.takeLeading c
  let made := { led.2 with builder := led.2.builder.push { e with doc := led.1 } }
  made.itemDone c' [led.2.builder.nextId]

/-- Adds texts to an entry and ends the innermost open one before a cursor. -/
def conclude (d : Draft) (c : Cursor) (id : EntryId) (f : Entry → Entry) : Draft :=
  let closed := { d with builder := (d.builder.modify id f).pop c.prevStop }
  closed.itemDone c [id]

/-- Adds units to those that an entry uses. -/
def use (d : Draft) (id : EntryId) (units : List String) : Draft :=
  { d with builder := d.builder.modify id fun e => { e with uses := e.uses ++ units } }

/-- Ends the innermost open entry. -/
def abandon (d : Draft) (stop : Location) : Draft :=
  { d with builder := d.builder.pop stop }

end Draft

/-! ### Deeds -/

/-- One thing that is done to a draft, from one site to another. -/
inductive Deed : Site → (Draft → Draft) → Site → Prop where
  /-- The cursor moves on. -/
  | move {p : Site} {c : Cursor} (hreaches : p.cursor.Reaches c) :
      Deed p id { p with cursor := c }
  /-- An event is noted. -/
  | log {p : Site} (e : Event) : Deed p (·.log e) p
  /-- Everything before the cursor is examined. -/
  | sync {p : Site} (hstill : p.Still) : Deed p (·.sync p.cursor) p
  /-- The tokens before the cursor do not part documentation from what
      follows. -/
  | skip {p : Site} (hstill : p.Still) : Deed p (·.skipTransparent p.cursor) p
  /-- Documentation is taken for what begins at the cursor, and lost since no
      entry is made. -/
  | lead {p : Site} {c : Cursor} (hstill : p.Still) (hpasses : p.cursor.Passes c) :
      Deed p (fun d => (d.takeLeading p.cursor).2) { p with cursor := c }
  /-- The module uses units. -/
  | use {p : Site} {id : EntryId} (hopened : p.opened = [(id, .module)]) (units : List String) :
      Deed p (·.use id units) p
  /-- What lies before a later cursor becomes entries. -/
  | declare {p : Site} {c : Cursor} {entries : List Entry} {id : EntryId} {holder : Holder}
      {rest : List (EntryId × Holder)} (hopened : p.opened = (id, holder) :: rest)
      (hreaches : p.cursor.Reaches c) (hmade : ∀ e ∈ entries, e.MadeAt p.cursor)
      (htogether : Entry.MadeTogether p.cursor entries)
      (hbetween : ∀ e ∈ entries, e.Between p.cursor c)
      (hadmits : ∀ e ∈ entries, holder.Admits e.profile)
      (hone : holder = .enumeration → ∃ e, entries = [e] ∧ e.stop = c.prevStop) :
      Deed p (·.declare p.cursor c entries)
        { p with cursor := c, count := p.count + entries.length }
  /-- What lies before a later cursor begins an entry. -/
  | enter {p : Site} {c : Cursor} {e : Entry} {id : EntryId} {outer : Holder}
      {rest : List (EntryId × Holder)} (holder : Holder)
      (hopened : p.opened = (id, outer) :: rest) (hstill : p.Still)
      (hpasses : p.cursor.Passes c) (hmade : e.MadeAt p.cursor)
      (hstart : e.start = p.cursor.location)
      (hadmits : outer.Admits e.profile) (hkind : holder.Is e.kind) (hforward : e.forward = false) :
      Deed p (·.enter p.cursor c e)
        { cursor := c, opened := (p.count, holder) :: p.opened, count := p.count + 1 }
  /-- An enumeration is complete. -/
  | conclude {p : Site} {c : Cursor} {id : EntryId} {below : EntryId × Holder}
      {rest : List (EntryId × Holder)} {f : Entry → Entry}
      (hopened : p.opened = (id, .enumeration) :: below :: rest) (hreaches : p.cursor.Reaches c)
      (hkeeps : ∀ e : Entry, e.kind = .type_ → e.Keeps (f e))
      (hprofile : ∀ e, (f e).profile = e.profile) (hlinks : ∀ e, (f e).links = e.links)
      (hends : ∀ e, (f e).ends = e.ends) (hdoc : ∀ e, (f e).doc = e.doc)
      (hid : ∀ e, (f e).id = e.id) :
      Deed p (·.conclude c id f) { p with cursor := c, opened := below :: rest }
  /-- An entry ends at a later cursor; what stands before the cursor was
      examined. -/
  | shut {p : Site} {c : Cursor} {id : EntryId} {holder : Holder} {below : EntryId × Holder}
      {rest : List (EntryId × Holder)} {f : Entry → Entry}
      (hopened : p.opened = (id, holder) :: below :: rest) (hstill : p.Still)
      (hreaches : p.cursor.Reaches c) (hkeeps : ∀ e : Entry, e.Keeps (f e))
      (hprofile : ∀ e, (f e).profile = e.profile) (hlinks : ∀ e, (f e).links = e.links)
      (hends : ∀ e, (f e).ends = e.ends) (hdoc : ∀ e, (f e).doc = e.doc)
      (hid : ∀ e, (f e).id = e.id) :
      Deed p (fun d => (d.sync p.cursor).conclude c id f)
        { p with cursor := c, opened := below :: rest }
  /-- The innermost open entry ends before the cursor. -/
  | abandon {p : Site} {top below : EntryId × Holder} {rest : List (EntryId × Holder)}
      (hopened : p.opened = top :: below :: rest) (hstill : p.Still) :
      Deed p (·.abandon p.cursor.prevStop) { p with opened := below :: rest }

/-! ### What a deed leaves -/

namespace Draft.StandsAt

variable {d d' : Draft} {p : Site}

theorem of_documents (h : d.StandsAt p) (hdocs : d.Documents d') : d'.StandsAt p := by
  have hframe := hdocs.sameFrame
  constructor
  case arena => exact h.arena.of_sameFrame hframe
  case stack => exact hframe.stack.trans h.stack
  case count => exact hframe.size.trans h.count
  case opened =>
    intro x hx
    rw [hdocs.profile?_eq]
    exact h.opened x hx

theorem move (h : d.StandsAt p) (c : Cursor) : d.StandsAt { p with cursor := c } :=
  ⟨h.arena, h.stack, h.count, h.opened⟩

theorem lt_count (h : d.StandsAt p) {x : EntryId × Holder} (hx : x ∈ p.opened) :
    x.1 < d.builder.entries.size := by
  obtain ⟨q, hq, _⟩ := h.opened x hx
  exact Builder.lt_size_of_profile? hq

/-- Only a type is an enumeration. -/
theorem kind_eq_type (h : d.StandsAt p) {id : EntryId} (hmem : (id, Holder.enumeration) ∈ p.opened)
    {e : Entry} (he : d.builder.entry? id = some e) : e.kind = .type_ := by
  obtain ⟨q, hq, hkind, _⟩ := h.opened _ hmem
  rw [Builder.profile?_of_entry he] at hq
  obtain rfl := Option.some.inj hq
  exact hkind

theorem addLeaf (h : d.StandsAt p) (e : Entry) :
    StandsAt { d with builder := d.builder.addLeaf e } { p with count := p.count + 1 } := by
  constructor
  case arena => exact h.arena.addLeaf e
  case stack =>
    show (d.builder.addLeaf e).stack = _
    rw [h.arena.addLeaf_eq]
    exact h.stack
  case count =>
    show (d.builder.addLeaf e).entries.size = p.count + 1
    rw [Builder.size_addLeaf]
    exact congrArg (· + 1) h.count
  case opened =>
    intro x hx
    have hne : x.1 ≠ d.builder.nextId := Nat.ne_of_lt (h.lt_count hx)
    show ∃ q, (d.builder.addLeaf e).profile? x.1 = some q ∧ _
    rw [h.arena.profile?_addLeaf, if_neg hne]
    exact h.opened x hx

theorem foldl_addLeaf (h : d.StandsAt p) (entries : List Entry) :
    StandsAt { d with builder := entries.foldl Builder.addLeaf d.builder }
      { p with count := p.count + entries.length } := by
  induction entries generalizing d p with
  | nil => exact h
  | cons e es ih =>
    have hrest := ih (h.addLeaf e)
    rw [List.length_cons, Nat.add_comm es.length, ← Nat.add_assoc]
    exact hrest

theorem push (h : d.StandsAt p) {e : Entry} {holder : Holder} (hkind : holder.Is e.kind)
    (hforward : e.forward = false) :
    StandsAt { d with builder := d.builder.push e }
      { p with opened := (p.count, holder) :: p.opened, count := p.count + 1 } := by
  constructor
  case arena => exact h.arena.push e
  case stack =>
    show d.builder.nextId :: d.builder.stack = _
    rw [h.stack, h.count]
    rfl
  case count =>
    show (d.builder.insert e).entries.size = p.count + 1
    rw [Builder.size_insert]
    exact congrArg (· + 1) h.count
  case opened =>
    intro x hx
    show ∃ q, (d.builder.push e).profile? x.1 = some q ∧ _
    rw [Builder.profile?_push]
    rcases List.mem_cons.mp hx with rfl | hx
    · rw [if_pos h.count.symm]
      exact ⟨_, rfl, hkind, hforward⟩
    · have hne : x.1 ≠ d.builder.nextId := Nat.ne_of_lt (h.lt_count hx)
      rw [if_neg hne]
      exact h.opened x hx

theorem modify (h : d.StandsAt p) (id : EntryId) {f : Entry → Entry}
    (hlinks : ∀ e, (f e).links = e.links) (hends : ∀ e, (f e).ends = e.ends)
    {g : Profile → Profile} (hprofile : ∀ e, (f e).profile = g e.profile)
    (hsame : ∀ q, (g q).kind = q.kind ∧ (g q).forward = q.forward) :
    StandsAt { d with builder := d.builder.modify id f } p := by
  have hframe := d.builder.sameFrame_modify id hlinks hends
  constructor
  case arena => exact h.arena.of_sameFrame hframe
  case stack => exact hframe.stack.trans h.stack
  case count => exact hframe.size.trans h.count
  case opened =>
    intro x hx
    obtain ⟨q, hq, hkind, hforward⟩ := h.opened x hx
    show ∃ q, (d.builder.modify id f).profile? x.1 = some q ∧ _
    rw [d.builder.profile?_modify id x.1 f g hprofile, hq]
    by_cases hid : x.1 = id
    · rw [if_pos hid]
      refine ⟨g q, rfl, ?_, ?_⟩
      · rw [(hsame q).1]
        exact hkind
      · rw [(hsame q).2]
        exact hforward
    · rw [if_neg hid]
      exact ⟨q, rfl, hkind, hforward⟩

theorem pop (h : d.StandsAt p) {top below : EntryId × Holder} {rest : List (EntryId × Holder)}
    (hopened : p.opened = top :: below :: rest) (stop : Location) :
    StandsAt { d with builder := d.builder.pop stop } { p with opened := below :: rest } := by
  constructor
  case arena => exact h.arena.pop stop
  case stack =>
    have hstack : d.builder.stack = top.1 :: below.1 :: rest.map Prod.fst := by
      rw [h.stack, hopened]
      rfl
    exact Builder.stack_pop hstack (List.cons_ne_nil _ _) stop
  case count =>
    show (d.builder.pop stop).entries.size = p.count
    rw [Builder.size_entries_pop]
    exact h.count
  case opened =>
    intro x hx
    have hmem : x ∈ p.opened := by
      rw [hopened]
      exact List.mem_cons_of_mem _ hx
    show ∃ q, (d.builder.pop stop).profile? x.1 = some q ∧ _
    rw [Builder.profile?_pop]
    exact h.opened x hmem

theorem conclude (h : d.StandsAt p) {id : EntryId} {top below : EntryId × Holder}
    {rest : List (EntryId × Holder)} (hopened : p.opened = top :: below :: rest) (c : Cursor)
    {f : Entry → Entry} (hprofile : ∀ e, (f e).profile = e.profile)
    (hlinks : ∀ e, (f e).links = e.links) (hends : ∀ e, (f e).ends = e.ends) :
    (d.conclude c id f).StandsAt { p with cursor := c, opened := below :: rest } := by
  have hmodify := h.modify id (g := fun q => q) hlinks hends hprofile fun q => ⟨rfl, rfl⟩
  exact ((hmodify.pop hopened c.prevStop).of_documents (documents_itemDone _ c [id])).move c

end Draft.StandsAt

/-- After a deed the draft stands where it ends. -/
theorem Deed.standsAt {p q : Site} {g : Draft → Draft} (h : Deed p g q) {d : Draft}
    (hd : d.StandsAt p) : (g d).StandsAt q := by
  cases h with
  | move _ => exact hd.move _
  | log e => exact hd.of_documents (.refl d)
  | sync _ => exact hd.of_documents (d.documents_sync _)
  | skip _ => exact hd.of_documents (d.documents_skipTransparent _)
  | lead _ _ => exact (hd.of_documents (d.documents_takeLeading _)).move _
  | use _ units =>
    exact hd.modify _ (g := fun q => { q with uses := q.uses ++ units }) (fun _ => rfl)
      (fun _ => rfl) (fun _ => rfl) fun _ => ⟨rfl, rfl⟩
  | @declare c entries _ _ _ _ _ _ _ _ _ _ =>
    have hled := hd.of_documents (d.documents_takeLeading p.cursor)
    have hmade := hled.foldl_addLeaf
      (entries.map fun e => { e with doc := (d.takeLeading p.cursor).1 })
    rw [List.length_map] at hmade
    exact (hmade.of_documents (Draft.documents_itemDone _ c _)).move c
  | @enter c e _ _ _ holder _ _ _ _ _ _ hkind hforward =>
    have hled := hd.of_documents (d.documents_takeLeading p.cursor)
    have hmade := hled.push (e := { e with doc := (d.takeLeading p.cursor).1 }) hkind hforward
    exact (hmade.of_documents (Draft.documents_itemDone _ c _)).move c
  | conclude hopened _ _ hprofile hlinks hends _ _ =>
    exact hd.conclude hopened _ hprofile hlinks hends
  | shut hopened _ _ _ hprofile hlinks hends _ _ =>
    exact (hd.of_documents (d.documents_sync _)).conclude hopened _ hprofile hlinks hends
  | abandon hopened _ => exact hd.pop hopened _

/-! ### Deeds are acts -/

section Acts

variable {d : Draft} {c c' : Cursor}

theorem Entry.MadeAt.withDoc {e : Entry} (h : e.MadeAt c) (doc : String) :
    Entry.MadeAt c { e with doc } := by
  cases h with
  | header header hread hentry hstart =>
    exact .header header hread
      (hentry.trans ⟨rfl, rfl, rfl, rfl, rfl, rfl, List.prefix_refl _⟩) hstart
  | plain hkind => exact .plain hkind

theorem Entry.MadeTogether.withDoc {entries : List Entry} (h : MadeTogether c entries)
    (doc : String) : MadeTogether c (entries.map fun e => { e with doc }) := by
  constructor
  · rw [ne_eq, List.map_eq_nil_iff]
    exact h.nonempty
  · rw [List.length_map, List.map_map]
    exact h.together

theorem acts_conclude {id : EntryId} {f : Entry → Entry} (hreaches : c.Reaches c')
    (hkeeps : ∀ e, d.builder.entry? id = some e → e.Keeps (f e)) (hdoc : ∀ e, (f e).doc = e.doc)
    (hid : id < d.builder.entries.size) : Acts (c, d) (c', d.conclude c' id f) := by
  refine .tail (.tail (.tail (.single (.move hreaches)) (.amend id hkeeps hdoc)) .pop) (.item ?_)
  rw [Builder.size_entries_pop]
  exact Nat.lt_of_lt_of_eq hid Array.size_modify.symm

theorem Deed.acts {p q : Site} {g : Draft → Draft} (h : Deed p g q) (hd : d.StandsAt p) :
    Acts (p.cursor, d) (q.cursor, g d) := by
  cases h with
  | move hreaches => exact .single (.move hreaches)
  | log e => exact .single (.log e)
  | sync _ => exact .single .sync
  | skip _ => exact .single .skip
  | lead _ hpasses => exact .tail (.single .lead) (.move hpasses.reaches)
  | use _ units =>
    refine .single (.amend _ ?_ fun _ => rfl)
    intro e _
    exact ⟨rfl, rfl, rfl, rfl, fun _ => ⟨rfl, rfl⟩, List.prefix_refl _, rfl⟩
  | @declare c entries _ _ _ _ hreaches hmade htogether _ _ _ =>
    have hmade' : ∀ e ∈ entries.map fun e => { e with doc := (d.takeLeading p.cursor).1 },
        e.MadeAt p.cursor := by
      intro e he
      obtain ⟨e', he', rfl⟩ := List.mem_map.mp he
      exact (hmade e' he').withDoc _
    have hact := Act.declare (d := d) rfl hreaches hmade' (htogether.withDoc _) fun e he => by
      obtain ⟨e', _, rfl⟩ := List.mem_map.mp he
      rfl
    rw [List.length_map] at hact
    exact .single hact
  | enter holder _ _ hpasses hmade _ _ _ _ =>
    exact .single (.enter rfl hpasses.reaches (hmade.withDoc _))
  | @conclude c id _ _ _ hopened hreaches hkeeps _ _ _ hdoc _ =>
    have hmem : (id, Holder.enumeration) ∈ p.opened := by
      rw [hopened]
      exact List.mem_cons_self
    exact acts_conclude hreaches (fun e he => hkeeps e (hd.kind_eq_type hmem he)) hdoc
      (hd.lt_count hmem)
  | @shut c id holder _ _ _ hopened _ hreaches hkeeps _ _ _ hdoc _ =>
    have hmem : (id, holder) ∈ p.opened := by
      rw [hopened]
      exact List.mem_cons_self
    have hsynced := hd.of_documents (d.documents_sync p.cursor)
    exact .trans (.single .sync)
      (acts_conclude hreaches (fun e _ => hkeeps e) hdoc (hsynced.lt_count hmem))
  | abandon _ _ => exact .single .pop

end Acts

/-! ### Two drafts -/

/-- Two drafts at one site. -/
structure Config where
  /-- The site. -/
  site : Site
  /-- One draft. -/
  first : Draft
  /-- Another one. -/
  second : Draft

namespace Config

/-- Both drafts stand at the site. -/
structure Stands (x : Config) : Prop where
  first : x.first.StandsAt x.site
  second : x.second.StandsAt x.site

/-- The same deed is done to both drafts. -/
inductive Step : Config → Config → Prop where
  | deed {p q : Site} {g : Draft → Draft} (h : Deed p g q) (d d' : Draft) :
      Step ⟨p, d, d'⟩ ⟨q, g d, g d'⟩

/-- The same deeds are done to both drafts. -/
abbrev Steps : Config → Config → Prop :=
  Relation.ReflTransGen Step

theorem Step.stands {x y : Config} (h : x.Step y) (hx : x.Stands) : y.Stands := by
  obtain ⟨hdeed, d, d'⟩ := h
  exact ⟨hdeed.standsAt hx.first, hdeed.standsAt hx.second⟩

theorem Steps.stands {x y : Config} (h : x.Steps y) (hx : x.Stands) : y.Stands := by
  induction h with
  | refl => exact hx
  | tail _ hstep ih => exact hstep.stands ih

theorem Steps.acts {x y : Config} (h : x.Steps y) (hx : x.Stands) :
    Acts (x.site.cursor, x.first) (y.site.cursor, y.first) := by
  induction h with
  | refl => exact .refl
  | tail hsteps hstep ih =>
    have hstands := Steps.stands hsteps hx
    obtain ⟨hdeed, d, d'⟩ := hstep
    exact ih.trans (hdeed.acts hstands.first)

end Config

end PascalOutline
