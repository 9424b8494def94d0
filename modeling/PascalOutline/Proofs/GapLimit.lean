import PascalOutline.Proofs.Documentation.Heading

/-! # A gap limit moves documentation

  Two scans of one source that differ in the gap limit do the same deeds, so
  their drafts can be compared deed by deed. Under a limit some documentation
  goes to other entries than without one. It gets lost only where no entry
  stands before it, and that is before a module header.
-/

namespace PascalOutline

/-! ### Deeds -/

namespace Draft

/-- A declaration may make no entry at all. -/
theorem Makes.nothing (lexemes : List Lexeme) (d : Draft) : d.Makes lexemes d.builder [] :=
  ⟨.refl _, .nil, List.forall_mem_nil _, by simp⟩

namespace Abreast

variable {options : Options} {limit : Nat} {lexemes : List Lexeme} {lost : Nat → Prop}
variable {d d' : Draft} {p : Site}

theorem log (h : Abreast options limit lexemes lost d d') (e : Event) :
    Abreast options limit lexemes lost (d.log e) (d'.log e) :=
  h.of_sameQueue ⟨rfl, rfl⟩ ⟨rfl, rfl⟩
    (h.keepsUp.congr ⟨rfl, rfl, rfl⟩ ⟨rfl, rfl, rfl⟩ (.inl rfl) h.keepsUp.lastItem)

theorem make (h : Abreast options limit lexemes lost d d') {b b' : Builder} {ids : List EntryId}
    (hmakes : d.Makes lexemes b ids) (hmakes' : d'.Makes lexemes b' ids) :
    Abreast options limit lexemes lost { d with builder := b, pending := none }
      { d' with builder := b', pending := none } :=
  h.of_sameQueue ⟨rfl, rfl⟩ ⟨rfl, rfl⟩ (h.keepsUp.make hmakes hmakes')

/-- A text of an entry is added. -/
theorem amend (h : Abreast options limit lexemes lost d d') (id : EntryId) {f : Entry → Entry}
    (hkeeps : ∀ e, d.builder.entry? id = some e → e.Keeps (f e))
    (hkeeps' : ∀ e, d'.builder.entry? id = some e → e.Keeps (f e))
    (hdoc : ∀ e, (f e).doc = e.doc) :
    Abreast options limit lexemes lost { d with builder := d.builder.modify id f }
      { d' with builder := d'.builder.modify id f } := by
  have hgrows : d.builder.Grows (fun _ => False) (d.builder.modify id f) := .modify _ id hkeeps
  have hgrows' : d'.builder.Grows (fun _ => False) (d'.builder.modify id f) := .modify _ id hkeeps'
  exact h.of_sameQueue ⟨rfl, rfl⟩ ⟨rfl, rfl⟩ (h.keepsUp.grow hgrows hgrows'
    (fun i => d.builder.docOf_modify id i hdoc) fun i => d'.builder.docOf_modify id i hdoc)

/-- The innermost open entry ends. -/
theorem pop (h : Abreast options limit lexemes lost d d') (stop : Location) :
    Abreast options limit lexemes lost { d with builder := d.builder.pop stop }
      { d' with builder := d'.builder.pop stop } := by
  have hgrows (u : Draft) : u.builder.Grows (fun _ => False) (u.builder.pop stop) := .pop _ _
  exact h.of_sameQueue ⟨rfl, rfl⟩ ⟨rfl, rfl⟩ (h.keepsUp.grow (hgrows d) (hgrows d')
    (fun i => d.builder.docOf_pop stop i) fun i => d'.builder.docOf_pop stop i)

theorem conclude (h : Abreast options limit lexemes lost d d') (c : Cursor) {id : EntryId}
    {f : Entry → Entry} (hid : id < d.builder.entries.size) (hid' : id < d'.builder.entries.size)
    (hkeeps : ∀ e, d.builder.entry? id = some e → e.Keeps (f e))
    (hkeeps' : ∀ e, d'.builder.entry? id = some e → e.Keeps (f e))
    (hdoc : ∀ e, (f e).doc = e.doc) :
    Abreast options limit lexemes lost (d.conclude c id f) (d'.conclude c id f) := by
  have hsize (u : Draft) :
      ((u.builder.modify id f).pop c.prevStop).entries.size = u.builder.entries.size :=
    (Builder.size_entries_pop _ _).trans Array.size_modify
  refine ((h.amend id hkeeps hkeeps' hdoc).pop c.prevStop).itemDone c (List.cons_ne_nil _ _)
    (.single ?_) (.single ?_)
  · exact Nat.lt_of_lt_of_eq hid (hsize d).symm
  · exact Nat.lt_of_lt_of_eq hid' (hsize d').symm

/-- Documentation is taken, and no entry is made. -/
theorem lead (h : Abreast options limit lexemes lost d d') (harena : d'.builder.Arena)
    (c : Cursor) :
    Abreast options limit lexemes lost (d.takeLeading c).2 (d'.takeLeading c).2 := by
  rw [takeLeading_eq, takeLeading_eq]
  exact (h.ready harena c).make (.nothing lexemes _) (.nothing lexemes _)

theorem declare (h : Abreast options limit lexemes lost d d') (hd : d.StandsAt p)
    (hd' : d'.StandsAt p) (hreaches : (Cursor.ofLexemes lexemes).Reaches p.cursor)
    {entries : List Entry} (htogether : Entry.MadeTogether p.cursor entries) (c : Cursor) :
    Abreast options limit lexemes lost (d.declare p.cursor c entries)
      (d'.declare p.cursor c entries) := by
  have hmakes := hd.ready.makes_declare hreaches htogether
  have hmakes' := hd'.ready.makes_declare hreaches htogether
  rw [declare_eq, declare_eq, hd.ready.count, hd'.ready.count]
  exact ((h.ready hd'.arena p.cursor).make hmakes hmakes').itemDone c
    (htogether.range'_ne_nil _) hmakes.item hmakes'.item

theorem enter (h : Abreast options limit lexemes lost d d') (hd : d.StandsAt p)
    (hd' : d'.StandsAt p) (c : Cursor) (e : Entry) :
    Abreast options limit lexemes lost (d.enter p.cursor c e) (d'.enter p.cursor c e) := by
  have hmakes := hd.ready.makes_enter lexemes e
  have hmakes' := hd'.ready.makes_enter lexemes e
  rw [enter_eq, enter_eq, hd.ready.count, hd'.ready.count]
  exact ((h.ready hd'.arena p.cursor).make hmakes hmakes').itemDone c (List.cons_ne_nil _ _)
    hmakes.item hmakes'.item

end Abreast

end Draft

section Deeds

variable {options : Options} {limit : Nat} {lexemes : List Lexeme} {lost : Nat → Prop}

/-- The step lemma: after the same deed the second draft still keeps up. -/
theorem Deed.abreast {p q : Site} {g : Draft → Draft} (h : Deed p g q) {d d' : Draft}
    (hreaches : (Cursor.ofLexemes lexemes).Reaches p.cursor) (hd : d.StandsAt p)
    (hd' : d'.StandsAt p) (hx : Draft.Abreast options limit lexemes lost d d') :
    Draft.Abreast options limit lexemes lost (g d) (g d') := by
  cases h with
  | move _ => exact hx
  | log e => exact hx.log e
  | sync _ => exact hx.sync hd'.arena _
  | skip _ => exact hx.skipTransparent hd'.arena _
  | lead _ _ => exact hx.lead hd'.arena _
  | use _ units =>
    have hkeeps (e : Entry) : e.Keeps { e with uses := e.uses ++ units } :=
      ⟨rfl, rfl, rfl, rfl, fun _ => ⟨rfl, rfl⟩, List.prefix_refl _, rfl⟩
    exact hx.amend _ (fun e _ => hkeeps e) (fun e _ => hkeeps e) fun _ => rfl
  | @declare c _ _ _ _ _ _ _ htogether _ _ _ => exact hx.declare hd hd' hreaches htogether c
  | @enter c e _ _ _ _ _ _ _ _ _ _ _ _ => exact hx.enter hd hd' c e
  | @conclude c id _ _ _ hopened _ hkeeps _ _ _ hdoc _ =>
    have hmem : (id, Holder.enumeration) ∈ p.opened := by
      rw [hopened]
      exact List.mem_cons_self
    exact hx.conclude c (hd.lt_count hmem) (hd'.lt_count hmem)
      (fun e he => hkeeps e (hd.kind_eq_type hmem he))
      (fun e he => hkeeps e (hd'.kind_eq_type hmem he)) hdoc
  | @shut c id holder _ _ _ hopened _ _ hkeeps _ _ _ hdoc _ =>
    have hmem : (id, holder) ∈ p.opened := by
      rw [hopened]
      exact List.mem_cons_self
    have hsynced {u : Draft} (hu : u.StandsAt p) : (u.sync p.cursor).StandsAt p :=
      hu.of_documents (u.documents_sync p.cursor)
    exact (hx.sync hd'.arena _).conclude c ((hsynced hd).lt_count hmem)
      ((hsynced hd').lt_count hmem) (fun e _ => hkeeps e) (fun e _ => hkeeps e) hdoc
  | abandon _ _ => exact hx.pop _

/-- The run lemma. -/
theorem Config.Steps.abreast {x y : Config} (h : x.Steps y)
    (hreaches : (Cursor.ofLexemes lexemes).Reaches x.site.cursor) (hx : x.Stands)
    (habreast : Draft.Abreast options limit lexemes lost x.first x.second) :
    Draft.Abreast options limit lexemes lost y.first y.second := by
  induction h with
  | refl => exact habreast
  | tail hsteps hstep ih =>
    have hstands := Steps.stands hsteps hx
    have hthere := hreaches.trans (Acts.grows (Steps.acts hsteps hx)).2
    obtain ⟨hdeed, d, d'⟩ := hstep
    exact hdeed.abreast hthere hstands.first hstands.second ih

end Deeds

/-! ### The root -/

namespace State

section Root

variable (options : Options) (limit : Nat) (file : String) (lexemes : List Lexeme)

/-- Documentation before a module header waits for it, except for what a gap
    parts from it. -/
theorem abreast_ready (hheader : (moduleKind? (Cursor.ofLexemes lexemes)).isSome = true) :
    Draft.Abreast options limit lexemes (PartedFromHeader options lexemes limit)
      ((initial options.unlimited file lexemes).draft.ready (Cursor.ofLexemes lexemes))
      ((initial (options.within limit) file lexemes).draft.ready (Cursor.ofLexemes lexemes)) := by
  let c := Cursor.ofLexemes lexemes
  let d := (initial options.unlimited file lexemes).draft
  let d' := (initial (options.within limit) file lexemes).draft
  have hinitial : d.BookedAt options.unlimited lexemes {} c :=
    bookedAt_initial options.unlimited file lexemes
  have hexamined : (d.ready c).examined = c.lexemeIndex := hinitial.examined_ready
  obtain ⟨t, hpeek⟩ := exists_peek?_of_moduleKind? hheader
  obtain ⟨l, hl, hcode, hline⟩ :=
    (Cursor.passes_next (Cursor.ahead_of_nth? hpeek)).lexeme hinitial.reaches
  have hbooked := hinitial.booked.ready hl hcode hline hinitial.behind
  have hqueues : d.SameQueue d' := ⟨rfl, rfl⟩
  have hsynced : (d.sync c).SameQueue (d'.sync c) := hqueues.examineTo Draft.sameQueue_examine _
  obtain ⟨ledger, haccounts⟩ := hbooked.accounted.exists_accounts
  have hopening : d'.Opening options limit lexemes 0 := by
    refine ⟨⟨{}, accounts_initial (options.within limit) file lexemes, ?_⟩, rfl, rfl⟩
    exact ⟨fun _ hplace => absurd hplace (Nat.not_lt_zero _),
      fun _ hplace => absurd hplace (Nat.not_lt_zero _)⟩
  obtain ⟨ledger', haccounts', hspared⟩ := (hopening.sync rfl rfl).ready hheader
  refine ⟨hbooked.queue, hsynced.of_both (d.sameQueue_ready c) (d'.sameQueue_ready c),
    ⟨ledger, ledger', haccounts, ?_, ?_, ?_⟩, ?_⟩
  · show ledger'.Accounts (options.within limit) lexemes (d.ready c).examined (d'.ready c)
    rw [hexamined]
    exact haccounts'
  · -- There is no entry to which anything could have been attached.
    rintro place ⟨delivery, hdelivery, _, hids⟩
    obtain ⟨id, hid⟩ := List.exists_mem_of_ne_nil _ hids
    have hlt : id < (d.ready c).builder.entries.size :=
      (haccounts.items delivery hdelivery).lt_size id hid
    rw [(d.documents_ready c).sameFrame.size] at hlt
    exact absurd hlt (Nat.not_lt_zero id)
  · intro place hplace
    have hlt := lt_of_mem_docPlaces _ _ (haccounts.once.subset (List.mem_append_right _ hplace))
    have hlt : place < c.lexemeIndex := Nat.lt_of_lt_of_eq hlt hexamined
    exact (hspared place hlt (haccounts.leads place hplace)).imp_right .inr
  · exact (d'.lastItem_ready c).trans (d.lastItem_ready c).symm

/-- The two readings begin with a root. -/
theorem abreast_root :
    Draft.Abreast options limit lexemes (PartedFromHeader options lexemes limit)
      (root options.unlimited file lexemes).draft
      (root (options.within limit) file lexemes).draft := by
  by_cases hheader : (moduleKind? (Cursor.ofLexemes lexemes)).isSome = true
  · obtain ⟨e, hdoc, hdraft⟩ := exists_draft_root options.unlimited file lexemes hheader
    obtain ⟨e', hdoc', hdraft'⟩ := exists_draft_root (options.within limit) file lexemes hheader
    have hfirst (options : Options) : ((initial options file lexemes).draft.ready
        (Cursor.ofLexemes lexemes)).builder.nextId = 0 :=
      (Draft.documents_ready _ _).sameFrame.size
    have hmakes : Draft.Makes lexemes _ _ _ := .push _ hdoc
    have hmakes' : Draft.Makes lexemes _ _ _ := .push _ hdoc'
    rw [hfirst] at hmakes hmakes'
    rw [hdraft, hdraft', cursor_root_eq options.unlimited (options.within limit)]
    exact ((abreast_ready options limit file lexemes hheader).make hmakes hmakes').itemDone _
      (List.cons_ne_nil _ _) hmakes.item hmakes'.item
  · have hnone : moduleKind? (Cursor.ofLexemes lexemes) = none :=
      Option.not_isSome_iff_eq_none.mp hheader
    obtain ⟨e, _, _, hdoc, _, hdraft⟩ :=
      exists_root_of_no_header options.unlimited file lexemes hnone
    obtain ⟨e', _, _, hdoc', _, hdraft'⟩ :=
      exists_root_of_no_header (options.within limit) file lexemes hnone
    rw [hdraft, hdraft']
    exact ⟨rfl, ⟨rfl, rfl⟩, ⟨{}, {}, (accounts_initial options.unlimited file lexemes).push hdoc,
      (accounts_initial (options.within limit) file lexemes).push hdoc', .empty _⟩, rfl⟩

/-! ### The end -/

/-- After the whole source the second reading keeps up with the first one. -/
theorem keepsUp_ofSource :
    Draft.KeepsUp options limit lexemes (PartedFromHeader options lexemes limit) lexemes.length
      (ofSource options.unlimited file lexemes).draft
      (ofSource (options.within limit) file lexemes).draft := by
  let s := (root options.unlimited file lexemes).run
  let s' := (root (options.within limit) file lexemes).run
  have htracks := tracks_run options.unlimited (options.within limit) file lexemes
  have hrun := htracks.steps.abreast Reachable.root.reaches
    (tracks_root options.unlimited (options.within limit) file lexemes).stands
    (abreast_root options limit file lexemes)
  have hstack : s'.draft.builder.stack = s.draft.builder.stack :=
    htracks.stands.second.stack.trans htracks.stands.first.stack.symm
  have hfinish := hrun.finish htracks.stands.second.arena hstack htracks.stands.first.arena s.cursor
  have hbooked := (reachable_run options.unlimited file lexemes).bookedAt
  have hend : (s.draft.finish s.cursor).examined = lexemes.length :=
    hbooked.examined_finish
  obtain ⟨events, hdraft⟩ := s.exists_draft_finish_eq
  obtain ⟨events', hdraft'⟩ := s'.exists_draft_finish_eq
  have hkeepsUp := hfinish.keepsUp
  rw [hend] at hkeepsUp
  show Draft.KeepsUp options limit lexemes _ lexemes.length s.finish.draft s'.finish.draft
  rw [hdraft, hdraft', htracks.twins.cursor]
  exact hkeepsUp.congr ⟨rfl, rfl, rfl⟩ ⟨rfl, rfl, rfl⟩ (.inl rfl) hkeepsUp.lastItem

theorem pending_ofSource : (ofSource options file lexemes).draft.pending = none := by
  obtain ⟨events, hdraft⟩ := ((root options file lexemes).run).exists_draft_finish_eq
  show ((root options file lexemes).run).finish.draft.pending = none
  rw [hdraft]
  exact Draft.pending_handTo _ _

end Root

end State

/-- A gap limit moves documentation. Every comment that documents an entry of a
    scan without a limit documents an entry of the scan with a limit too, and
    its text stands in the documentation of that entry. The only exception is a
    comment before a module header with a gap between them: no entry is there
    yet that could get it. -/
theorem attaches_within_limit (options : Options) (limit : Nat) (file source : String) :
    let lexemes := Lexer.lex options.nestedComments source
    ∃ free bound : Ledger, free.Explains options.unlimited file source ∧
      bound.Explains (options.within limit) file source ∧
      ∀ place doc, docAt? options lexemes place = some doc → free.Attaches place →
        ¬ PartedFromHeader options lexemes limit place →
        bound.Attaches place ∧
          ∃ id e, (scan (options.within limit) file source).outline.get? id = some e ∧
            IsPart doc.text e.doc := by
  intro lexemes
  obtain ⟨⟨free, bound, haccounts, haccounts', hspares⟩, _⟩ :=
    State.keepsUp_ofSource options limit file lexemes
  have hfree := haccounts.explains (State.pending_ofSource options.unlimited file lexemes)
  have hbound := haccounts'.explains (State.pending_ofSource (options.within limit) file lexemes)
  refine ⟨free, bound, hfree, hbound, ?_⟩
  intro place doc hdoc hattached hnear
  have hattached' : bound.Attaches place := (hspares.attached place hattached).resolve_right hnear
  exact ⟨hattached', hbound.exists_isPart hdoc hattached'⟩

/-- A comment above a variable documents it without a limit. Under a limit it
    documents the root, which stands before it. -/
theorem attaches_within_limit_variable :
    let source := "\x7bx\x7d\n\n\nvar a: integer;"
    let docs := fun options =>
      (scan options "u.pas" source).outline.entries.toList.map Entry.doc
    docs {} = ["", "x"] ∧ docs { docGap := some 0 } = ["x", ""] ∧
      ∃ free bound : Ledger, free.Explains {} "u.pas" source ∧
        bound.Explains { docGap := some 0 } "u.pas" source ∧ free.Attaches 0 ∧
        ¬ PartedFromHeader {} (Lexer.lex false source) 0 0 ∧ bound.Attaches 0 := by
  intro source docs
  refine ⟨by decide +kernel, by decide +kernel, ?_⟩
  obtain ⟨free, bound, hfree, hbound, hattaches⟩ := attaches_within_limit {} 0 "u.pas" source
  have hfree : free.Explains {} "u.pas" source := hfree
  have hdoc : ((scan {} "u.pas" source).outline.get? 1).map Entry.doc = some "x" := by
    decide +kernel
  have hattached : free.Attaches 0 :=
    hfree.attaches_of_only (by decide +kernel) hdoc (by decide)
  have hread : docAt? {} (Lexer.lex false source) 0 = some ⟨"x", false, ⟨1, 2⟩, 1, 1⟩ := by
    decide +kernel
  have hheader : State.moduleKind? (Cursor.ofLexemes (Lexer.lex false source)) = none := by
    decide +kernel
  have hnear : ¬ PartedFromHeader {} (Lexer.lex false source) 0 0 := by
    rintro ⟨hsome, _⟩
    rw [hheader] at hsome
    cases hsome
  exact ⟨free, bound, hfree, hbound, hattached, hnear, (hattaches 0 _ hread hattached hnear).1⟩

/-- A comment above a module header documents the module without a limit. Under
    a limit it documents nothing. -/
theorem not_attaches_before_header :
    let source := "\x7bx\x7d\n\n\nunit U;"
    let docs := fun options =>
      (scan options "x.pas" source).outline.entries.toList.map Entry.doc
    docs {} = ["x"] ∧ docs { docGap := some 0 } = [""] ∧
      (∀ free : Ledger, free.Explains {} "x.pas" source → free.Attaches 0) ∧
      ∀ bound : Ledger, bound.Explains { docGap := some 0 } "x.pas" source →
        ¬ bound.Attaches 0 := by
  intro source docs
  have hafter : docs { docGap := some 0 } = [""] := by decide +kernel
  refine ⟨by decide +kernel, hafter, ?_, ?_⟩
  · intro free hfree
    have hdoc : ((scan {} "x.pas" source).outline.get? 0).map Entry.doc = some "x" := by
      decide +kernel
    exact hfree.attaches_of_only (by decide +kernel) hdoc (by decide)
  · intro bound hbound hattached
    have hread : docAt? { docGap := some 0 } (Lexer.lex false source) 0
        = some ⟨"x", false, ⟨1, 2⟩, 1, 1⟩ := by
      decide +kernel
    obtain ⟨id, e, he, hpart⟩ := hbound.exists_isPart hread hattached
    have hmem : e.doc ∈ docs { docGap := some 0 } :=
      List.mem_map_of_mem (Array.mem_toList_iff.mpr (Array.mem_of_getElem? he))
    rw [hafter] at hmem
    rw [List.mem_singleton.mp hmem] at hpart
    exact absurd hpart.eq_empty (by decide)

end PascalOutline
