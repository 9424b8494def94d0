import PascalOutline.Proofs.Documentation.Order
import PascalOutline.Proofs.GapLimit

/-! # The order of documentation

  The documentation of an entry is strung together from the texts of comments,
  and these come in source order, up to one exception: a comment that is marked
  as trailing is added to the last item at once, while unmarked comments before
  it still wait. If these go to the same entry later, they come after it.

  A deed makes entries that begin behind everything that was examined, so at
  every site the comments that were examined are in turn (`Draft.OnTime`).
-/

namespace PascalOutline

/-! ### Where entries begin -/

/-- The first entry of a builder is the root. -/
theorem Builder.extends_push_of_empty {b : Builder} (hempty : b.entries.size = 0) (e : Entry)
    (lexemes : List Lexeme) (first last : Nat) : b.Extends lexemes first last (b.push e) := by
  intro i x hx hi
  have hlt := lt_size_of_entry_eq hx
  have hsize : (b.push e).entries.size = 1 := by
    show (b.insert e).entries.size = 1
    rw [size_insert, hempty]
  rw [hsize] at hlt
  exact absurd (Nat.lt_one_iff.mp hlt) hi

/-! ### Drafts -/

namespace Draft

theorem pending_dropPending (d : Draft) : d.dropPending.pending = none := by
  unfold dropPending
  split
  · rfl
  · next hnone => exact hnone

theorem pending_examineInside (ids : List EntryId) (d : Draft) (l : Lexeme) :
    (examineInside ids d l).pending = d.pending := by
  unfold examineInside
  split <;> rfl

/-- What was examined is in turn, and all entries begin before the rest. -/
structure OnTime (options : Options) (lexemes : List Lexeme) (d : Draft) : Prop where
  /-- The queue is the rest of all lexemes. -/
  queue : d.unexamined = lexemes.drop d.examined
  /-- The comments before it are in turn. -/
  timely : d.Timely options lexemes d.examined
  /-- Entries begin before it. -/
  begun : d.builder.BegunBy lexemes d.examined

variable {options : Options} {lexemes : List Lexeme} {d d' : Draft} {c : Cursor}

/-- Inside of an item nothing waits. Then the item comes last. -/
theorem Timely.itemDone (h : d.Timely options lexemes d.examined)
    (hqueue : d.unexamined = lexemes.drop d.examined) (hlined : LinedUp lexemes)
    (hreaches : (Cursor.ofLexemes lexemes).Reaches c) {ids : List EntryId} (hids : ids ≠ [])
    (hitem : d.builder.IsItem lexemes ids) :
    (d.itemDone c ids).Timely options lexemes (d.itemDone c ids).examined := by
  have hsame := d.sameQueue_dropPending
  have hrest := hsame.rest hqueue
  have hdropped : d.dropPending.Timely options lexemes d.dropPending.examined := by
    rw [hsame.examined]
    exact h.dropPending hlined
  have hthere : ∀ u : Draft, d.dropPending.Documents u → u.builder.IsItem lexemes ids :=
    fun u hu => hitem.of_documents (d.documents_dropPending.trans hu)
  obtain ⟨hdocs, hpending, hinside⟩ := examineTo_induct (motive := fun n u =>
      d.dropPending.Documents u ∧ u.pending = none ∧ u.Timely options lexemes n)
    (sameQueue_examineInside ids) hrest
    (by
      rintro n u l hl ⟨hu, hnone, htimely⟩
      refine ⟨hu.trans (documents_examineInside ids u l), ?_, ?_⟩
      · rw [pending_examineInside]
        exact hnone
      · exact htimely.examineInside hlined hnone hl hids (hthere u hu))
    (by
      intro unexamined examined
      exact ⟨.refl _, d.pending_dropPending, hdropped.congr rfl rfl rfl fun _ hlast => hlast⟩)
    c.indexAfterPrev
  -- The item ends before what is left.
  have hnumbered := (Cursor.numbered_ofLexemes lexemes).of_reaches hreaches
  have hle := Nat.le_trans hnumbered.indexAfterPrev_le hnumbered.lexemeIndex_le
  have hexamined := examined_examineTo (sameQueue_examineInside ids) hrest c.indexAfterPrev
  have hends : c.prevStop.BeforeAll lexemes
      (d.dropPending.examineTo (Draft.examineInside ids) c.indexAfterPrev).examined := by
    apply (hlined.beforeAll_prevStop hreaches).mono
    omega
  exact hinside.setLast hpending hids (hthere _ hdocs) hends

namespace OnTime

/-- What happens between examinations. -/
theorem of_sameQueue (h : d.OnTime options lexemes) (hqueue : d.SameQueue d')
    (htimely : d'.Timely options lexemes d.examined)
    (hbegun : d'.builder.BegunBy lexemes d.examined) : d'.OnTime options lexemes := by
  constructor
  · exact hqueue.rest h.queue
  · rw [hqueue.examined]
    exact htimely
  · rw [hqueue.examined]
    exact hbegun

theorem log (h : d.OnTime options lexemes) (e : Event) : (d.log e).OnTime options lexemes :=
  h.of_sameQueue ⟨rfl, rfl⟩ (h.timely.congr rfl rfl rfl fun _ hlast => hlast) h.begun

section Fits

variable (h : d.OnTime options lexemes) (hlined : LinedUp lexemes) (hfits : d.builder.Fits)
include h hlined hfits

omit hlined in
theorem examineTo {examine : Draft → Lexeme → Draft} (hqueue : ∀ d l, SameQueue d (examine d l))
    (hdocs : ∀ d l, Documents d (examine d l))
    (hexamine : ∀ n u l, lexemes[n]? = some l → u.builder.Fits → u.builder.BegunBy lexemes n →
      u.Timely options lexemes n → (examine u l).Timely options lexemes (n + 1)) (place : Nat) :
    (d.examineTo examine place).OnTime options lexemes := by
  -- The drafts on the way differ from the first one in documentation at most.
  obtain ⟨_, hbegun, htimely⟩ := examineTo_induct (motive := fun n u =>
      d.Documents u ∧ u.builder.BegunBy lexemes n ∧ u.Timely options lexemes n) hqueue h.queue
    (by
      rintro n u l hl ⟨hu, hbegun, htimely⟩
      refine ⟨hu.trans (hdocs u l), ?_, ?_⟩
      · exact (hbegun.of_documents (hdocs u l)).mono (Nat.le_succ n)
      · exact hexamine n u l hl (hfits.of_sameFrame hu.sameFrame) hbegun htimely)
    (by
      intro unexamined examined
      exact ⟨.refl d, h.begun, h.timely.congr rfl rfl rfl fun _ hlast => hlast⟩)
    place
  exact ⟨unexamined_examineTo hqueue h.queue place, htimely, hbegun⟩

theorem examineAll (place : Nat) : (d.examineTo examine place).OnTime options lexemes :=
  h.examineTo hfits sameQueue_examine documents_examine
    (fun _ _ _ hl hfits hbegun htimely => htimely.examine hlined hfits hbegun hl) place

theorem sync (c : Cursor) : (d.sync c).OnTime options lexemes :=
  h.examineAll hlined hfits _

theorem skipTransparent (c : Cursor) : (d.skipTransparent c).OnTime options lexemes :=
  h.examineTo hfits sameQueue_examineTransparent documents_examineTransparent
    (fun _ _ _ hl hfits hbegun htimely => htimely.examineTransparent hlined hfits hbegun hl) _

theorem ready (c : Cursor) : (d.ready c).OnTime options lexemes := by
  have hsynced := h.sync hlined hfits c
  have hframe := hfits.of_sameFrame (d.sameFrame_sync c)
  have hforgot : Timely options lexemes (d.sync c).examined { d.sync c with lastItem := none } :=
    hsynced.timely.forgetLast
  apply hsynced.of_sameQueue (d.sameQueue_ready c) (hforgot.handFar hlined hframe _)
  have hbegun : d.builder.BegunBy lexemes (d.sync c).examined := by
    apply h.begun.mono
    rw [examined_sync h.queue]
    omega
  exact hbegun.of_documents (d.documents_ready c)

end Fits

section Lined

variable (h : d.OnTime options lexemes) (hlined : LinedUp lexemes)
include h hlined

/-- What still waits at the end of the source documents the innermost open
    entry. -/
theorem finish (harena : d.builder.Arena) (c : Cursor) : (d.finish c).OnTime options lexemes := by
  have hlast := h.examineAll hlined (.inl harena) c.lexemeCount
  have hframe := harena.of_sameFrame
    (documents_examineTo documents_examine d c.lexemeCount).sameFrame
  obtain ⟨top, htop, hmem, _⟩ := hframe.exists_top
  rw [finish_eq, htop]
  apply hlast.of_sameQueue (sameQueue_handTo _ _)
    (hlast.timely.handTo hlined (.single (hframe.stack_lt top hmem)))
  apply hlast.begun.of_documents
  unfold handTo
  split
  · exact documents_addDoc _ _ _
  · exact .refl

/-- A text of an entry is added, or an entry ends. -/
theorem grow {b : Builder} (hgrows : d.builder.Grows (fun _ => False) b)
    (hdocs : ∀ i, b.docOf i = d.builder.docOf i) :
    OnTime options lexemes { d with builder := b } :=
  h.of_sameQueue ⟨rfl, rfl⟩ (h.timely.grow hlined hgrows hdocs) (h.begun.of_grows hgrows)

theorem pop (stop : Location) :
    OnTime options lexemes { d with builder := d.builder.pop stop } :=
  h.grow hlined (.pop _ _) fun i => d.builder.docOf_pop stop i

theorem amend (id : EntryId) {f : Entry → Entry}
    (hkeeps : ∀ e, d.builder.entry? id = some e → e.Keeps (f e)) (hdoc : ∀ e, (f e).doc = e.doc) :
    OnTime options lexemes { d with builder := d.builder.modify id f } :=
  h.grow hlined (.modify _ id hkeeps) fun i => d.builder.docOf_modify id i hdoc

theorem itemDone (hreaches : (Cursor.ofLexemes lexemes).Reaches c) {ids : List EntryId}
    (hids : ids ≠ []) (hitem : d.builder.IsItem lexemes ids) :
    (d.itemDone c ids).OnTime options lexemes := by
  refine ⟨unexamined_itemDone h.queue c ids, h.timely.itemDone h.queue hlined hreaches hids hitem,
    ?_⟩
  apply (h.begun.of_documents (d.documents_itemDone c ids)).mono
  rw [examined_itemDone h.queue]
  exact Nat.le_max_left _ _

/-- Entries are made that begin behind what was examined. They get what waits,
    and then they come last. -/
theorem make (hreaches : (Cursor.ofLexemes lexemes).Reaches c) {b : Builder} {ids : List EntryId}
    (hids : ids ≠ []) (hmakes : d.Makes lexemes b ids)
    (hextends : d.builder.Extends lexemes d.examined c.indexAfterPrev b) :
    (Draft.itemDone { d with builder := b, pending := none } c ids).OnTime options lexemes := by
  have hdocs : ∀ i, b.docOf i = if i ∈ ids then
      withParagraph (d.builder.docOf i) ((d.pending.map Pending.text).getD "")
      else d.builder.docOf i := by
    intro i
    rw [hmakes.docs i]
    split
    · next hi => rw [Builder.docOf_of_size_le (hmakes.new i hi), empty_withParagraph]
    · rfl
  let made : Draft := { d with builder := b, pending := none }
  have hmade : made.Timely options lexemes made.examined :=
    h.timely.handOver hlined hmakes.grows hextends (Nat.le_refl _) hmakes.item hdocs
  have hqueue : made.unexamined = lexemes.drop made.examined := h.queue
  have hexamined := examined_itemDone hqueue c ids
  refine ⟨unexamined_itemDone hqueue c ids,
    Timely.itemDone hmade hqueue hlined hreaches hids hmakes.item, ?_⟩
  -- The new entries begin with tokens that were passed.
  have hnumbered := (Cursor.numbered_ofLexemes lexemes).of_reaches hreaches
  have hle := Nat.le_trans hnumbered.indexAfterPrev_le hnumbered.lexemeIndex_le
  have hbegun : b.BegunBy lexemes (made.itemDone c ids).examined := by
    apply h.begun.of_extends hlined hextends
    · rw [hexamined]
      exact Nat.le_max_left _ _
    · rw [hexamined]
      omega
  exact hbegun.of_documents (made.documents_itemDone c ids)

theorem conclude (hreaches : (Cursor.ofLexemes lexemes).Reaches c) {id : EntryId}
    {f : Entry → Entry} (hid : id < d.builder.entries.size)
    (hkeeps : ∀ e, d.builder.entry? id = some e → e.Keeps (f e)) (hdoc : ∀ e, (f e).doc = e.doc) :
    (d.conclude c id f).OnTime options lexemes := by
  have hsize : ((d.builder.modify id f).pop c.prevStop).entries.size = d.builder.entries.size :=
    (Builder.size_entries_pop _ _).trans Array.size_modify
  have hclosed := (h.amend hlined id hkeeps hdoc).pop hlined c.prevStop
  exact hclosed.itemDone hlined hreaches (List.cons_ne_nil _ _)
    (.single (Nat.lt_of_lt_of_eq hid hsize.symm))

/-- Documentation is taken, and no entry is made. -/
theorem lead (hfits : d.builder.Fits) (c : Cursor) :
    (d.takeLeading c).2.OnTime options lexemes := by
  have hready := h.ready hlined hfits c
  have hsame : (d.ready c).builder.Grows (fun _ => False) (d.ready c).builder := .refl _
  rw [takeLeading_eq]
  exact hready.of_sameQueue ⟨rfl, rfl⟩
    (hready.timely.handOver hlined hsame (hsame.extends_of_kept _ 0) (Nat.le_refl _) .nil (by simp))
    hready.begun

end Lined

end OnTime

end Draft

/-! ### Deeds -/

section Deeds

variable {options : Options} {lexemes : List Lexeme}

/-- The step lemma. -/
theorem Deed.onTime {p q : Site} {g : Draft → Draft} (h : Deed p g q) {d : Draft}
    (hlined : LinedUp lexemes) (hd : d.StandsAt p)
    (hbooked : d.BookedAt options lexemes {} p.cursor) (hx : d.OnTime options lexemes) :
    (g d).OnTime options lexemes := by
  have hready := hx.ready hlined (.inl hd.arena) p.cursor
  have hexamined := Nat.le_of_eq hbooked.examined_ready
  cases h with
  | move _ => exact hx
  | log e => exact hx.log e
  | sync _ => exact hx.sync hlined (.inl hd.arena) _
  | skip _ => exact hx.skipTransparent hlined (.inl hd.arena) _
  | lead _ _ => exact hx.lead hlined (.inl hd.arena) _
  | use _ units =>
    apply hx.amend hlined
    · exact fun e _ => ⟨rfl, rfl, rfl, rfl, fun _ => ⟨rfl, rfl⟩, List.prefix_refl _, rfl⟩
    · exact fun _ => rfl
  | @declare c entries _ _ _ _ hreaches _ htogether hbetween _ _ =>
    have hmakes := hd.ready.makes_declare hbooked.reaches htogether
    show (d.declare p.cursor c entries).OnTime options lexemes
    rw [Draft.declare_eq, hd.ready.count]
    apply hready.make hlined (hbooked.reaches.trans hreaches) (htogether.range'_ne_nil _) hmakes
    exact (Builder.grows_declare _ _ hbooked.reaches hexamined hbetween).extends
  | @enter c e _ _ _ _ _ _ hpasses _ hstart _ _ _ =>
    have hmakes := hd.ready.makes_enter lexemes e
    show (d.enter p.cursor c e).OnTime options lexemes
    rw [Draft.enter_eq, hd.ready.count]
    apply hready.make hlined (hbooked.reaches.trans hpasses.reaches) (List.cons_ne_nil _ _) hmakes
    apply Builder.Grows.extends
    apply Builder.Grows.push
    exact Entry.beginsIn_of_passes hbooked.reaches hexamined (.refl _) hpasses (.refl _) hstart
  | @conclude c id _ _ _ hopened hreaches hkeeps _ _ _ hdoc _ =>
    have hmem : (id, Holder.enumeration) ∈ p.opened := by
      rw [hopened]
      exact List.mem_cons_self
    exact hx.conclude hlined (hbooked.reaches.trans hreaches) (hd.lt_count hmem)
      (fun e he => hkeeps e (hd.kind_eq_type hmem he)) hdoc
  | @shut c id holder _ _ _ hopened _ hreaches hkeeps _ _ _ hdoc _ =>
    have hmem : (id, holder) ∈ p.opened := by
      rw [hopened]
      exact List.mem_cons_self
    have hsynced := hd.of_documents (d.documents_sync p.cursor)
    exact (hx.sync hlined (.inl hd.arena) _).conclude hlined (hbooked.reaches.trans hreaches)
      (hsynced.lt_count hmem) (fun e _ => hkeeps e) hdoc
  | abandon _ _ => exact hx.pop hlined _

/-- The run lemma. -/
theorem Config.Steps.onTime {x y : Config} (h : x.Steps y) (hlined : LinedUp lexemes)
    (hx : x.Stands) (hbooked : x.first.BookedAt options lexemes {} x.site.cursor)
    (honTime : x.first.OnTime options lexemes) : y.first.OnTime options lexemes := by
  induction h with
  | refl => exact honTime
  | tail hsteps hstep ih =>
    have hstands := Steps.stands hsteps hx
    have hthere := Steps.booked hsteps hx hbooked
    obtain ⟨hdeed, d, d'⟩ := hstep
    exact hdeed.onTime hlined hstands.first hthere ih

end Deeds

/-! ### Sources -/

namespace State

section Source

variable (options : Options) (file : String) {lexemes : List Lexeme} (hlined : LinedUp lexemes)

theorem onTime_initial : (initial options file lexemes).draft.OnTime options lexemes := by
  constructor
  case queue => rfl
  case timely =>
    refine ⟨{}, accounts_initial options file lexemes, .nil, ?_, ?_, ?_⟩
    · intro place hplace
      cases hplace
    · intro item hitem
      cases hitem
    · intro item hitem
      cases hitem
  case begun =>
    intro i e he
    cases he

include hlined

/-- The root is the only entry; what stands before it waited for it. -/
theorem onTime_root : (root options file lexemes).draft.OnTime options lexemes := by
  have hinitial : (initial options file lexemes).draft.OnTime options lexemes :=
    onTime_initial options file
  by_cases hheader : (moduleKind? (Cursor.ofLexemes lexemes)).isSome = true
  · obtain ⟨e, hdoc, hdraft⟩ := exists_draft_root options file lexemes hheader
    have hready := hinitial.ready hlined (.inr rfl) (Cursor.ofLexemes lexemes)
    have hempty : ((initial options file lexemes).draft.ready
        (Cursor.ofLexemes lexemes)).builder.entries.size = 0 :=
      (Draft.documents_ready _ _).sameFrame.size
    have hmakes : Draft.Makes lexemes _ _ _ := .push _ hdoc
    rw [show ((initial options file lexemes).draft.ready
      (Cursor.ofLexemes lexemes)).builder.nextId = 0 from hempty] at hmakes
    rw [hdraft]
    apply hready.make hlined Reachable.root.reaches (List.cons_ne_nil _ _) hmakes
    exact Builder.extends_push_of_empty hempty e lexemes _ _
  · have hnone : moduleKind? (Cursor.ofLexemes lexemes) = none :=
      Option.not_isSome_iff_eq_none.mp hheader
    obtain ⟨e, _, _, hdoc, _, hdraft⟩ := exists_root_of_no_header options file lexemes hnone
    have hextends : (initial options file lexemes).draft.builder.Extends lexemes 0 0
        ((initial options file lexemes).draft.builder.push e) :=
      Builder.extends_push_of_empty rfl e lexemes _ _
    rw [hdraft]
    refine ⟨rfl, ⟨{}, (accounts_initial options file lexemes).push hdoc, .nil, ?_, ?_, ?_⟩, ?_⟩
    · intro place hplace
      cases hplace
    · intro item hitem
      cases hitem
    · intro item hitem
      cases hitem
    · exact hinitial.begun.of_extends hlined hextends (Nat.le_refl 0) (Nat.le_refl 0)

/-- After the whole source all comments are in turn. -/
theorem timely_ofSource :
    (ofSource options file lexemes).draft.Timely options lexemes lexemes.length := by
  let s := (root options file lexemes).run
  have htracks := tracks_run options options file lexemes
  have hrun := htracks.steps.onTime hlined (tracks_root options options file lexemes).stands
    (bookedAt_root options file lexemes) (onTime_root options file hlined)
  have hfinish := hrun.finish hlined htracks.stands.first.arena s.cursor
  have hbooked := (reachable_run options file lexemes).bookedAt
  have hend : (s.draft.finish s.cursor).examined = lexemes.length :=
    hbooked.examined_finish
  obtain ⟨events, hdraft⟩ := s.exists_draft_finish_eq
  have htimely := hfinish.timely
  rw [hend] at htimely
  show s.finish.draft.Timely options lexemes lexemes.length
  rw [hdraft]
  exact htimely.congr rfl rfl rfl fun _ hlast => hlast

end Source

end State

/-- The entries of a finished outline begin where they began, but for the root. -/
theorem Overtakes.finish {options : Options} {lexemes : List Lexeme} {b : Builder} {x y : Nat}
    (h : Overtakes options lexemes b.entry? x y) (hroot : b.hasRoot = true) (eof : Location) :
    Overtakes options lexemes (b.finish eof).get? x y := by
  constructor
  case behind => exact h.behind
  case trailing => exact h.trailing
  case leads => exact h.leads
  case together =>
    intro i e he hi
    have hgrows : b.Grows (fun _ => False) (b.popTimes eof b.unclosed) := .popTimes b eof _
    rw [Builder.get?_finish hroot, if_neg hi] at he
    obtain ⟨old, hold, hkeeps⟩ := hgrows.exists_kept he
    rw [hkeeps.start]
    exact h.together i old hold hi

/-- The documentation of every entry is strung together from the texts of the
    comments that are delivered to it, in source order up to overtaking: a
    comment comes before one that stands before it in the source only if it is
    marked as trailing, the other one is not, and no entry begins between the
    two. -/
theorem documentation_in_turn (options : Options) (file source : String) :
    let lexemes := Lexer.lex options.nestedComments source
    let outline := (scan options file source).outline
    ∃ ledger : Ledger, ledger.Explains options file source ∧
      ∀ id e, outline.get? id = some e →
        Strung (commentTexts options lexemes (commentsOf ledger.deliveries id)) e.doc ∧
          (commentsOf ledger.deliveries id).Pairwise (InTurn options lexemes outline.get?) := by
  intro lexemes outline
  have hlined : LinedUp lexemes := linedUp_lex options.nestedComments source
  obtain ⟨ledger, haccounts, htimely⟩ := State.timely_ofSource options file hlined
  have hexplains := haccounts.explains (State.pending_ofSource options file lexemes)
  have hreachable := State.reachable_run options file lexemes
  have hroot : (State.ofSource options file lexemes).draft.builder.hasRoot = true :=
    (hreachable.agrees.arena.of_sameFrame (State.documents_finish _).sameFrame).hasRoot
  refine ⟨ledger, hexplains, ?_⟩
  intro id e he
  constructor
  · rw [hexplains.docs id e he]
    exact strung_delivered options lexemes ledger.deliveries id
  · have hall := (List.pairwise_append.mp htimely.turn).1
    apply (hall.sublist (commentsOf_sublist ledger.deliveries id)).imp
    intro x y hxy
    exact hxy.imp_right fun hovertakes => hovertakes.finish hroot _

/-- A marked comment behind an unmarked one comes first in the documentation of
    a unit that ends the source: the comments are not in source order. -/
theorem not_forall_documentation_in_order :
    ¬ ∀ (options : Options) (file source : String) (id : EntryId) (e : Entry),
      (scan options file source).outline.get? id = some e →
        ∃ places, places.Sublist (docPlaces options (Lexer.lex options.nestedComments source)
            (Lexer.lex options.nestedComments source).length) ∧
          Strung (commentTexts options (Lexer.lex options.nestedComments source) places) e.doc := by
  intro h
  let source := "unit U;\n\x7ba\x7d\n\x7b<b\x7d"
  have hdoc : ((scan {} "x.pas" source).outline.get? 0).map Entry.doc = some "b\n\na" := by
    decide +kernel
  have htexts : commentTexts {} (Lexer.lex false source)
      (docPlaces {} (Lexer.lex false source) (Lexer.lex false source).length) = ["a", "b"] := by
    decide +kernel
  obtain ⟨e, he, hdoc⟩ := Option.map_eq_some_iff.mp hdoc
  obtain ⟨places, hplaces, hstrung⟩ := h {} "x.pas" source 0 e he
  have hsome : (commentTexts {} (Lexer.lex false source) places).Sublist ["a", "b"] := by
    rw [← htexts]
    exact (hplaces.filterMap _).map _
  rw [hdoc] at hstrung
  -- The documentation neither begins with the first text nor is it the second.
  generalize commentTexts {} (Lexer.lex false source) places = texts at hsome hstrung
  cases hsome with
  | cons_cons _ _ =>
    obtain ⟨rest, hrest⟩ := hstrung.exists_eq_append
    have hhead := congrArg String.toList hrest
    simp at hhead
  | cons _ hsome =>
    rcases List.sublist_singleton.mp hsome with rfl | rfl
    · exact absurd hstrung.eq_empty (by decide)
    · exact absurd hstrung.eq_singleton (by decide)

end PascalOutline
