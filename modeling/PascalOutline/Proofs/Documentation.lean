import PascalOutline.Proofs.Documentation.Draft
import PascalOutline.Proofs.Recognizer.Lockstep
import PascalOutline.Scan

/-! # The course of a run

  Every lexeme is examined once, in source order, and never before the cursor
  has got to it. `Deed.booked` says which turns of a register go with one deed of
  the recognizer, and the course of a whole source follows along the deeds of
  its run.
-/

namespace PascalOutline

/-! ### New entries -/

namespace Builder

theorem name_start_addLeaf (b : Builder) (e : Entry) :
    Option.map (fun e => (e.name, e.start)) (Builder.entry? (b.addLeaf e) b.nextId)
      = some (e.name, e.start) := by
  have hgrows : (b.insert e).Grows (fun _ => False) (b.addLeaf e) := by
    unfold addLeaf
    dsimp only
    split
    · exact .close _ _ _
    · have hsame : (b.insert e).Grows (fun _ => False) (b.insert e) := .refl _
      exact ⟨hsame.size_le, hsame.kept, hsame.new⟩
  have hinsert := b.entry?_insert e b.nextId
  rw [if_pos rfl] at hinsert
  obtain ⟨e', he', hkeeps⟩ := hgrows.kept _ _ hinsert
  rw [he', Option.map_some, hkeeps.name, hkeeps.start]

/-- New entries are found where they were made. -/
theorem map_name_start_foldl_addLeaf (b : Builder) (entries : List Entry) :
    (List.range' b.nextId entries.length).map (fun id =>
        Option.map (fun e => (e.name, e.start)) (Builder.entry? (entries.foldl addLeaf b) id))
      = entries.map fun e => some (e.name, e.start) := by
  induction entries generalizing b with
  | nil => rfl
  | cons e es ih =>
    have hnext : (b.addLeaf e).nextId = b.nextId + 1 := b.size_addLeaf e
    have hrest := ih (b.addLeaf e)
    rw [hnext] at hrest
    rw [List.length_cons, List.range'_succ, List.map_cons, List.map_cons, List.foldl_cons, hrest]
    congr 1
    -- The entries that follow leave the first one alone.
    have hfirst := b.name_start_addLeaf e
    have hlt : b.nextId < (b.addLeaf e).entries.size := by
      rw [size_addLeaf]
      exact Nat.lt_succ_self _
    obtain ⟨e₁, he₁⟩ := exists_entry? hlt
    have hgrows : (b.addLeaf e).Grows (fun _ => True) (es.foldl addLeaf (b.addLeaf e)) :=
      .foldl_addLeaf _ fun _ _ => trivial
    obtain ⟨e₂, he₂, hkeeps⟩ := hgrows.kept _ _ he₁
    rw [he₁] at hfirst
    rw [he₂, Option.map_some, hkeeps.name, hkeeps.start]
    exact hfirst

theorem isItem_foldl_addLeaf (b : Builder) (hroot : 0 < b.entries.size) {lexemes : List Lexeme}
    {c : Cursor} (hc : (Cursor.ofLexemes lexemes).Reaches c) {entries : List Entry}
    (htogether : Entry.MadeTogether c entries) :
    (entries.foldl addLeaf b).IsItem lexemes (List.range' b.nextId entries.length) := by
  constructor
  case nodup => exact List.nodup_range'
  case lt_size =>
    intro id hid
    rw [size_foldl_addLeaf]
    exact (List.mem_range'_1.mp hid).2
  case one =>
    rcases htogether.together with hone | hnames
    · exact .inl (by rw [List.length_range']; omega)
    · refine .inr ⟨c, hc, ?_⟩
      rw [map_name_start_foldl_addLeaf]
      have hsome := congrArg (List.map some) hnames
      rwa [List.map_map, List.map_map] at hsome
  case root =>
    refine .inr fun hzero => ?_
    have hle := (List.mem_range'_1.mp hzero).1
    exact absurd hroot (Nat.not_lt.mpr hle)

end Builder

namespace Draft.Makes

variable {lexemes : List Lexeme} (d : Draft)

theorem foldl_addLeaf (hroot : 0 < d.builder.entries.size) {c : Cursor}
    (hc : (Cursor.ofLexemes lexemes).Reaches c) {entries : List Entry}
    (htogether : Entry.MadeTogether c entries)
    (hdoc : ∀ e ∈ entries, e.doc = (d.pending.map Pending.text).getD "") :
    d.Makes lexemes (entries.foldl Builder.addLeaf d.builder)
      (List.range' d.builder.nextId entries.length) :=
  ⟨.foldl_addLeaf _ fun _ _ => trivial, d.builder.isItem_foldl_addLeaf hroot hc htogether,
    fun _ hi => (List.mem_range'_1.mp hi).1, d.builder.docOf_foldl_addLeaf hdoc⟩

theorem push {e : Entry} (hdoc : e.doc = (d.pending.map Pending.text).getD "") :
    d.Makes lexemes (d.builder.push e) [d.builder.nextId] := by
  have hsize : d.builder.nextId < (d.builder.push e).entries.size := by
    show _ < (d.builder.insert e).entries.size
    rw [Builder.size_insert]
    exact Nat.lt_succ_self _
  refine ⟨.push _ trivial, .single hsize, List.forall_mem_singleton.mpr (Nat.le_refl _), ?_⟩
  intro i
  rw [Builder.docOf_push, hdoc]
  simp only [List.mem_singleton]

end Draft.Makes

/-! ### Declarations -/

/-- The next token is a lexeme, and it is code. -/
theorem Cursor.Passes.lexeme {lexemes : List Lexeme} {c d : Cursor} (h : c.Passes d)
    (hreaches : (ofLexemes lexemes).Reaches c) :
    ∃ l, lexemes[c.lexemeIndex]? = some l ∧ l.isTrivia = false ∧ c.location = l.start := by
  obtain ⟨t, ts, hahead⟩ := List.exists_cons_of_ne_nil h.1
  have hpeek : c.peek? = some t := peek?_eq_some_iff.mpr ⟨ts, hahead⟩
  have hindex : c.lexemeIndex = t.index := by
    rw [lexemeIndex, hpeek]
    rfl
  have hlocation : c.location = t.lexeme.start := by
    rw [location, hpeek]
    rfl
  rw [hindex, hlocation]
  obtain ⟨hl, hcode⟩ := hreaches.getElem?_index (mem_tokens_of_peek? hpeek)
  exact ⟨t.lexeme, hl, hcode, rfl⟩

/-- What begins with the first of the tokens that are passed begins behind what
    was examined, and before what is examined when they are passed. -/
theorem Entry.beginsIn_of_passes {lexemes : List Lexeme} {c c₁ c₂ c' : Cursor} {e : Entry}
    {first : Nat} (hc : (Cursor.ofLexemes lexemes).Reaches c) (hfirst : first ≤ c.lexemeIndex)
    (hbefore : c.Reaches c₁) (hpasses : c₁.Passes c₂) (hafter : c₂.Reaches c')
    (hstart : e.start = c₁.location) : e.BeginsIn lexemes first c'.indexAfterPrev := by
  have hnumbered := (Cursor.numbered_ofLexemes lexemes).of_reaches hc
  have hnumbered₁ := hnumbered.of_reaches hbefore
  have hnumbered₂ := hnumbered₁.of_reaches hpasses.reaches
  obtain ⟨l, hl, _, hlocation⟩ := hpasses.lexeme (hc.trans hbefore)
  refine ⟨c₁.lexemeIndex, l, ?_, ?_, hl, hstart.trans hlocation⟩
  · exact Nat.le_trans hfirst (hnumbered.lexemeIndex_mono hbefore)
  · exact Nat.lt_of_lt_of_le (hnumbered₁.lexemeIndex_lt_indexAfterPrev hpasses)
      (hnumbered₂.indexAfterPrev_mono hafter)

namespace Draft

theorem declare_eq (d : Draft) (c c' : Cursor) (entries : List Entry) :
    d.declare c c' entries
      = itemDone
          { d.ready c with
            builder := (entries.map fun e =>
                { e with doc := ((d.ready c).pending.map Pending.text).getD "" }).foldl
              Builder.addLeaf (d.ready c).builder
            pending := none }
          c' (List.range' (d.ready c).builder.nextId entries.length) := by
  unfold declare
  rw [takeLeading_eq]

theorem enter_eq (d : Draft) (c c' : Cursor) (e : Entry) :
    d.enter c c' e
      = itemDone
          { d.ready c with
            builder := (d.ready c).builder.push
              { e with doc := ((d.ready c).pending.map Pending.text).getD "" }
            pending := none }
          c' [(d.ready c).builder.nextId] := by
  unfold enter
  rw [takeLeading_eq]

namespace StandsAt

variable {d : Draft} {p : Site}

theorem ready (h : d.StandsAt p) : (d.ready p.cursor).StandsAt p :=
  h.of_documents (d.documents_ready p.cursor)

/-- What is declared gets the next numbers. -/
theorem makes_declare (h : d.StandsAt p) {lexemes : List Lexeme}
    (hreaches : (Cursor.ofLexemes lexemes).Reaches p.cursor) {entries : List Entry}
    (htogether : Entry.MadeTogether p.cursor entries) :
    d.Makes lexemes
      ((entries.map fun e => { e with doc := (d.pending.map Pending.text).getD "" }).foldl
        Builder.addLeaf d.builder)
      (List.range' p.count entries.length) := by
  have hmakes := Makes.foldl_addLeaf d h.arena.size_pos hreaches (htogether.withDoc _) <| by
    intro e he
    obtain ⟨_, _, rfl⟩ := List.mem_map.mp he
    rfl
  rwa [h.count, List.length_map] at hmakes

theorem makes_enter (h : d.StandsAt p) (lexemes : List Lexeme) (e : Entry) :
    d.Makes lexemes
      (d.builder.push { e with doc := (d.pending.map Pending.text).getD "" }) [p.count] := by
  have hmakes : d.Makes lexemes _ _ :=
    .push d (e := { e with doc := (d.pending.map Pending.text).getD "" }) rfl
  rwa [h.count] at hmakes

end StandsAt

end Draft

/-- What is declared begins with the tokens that are passed. -/
theorem Builder.grows_declare (b : Builder) {lexemes : List Lexeme} {c c' : Cursor} {first : Nat}
    {entries : List Entry} (doc : String) (hc : (Cursor.ofLexemes lexemes).Reaches c)
    (hfirst : first ≤ c.lexemeIndex) (hbetween : ∀ e ∈ entries, e.Between c c') :
    b.Grows (·.BeginsIn lexemes first c'.indexAfterPrev)
      ((entries.map fun e => { e with doc }).foldl Builder.addLeaf b) := by
  apply Grows.foldl_addLeaf
  intro e he
  obtain ⟨bare, hbare, rfl⟩ := List.mem_map.mp he
  obtain ⟨c₁, c₂, hbefore, hpasses, hafter, hstart, _⟩ := hbetween bare hbare
  exact Entry.beginsIn_of_passes hc hfirst hbefore hpasses hafter hstart

/-- New entries begin where it is their turn. -/
theorem Register.begins_of_grows {lexemes : List Lexeme} {b b' : Builder} {place : Nat}
    (h : b.Grows (·.BeginsIn lexemes place lexemes.length) b') {id : EntryId} (hroot : id ≠ 0)
    (hnew : b.entries.size ≤ id) (hsize : id < b'.entries.size) :
    Begins lexemes b'.entry? place id := by
  unfold Begins
  rw [if_neg hroot]
  obtain ⟨e, he⟩ := Builder.exists_entry? hsize
  obtain ⟨new, ⟨k, l, hfirst, hlast, hl, hstart⟩, hkeeps⟩ := h.new id e he hnew
  exact ⟨e, he, k, l, hfirst, hlast, hl, hkeeps.start.trans hstart⟩

theorem Draft.StandsAt.begins {lexemes : List Lexeme} {d : Draft} {p : Site} (h : d.StandsAt p)
    {b : Builder} {place n : Nat}
    (hgrows : d.builder.Grows (·.BeginsIn lexemes place lexemes.length) b)
    (hsize : b.entries.size = d.builder.entries.size + n) :
    ∀ id ∈ List.range' d.builder.nextId n, Register.Begins lexemes b.entry? place id := by
  intro id hid
  obtain ⟨hnew, hlt⟩ := List.mem_range'_1.mp hid
  have hroot : 0 < id := Nat.lt_of_lt_of_le h.arena.size_pos hnew
  exact Register.begins_of_grows hgrows (Nat.ne_of_gt hroot) hnew (hsize ▸ hlt)

/-! ### Deeds -/

/-- A draft is booked, and the cursor stands where everything that was examined
    lies before it. -/
structure Draft.BookedAt (options : Options) (lexemes : List Lexeme) (before : Register)
    (c : Cursor) (d : Draft) : Prop where
  /-- A course leads to what was examined. -/
  booked : d.Booked options lexemes before c.lexemeIndex
  /-- The cursor walks over the tokens of the lexemes. -/
  reaches : (Cursor.ofLexemes lexemes).Reaches c
  /-- Nothing was examined too early. -/
  behind : d.examined ≤ c.lexemeIndex

namespace Draft.BookedAt

variable {options : Options} {lexemes : List Lexeme} {before : Register}
variable {c c' : Cursor} {d d' : Draft}

theorem numbered (h : d.BookedAt options lexemes before c) : c.Numbered lexemes.length :=
  (Cursor.numbered_ofLexemes lexemes).of_reaches h.reaches

theorem move (h : d.BookedAt options lexemes before c) (hreaches : c.Reaches c') :
    d.BookedAt options lexemes before c' := by
  have hle := h.numbered.lexemeIndex_mono hreaches
  exact ⟨h.booked.mono hle, h.reaches.trans hreaches, Nat.le_trans h.behind hle⟩

theorem log (h : d.BookedAt options lexemes before c) (e : Event) :
    (d.log e).BookedAt options lexemes before c :=
  ⟨⟨h.booked.queue, h.booked.fits, h.booked.accounted.congr rfl rfl rfl rfl⟩, h.reaches, h.behind⟩

theorem sync (h : d.BookedAt options lexemes before c) :
    (d.sync c).BookedAt options lexemes before c := by
  have hexamined := examined_sync h.booked.queue c
  have hbehind := h.behind
  exact ⟨h.booked.sync c, h.reaches, by omega⟩

theorem skipTransparent (h : d.BookedAt options lexemes before c) :
    (d.skipTransparent c).BookedAt options lexemes before c := by
  have hexamined := examined_skipTransparent h.booked.queue c
  have hbehind := h.behind
  have hprev := h.numbered.indexAfterPrev_le
  exact ⟨h.booked.skipTransparent c, h.reaches, by omega⟩

/-- Before documentation is handed over everything before the cursor was
    examined. -/
theorem examined_ready (h : d.BookedAt options lexemes before c) :
    (d.ready c).examined = c.lexemeIndex := by
  have hbehind := h.behind
  have hle := h.numbered.lexemeIndex_le
  rw [(d.sameQueue_ready c).examined, examined_sync h.booked.queue]
  omega

/-- At the end of the source everything was examined. -/
theorem examined_finish (h : d.BookedAt options lexemes before c) :
    (d.finish c).examined = lexemes.length := by
  have hbehind := Nat.le_trans h.behind h.numbered.lexemeIndex_le
  rw [Draft.examined_finish h.booked.queue, h.numbered.lexemeCount]
  omega

/-- The documentation before some code is lost, since the code makes no entry. -/
theorem lead (h : d.BookedAt options lexemes before c) (hpasses : c.Passes c') :
    (d.takeLeading c).2.BookedAt options lexemes before c' := by
  obtain ⟨l, hl, hcode, hline⟩ := hpasses.lexeme h.reaches
  have hexamined := h.examined_ready
  have hready := h.booked.ready hl hcode hline h.behind
  rw [← hexamined] at hl
  have hlost := hready.lose hl hcode
  have hnext := h.numbered.lexemeIndex_lt_indexAfterPrev hpasses
  have hafter := (h.numbered.of_reaches hpasses.reaches).indexAfterPrev_le
  rw [takeLeading_eq]
  refine ⟨hlost.mono (by omega), h.reaches.trans hpasses.reaches, ?_⟩
  show (d.ready c).examined ≤ c'.lexemeIndex
  omega

/-- Entries are made that get the documentation before them, and then they come
    last. -/
theorem make (h : d.BookedAt options lexemes before c) (hahead : c.ahead ≠ [])
    (hreaches : c.Reaches c') {b : Builder} (harena : b.Arena) {n : Nat} (hsome : 0 < n)
    (hmakes : (d.ready c).Makes lexemes b (List.range' (d.ready c).builder.nextId n))
    (hbegins : ∀ id ∈ List.range' (d.ready c).builder.nextId n,
      Register.Begins lexemes b.entry? c.lexemeIndex id)
    (hsize : b.entries.size = (d.ready c).builder.entries.size + n)
    (hstack : b.stack = (d.ready c).builder.stack ∨
      n = 1 ∧ b.stack = (d.ready c).builder.nextId :: (d.ready c).builder.stack) :
    (itemDone { d.ready c with builder := b, pending := none } c'
      (List.range' (d.ready c).builder.nextId n)).BookedAt options lexemes before c' := by
  obtain ⟨l, hl, hcode, hline⟩ := (Cursor.passes_next hahead).lexeme h.reaches
  have hready := h.booked.ready hl hcode hline h.behind
  have hexamined := h.examined_ready
  have hnear : ((d.ready c).pending.any fun p => (d.ready c).exceedsGap p.lastLine l.start.line)
      = false := by
    rw [← hline]
    exact near_handFar _ _
  have hmoved := h.numbered.lexemeIndex_mono hreaches
  rw [← hexamined] at hl hbegins hmoved
  have hmade := hready.make hl hcode (Nat.le_of_eq hexamined.symm) hnear (h.reaches.trans hreaches)
    hmoved harena hsome hmakes hbegins hsize hstack
  have hdone := examined_itemDone (d := { d.ready c with builder := b, pending := none })
    hready.queue c' (List.range' (d.ready c).builder.nextId n)
  have hafter := (h.numbered.of_reaches hreaches).indexAfterPrev_le
  refine ⟨hmade.mono (hexamined ▸ hmoved), h.reaches.trans hreaches, ?_⟩
  rw [hdone]
  show max (d.ready c).examined _ ≤ _
  omega

section Declarations

variable {p : Site} (h : d.BookedAt options lexemes before p.cursor) (hd : d.StandsAt p)
include h hd

theorem declare {entries : List Entry} (hreaches : p.cursor.Reaches c')
    (htogether : Entry.MadeTogether p.cursor entries)
    (hbetween : ∀ e ∈ entries, e.Between p.cursor c') :
    (d.declare p.cursor c' entries).BookedAt options lexemes before c' := by
  rw [declare_eq]
  generalize hdoc : (((d.ready p.cursor).pending.map Pending.text).getD "") = doc
  have hmade := hd.ready.foldl_addLeaf (entries.map fun e => { e with doc })
  have hmakes := hd.ready.makes_declare h.reaches htogether
  have hsize := (d.ready p.cursor).builder.size_foldl_addLeaf (entries.map fun e => { e with doc })
  have hgrows := (d.ready p.cursor).builder.grows_declare doc h.reaches (Nat.le_refl _) hbetween
  have hnumbered := h.numbered.of_reaches hreaches
  have hlast := Nat.le_trans hnumbered.indexAfterPrev_le hnumbered.lexemeIndex_le
  rw [List.length_map] at hsize
  rw [hdoc, ← hd.ready.count] at hmakes
  obtain ⟨e, he⟩ := List.exists_mem_of_ne_nil _ htogether.nonempty
  obtain ⟨c₁, c₂, hbefore, hpasses, _⟩ := hbetween e he
  exact h.make (hbefore.trans_passes hpasses).1 hreaches hmade.arena
    (List.length_pos_iff.mpr htogether.nonempty) hmakes
    (hd.ready.begins (hgrows.mono fun e he => he.mono hlast) hsize) hsize
    (.inl (hmade.stack.trans hd.ready.stack.symm))

theorem enter {e : Entry} {holder : Holder} (hpasses : p.cursor.Passes c')
    (hstart : e.start = p.cursor.location) (hkind : holder.Is e.kind)
    (hforward : e.forward = false) :
    (d.enter p.cursor c' e).BookedAt options lexemes before c' := by
  rw [enter_eq]
  generalize hdoc : (((d.ready p.cursor).pending.map Pending.text).getD "") = doc
  have hmade := hd.ready.push (e := { e with doc }) hkind hforward
  have hmakes := hd.ready.makes_enter lexemes e
  have hsize := (d.ready p.cursor).builder.size_insert { e with doc }
  have hgrows : (d.ready p.cursor).builder.Grows
      (·.BeginsIn lexemes p.cursor.lexemeIndex c'.indexAfterPrev)
      ((d.ready p.cursor).builder.push { e with doc }) :=
    .push _ (Entry.beginsIn_of_passes (e := { e with doc }) h.reaches (Nat.le_refl _) (.refl _)
      hpasses (.refl _) hstart)
  have hnumbered := h.numbered.of_reaches hpasses.reaches
  have hlast := Nat.le_trans hnumbered.indexAfterPrev_le hnumbered.lexemeIndex_le
  rw [hdoc, ← hd.ready.count] at hmakes
  exact h.make hpasses.1 hpasses.reaches hmade.arena Nat.one_pos hmakes
    (hd.ready.begins (hgrows.mono fun e he => he.mono hlast) hsize) hsize (.inr ⟨rfl, rfl⟩)

end Declarations

/-- A text of an entry is added. -/
theorem amend (h : d.BookedAt options lexemes before c) (harena : d.builder.Arena) (id : EntryId)
    {f : Entry → Entry} (hkeeps : ∀ e, d.builder.entry? id = some e → e.Keeps (f e))
    (hlinks : ∀ e, (f e).links = e.links) (hends : ∀ e, (f e).ends = e.ends)
    (hdoc : ∀ e, (f e).doc = e.doc) :
    BookedAt options lexemes before c { d with builder := d.builder.modify id f } := by
  have hframe := d.builder.sameFrame_modify id hlinks hends
  exact ⟨h.booked.amend id hkeeps hdoc (.inl (harena.of_sameFrame hframe)), h.reaches, h.behind⟩

/-- The innermost open entry gets its texts and ends at a later cursor. -/
theorem conclude (h : d.BookedAt options lexemes before c) (harena : d.builder.Arena)
    (hreaches : c.Reaches c') {id below : EntryId} {rest : List EntryId}
    (hopened : d.builder.stack = id :: below :: rest) {f : Entry → Entry}
    (hkeeps : ∀ e, d.builder.entry? id = some e → e.Keeps (f e))
    (hlinks : ∀ e, (f e).links = e.links) (hends : ∀ e, (f e).ends = e.ends)
    (hdoc : ∀ e, (f e).doc = e.doc) : (d.conclude c' id f).BookedAt options lexemes before c' := by
  have hmoved := (h.amend harena id hkeeps hlinks hends hdoc).move hreaches
  have hframe := d.builder.sameFrame_modify id hlinks hends
  have harena' := (harena.of_sameFrame hframe).pop c'.prevStop
  have hid : id < ((d.builder.modify id f).pop c'.prevStop).entries.size := by
    rw [Builder.size_entries_pop, hframe.size]
    exact harena.stack_lt id (by rw [hopened]; exact List.mem_cons_self)
  have hclosed := hmoved.booked.close hmoved.reaches hmoved.behind (hframe.stack.trans hopened)
    c'.prevStop harena' (.single hid)
  refine ⟨hclosed, hmoved.reaches, ?_⟩
  have hdone := examined_itemDone
    (d := { d with builder := (d.builder.modify id f).pop c'.prevStop }) h.booked.queue c' [id]
  have hbehind : d.examined ≤ c'.lexemeIndex := hmoved.behind
  have hprev := hmoved.numbered.indexAfterPrev_le
  show (itemDone _ c' [id]).examined ≤ c'.lexemeIndex
  rw [hdone]
  show max d.examined _ ≤ _
  omega

theorem abandon (h : d.BookedAt options lexemes before c) (harena : d.builder.Arena)
    {id below : EntryId} {rest : List EntryId} (hopened : d.builder.stack = id :: below :: rest)
    (stop : Location) :
    BookedAt options lexemes before c { d with builder := d.builder.pop stop } :=
  ⟨h.booked.abandon hopened stop (.inl (harena.pop stop)), h.reaches, h.behind⟩

end Draft.BookedAt

/-- The step lemma: a course goes on with every deed. -/
theorem Deed.booked {options : Options} {lexemes : List Lexeme} {before : Register} {p q : Site}
    {g : Draft → Draft} (h : Deed p g q) {d : Draft} (hd : d.StandsAt p)
    (hx : d.BookedAt options lexemes before p.cursor) :
    (g d).BookedAt options lexemes before q.cursor := by
  have hstack {top below : EntryId × Holder} {rest : List (EntryId × Holder)}
      (hopened : p.opened = top :: below :: rest) :
      d.builder.stack = top.1 :: below.1 :: rest.map Prod.fst := by
    rw [hd.stack, hopened]
    rfl
  cases h with
  | move hreaches => exact hx.move hreaches
  | log e => exact hx.log e
  | sync _ => exact hx.sync
  | skip _ => exact hx.skipTransparent
  | lead _ hpasses => exact hx.lead hpasses
  | use _ units =>
    exact hx.amend hd.arena _
      (fun e _ => ⟨rfl, rfl, rfl, rfl, fun _ => ⟨rfl, rfl⟩, List.prefix_refl _, rfl⟩)
      (fun _ => rfl) (fun _ => rfl) fun _ => rfl
  | declare _ hreaches _ htogether hbetween _ _ => exact hx.declare hd hreaches htogether hbetween
  | enter _ _ _ hpasses _ hstart _ hkind hforward =>
    exact hx.enter hd hpasses hstart hkind hforward
  | @conclude c id _ _ _ hopened hreaches hkeeps _ hlinks hends hdoc _ =>
    have hmem : (id, Holder.enumeration) ∈ p.opened := by
      rw [hopened]
      exact List.mem_cons_self
    exact hx.conclude hd.arena hreaches (hstack hopened)
      (fun e he => hkeeps e (hd.kind_eq_type hmem he)) hlinks hends hdoc
  | shut hopened _ hreaches hkeeps _ hlinks hends hdoc _ =>
    have hframe := d.sameFrame_sync p.cursor
    exact hx.sync.conclude (hd.arena.of_sameFrame hframe) hreaches
      (hframe.stack.trans (hstack hopened)) (fun e _ => hkeeps e) hlinks hends hdoc
  | abandon hopened _ => exact hx.abandon hd.arena (hstack hopened) _

/-- The run lemma. -/
theorem Config.Steps.booked {options : Options} {lexemes : List Lexeme} {before : Register}
    {x y : Config} (h : x.Steps y) (hx : x.Stands)
    (hbooked : x.first.BookedAt options lexemes before x.site.cursor) :
    y.first.BookedAt options lexemes before y.site.cursor := by
  induction h with
  | refl => exact hbooked
  | tail hsteps hstep ih =>
    have hstands := Steps.stands hsteps hx
    obtain ⟨hdeed, d, d'⟩ := hstep
    exact hdeed.booked hstands.first ih

/-! ### Finishing -/

namespace Builder

theorem docOf_popTimes (b : Builder) (stop : Location) (n : Nat) (i : EntryId) :
    (b.popTimes stop n).docOf i = b.docOf i := by
  induction n generalizing b with
  | zero => rfl
  | succ n ih => rw [popTimes, ih, docOf_pop]

/-- The entries of a finished outline; only the root is stretched. -/
theorem get?_finish {b : Builder} (hroot : b.hasRoot = true) (eof : Location) (i : EntryId) :
    (b.finish eof).get? i
      = if i = 0 then
          Option.map (fun e => { e with start := .start, stop := max eof .start })
            (Builder.entry? (b.popTimes eof b.unclosed) i)
        else entry? (b.popTimes eof b.unclosed) i := by
  have hwith : b.withRoot = b := by rw [withRoot, if_pos hroot]
  rw [← entry?_modify]
  simp only [finish, hwith]
  rfl

theorem doc_of_get?_finish {b : Builder} (hroot : b.hasRoot = true) {eof : Location} {i : EntryId}
    {e : Entry} (he : (b.finish eof).get? i = some e) : e.doc = b.docOf i := by
  rw [get?_finish hroot] at he
  rw [← b.docOf_popTimes eof b.unclosed i, docOf]
  split at he
  · obtain ⟨e₀, he₀, rfl⟩ := Option.map_eq_some_iff.mp he
    rw [he₀]
    rfl
  · rw [he]
    rfl

theorem IsItem.finish {b : Builder} {lexemes : List Lexeme} {ids : List EntryId}
    (h : b.IsItem lexemes ids) (hroot : b.hasRoot = true) (eof : Location) :
    OneDeclaration lexemes (b.finish eof).get? ids := by
  have hgrows : b.Grows (fun _ => False) (b.popTimes eof b.unclosed) := .popTimes b eof _
  rcases h.root with hone | hzero
  · exact .inl hone
  · rcases (h.of_grows hgrows).one with hone | ⟨c, hc, hnames⟩
    · exact .inl hone
    · refine .inr ⟨c, hc, Eq.trans ?_ hnames⟩
      apply List.map_congr_left
      intro id hid
      have hne : id ≠ 0 := by
        rintro rfl
        exact hzero hid
      rw [get?_finish hroot, if_neg hne]

end Builder

/-! ### Runs -/

namespace State

section Run

variable (options : Options) (file : String) (lexemes : List Lexeme)

theorem accounts_initial :
    Ledger.Accounts options lexemes {} 0 (initial options file lexemes).draft := by
  constructor
  case reads => rfl
  case once => exact List.Perm.nil
  case docs => exact fun i => Builder.docOf_of_size_le (Nat.zero_le i)
  case pending => rfl
  case sorted => exact .nil
  case lastItem => exact fun _ hnone => by cases hnone
  all_goals exact fun _ hmem => by cases hmem

/-- The course begins with an empty register. -/
theorem bookedAt_initial : (initial options file lexemes).draft.BookedAt options lexemes {}
    (initial options file lexemes).cursor := by
  refine ⟨⟨rfl, .inr rfl, {}, .refl, ⟨rfl, rfl, rfl, ?_⟩, rfl, rfl, Nat.zero_le _⟩, .refl _,
    Nat.zero_le _⟩
  exact accounts_initial options file lexemes

/-- The entry of a module header gets what waits for it. -/
theorem exists_draft_root (hheader : (moduleKind? (Cursor.ofLexemes lexemes)).isSome = true) :
    ∃ e : Entry,
      e.doc = ((((initial options file lexemes).draft.ready
        (Cursor.ofLexemes lexemes)).pending).map Pending.text).getD "" ∧
      (root options file lexemes).draft = Draft.itemDone
        { (initial options file lexemes).draft.ready (Cursor.ofLexemes lexemes) with
          builder := ((initial options file lexemes).draft.ready
            (Cursor.ofLexemes lexemes)).builder.push e
          pending := none }
        (root options file lexemes).cursor [0] := by
  let ready := (initial options file lexemes).draft.ready (Cursor.ofLexemes lexemes)
  obtain ⟨t, e, hin, _, _, hcursor, hdraft⟩ := exists_root_of_header options file lexemes hheader
  obtain ⟨hdoc, hled⟩ := Prod.mk.inj ((Draft.takeLeading_eq _ _).symm.trans hin.led)
  have hfirst : ready.builder.nextId = 0 := (Draft.documents_ready _ _).sameFrame.size
  refine ⟨e, hdoc.symm, ?_⟩
  rw [hdraft, hcursor]
  show Draft.itemDone { t.draft with builder := t.draft.builder.push e } t.cursor
    [t.draft.builder.nextId] = _
  rw [← hled]
  show Draft.itemDone { ready with builder := ready.builder.push e, pending := none } t.cursor
    [ready.builder.nextId] = _
  rw [hfirst]
  rfl

theorem bookedAt_root : (root options file lexemes).draft.BookedAt options lexemes {}
    (root options file lexemes).cursor := by
  have hinitial : (initial options file lexemes).draft.BookedAt options lexemes {}
      (Cursor.ofLexemes lexemes) := bookedAt_initial options file lexemes
  by_cases hheader : (moduleKind? (Cursor.ofLexemes lexemes)).isSome = true
  · obtain ⟨e, hdoc, hdraft⟩ := exists_draft_root options file lexemes hheader
    have hframe := ((initial options file lexemes).draft.documents_ready
      (Cursor.ofLexemes lexemes)).sameFrame
    have hfirst : ((initial options file lexemes).draft.ready
        (Cursor.ofLexemes lexemes)).builder.nextId = 0 := hframe.size
    have hmakes : Draft.Makes lexemes _ _ _ := .push _ hdoc
    obtain ⟨t, hpeek⟩ := exists_peek?_of_moduleKind? hheader
    have hmade := hinitial.make (Cursor.ahead_of_nth? hpeek) (reaches_root options file lexemes)
      (Builder.arena_push_of_empty hframe.size hframe.stack e) Nat.one_pos hmakes ?_
      (Builder.size_insert _ e) (.inr ⟨rfl, rfl⟩)
    · rw [hdraft]
      rw [hfirst] at hmade
      exact hmade
    intro id hid
    rw [hfirst] at hid
    obtain rfl := List.mem_singleton.mp hid
    unfold Register.Begins
    rw [if_pos rfl]
    exact fun k l hk hl => Cursor.isTrivia_of_lt_lexemeIndex hl hk
  · have hnone : moduleKind? (Cursor.ofLexemes lexemes) = none :=
      Option.not_isSome_iff_eq_none.mp hheader
    obtain ⟨e, _, _, hdoc, hcursor, hdraft⟩ := exists_root_of_no_header options file lexemes hnone
    rw [hcursor, hdraft]
    refine ⟨⟨rfl, .inl (Builder.arena_push_of_empty rfl rfl e), ?_⟩, .refl _, Nat.zero_le _⟩
    refine ⟨_, .single (.root rfl rfl hnone), ⟨?_, rfl, rfl, ?_⟩, rfl, rfl, Nat.zero_le _⟩
    · exact (Builder.size_insert (initial options file lexemes).draft.builder e).symm
    · exact (accounts_initial options file lexemes).push hdoc

variable {options file lexemes}

theorem Reachable.reaches {s : State} (h : Reachable options file lexemes s) :
    (Cursor.ofLexemes lexemes).Reaches s.cursor :=
  (PascalOutline.Acts.grows ((acts_root options file lexemes).trans h.acts)).2

/-- A course leads to every state. -/
theorem Reachable.bookedAt {s : State} (h : Reachable options file lexemes s) :
    s.draft.BookedAt options lexemes {} s.cursor :=
  h.tracks.steps.booked (tracks_root options options file lexemes).stands
    (bookedAt_root options file lexemes)

/-- Every course goes on with a step. -/
theorem Reachable.bookedAt_step {s : State} (h : Reachable options file lexemes s)
    (hcontinues : ¬ s.Finished) {before : Register}
    (hbooked : s.draft.BookedAt options lexemes before s.cursor) :
    s.step.draft.BookedAt options lexemes before s.step.cursor :=
  (h.steps_step hcontinues).booked h.tracks.stands hbooked

/-- After the documentation is finished, only events are noted. -/
theorem exists_draft_finish_eq (s : State) :
    ∃ events, s.finish.draft = { s.draft.finish s.cursor with events } := by
  unfold finish Draft.logIf
  dsimp only
  split
  · split <;> exact ⟨_, rfl⟩
  · split <;> exact ⟨_, rfl⟩

/-- Every course goes on to the end of the source. There everything was
    examined, and nothing waits. -/
theorem accounted_finish {s : State} {before : Register}
    (hbooked : s.draft.BookedAt options lexemes before s.cursor) (harena : s.draft.builder.Arena) :
    s.finish.draft.Accounted options lexemes before s.cursor.lexemeIndex none lexemes.length ∧
      s.finish.draft.examined = lexemes.length ∧ s.finish.draft.unexamined = [] ∧
      s.finish.draft.pending = none := by
  have hexamined := hbooked.examined_finish
  obtain ⟨hfinish, hpending⟩ := hbooked.booked.finish hexamined harena
  obtain ⟨events, hdraft⟩ := s.exists_draft_finish_eq
  rw [hdraft]
  refine ⟨?_, hexamined, ?_, hpending⟩
  · rw [← hexamined]
    exact hfinish.accounted.congr rfl rfl rfl rfl
  · show (s.draft.finish s.cursor).unexamined = []
    rw [hfinish.queue, hexamined, List.drop_length]

end Run

end State

/-- If nothing waits in a draft, no comment waits in its ledger. -/
theorem Ledger.Accounts.waiting_eq_nil {options : Options} {lexemes : List Lexeme}
    {ledger : Ledger} {count : Nat} {d : Draft} (h : ledger.Accounts options lexemes count d)
    (hpending : d.pending = none) : ledger.waiting = [] := by
  cases hwaiting : ledger.waiting using List.reverseRecOn with
  | nil => rfl
  | append_singleton places place =>
    obtain ⟨doc, hdoc, _⟩ := h.leads place (by simp [hwaiting])
    have hsome := h.pending
    rw [hpending, hwaiting, List.filterMap_append] at hsome
    simp [hdoc, Pending.ofDocs] at hsome

end PascalOutline
