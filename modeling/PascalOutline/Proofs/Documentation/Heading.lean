import PascalOutline.Proofs.Documentation.Gap
import PascalOutline.Recognizer.Run

/-! # Documentation before a module header

  Before there is an entry, documentation that is too far from what follows
  has nowhere to go. `PartedFromHeader` tells from the lexemes which comments
  these are. `Draft.Opening` says that no other comment gets lost, from one
  lexeme before the header to the next.
-/

namespace PascalOutline

section Gaps

variable (options : Options) (lexemes : List Lexeme)

/-- At a place stands code, or a comment that documents what follows it. -/
def StandsOut (place : Nat) : Prop :=
  (∃ l, lexemes[place]? = some l ∧ l.isTrivia = false) ∨ Leads options lexemes place

/-- More blank lines than a limit allows lie after the comment at a place,
    before the next lexeme that stands out. -/
def GapAfter (limit place : Nat) : Prop :=
  ∃ next doc l, place < next ∧ (∀ k, place < k → k < next → ¬ StandsOut options lexemes k) ∧
    StandsOut options lexemes next ∧ lexemes[next]? = some l ∧
    docAt? options lexemes place = some doc ∧ doc.trailing = false ∧
    limit < l.start.line - (doc.lastLine + 1)

/-- A gap parts the comment at a place from what stands behind the first `count`
    lexemes: it lies after this comment or after a later one. -/
def PartedFrom (count limit place : Nat) : Prop :=
  ∃ later, place ≤ later ∧ later < count ∧ GapAfter options lexemes limit later

/-- The comment at a place stands before a module header, and a gap parts it from
    the header. -/
def PartedFromHeader (limit place : Nat) : Prop :=
  (State.moduleKind? (Cursor.ofLexemes lexemes)).isSome = true ∧
    PartedFrom options lexemes (Cursor.ofLexemes lexemes).lexemeIndex limit place

end Gaps

/-- What waits in a draft ends with the last comment that waits in its ledger. -/
theorem Ledger.Accounts.exists_last {options : Options} {lexemes : List Lexeme} {ledger : Ledger}
    {count : Nat} {d : Draft} (h : ledger.Accounts options lexemes count d) {p : Pending}
    (hpending : d.pending = some p) :
    ∃ first last doc, ledger.waiting = first ++ [last] ∧ last < count ∧
      docAt? options lexemes last = some doc ∧ doc.trailing = false ∧
        p.lastLine = doc.lastLine := by
  rcases List.eq_nil_or_concat ledger.waiting with hnil | ⟨first, last, hsplit⟩
  · have hnone := h.pending
    rw [hnil, hpending] at hnone
    cases hnone
  · rw [List.concat_eq_append] at hsplit
    have hmem : last ∈ ledger.waiting := by
      rw [hsplit]
      exact List.mem_append_right _ List.mem_cons_self
    obtain ⟨doc, hdoc, hleads⟩ := h.leads last hmem
    refine ⟨first, last, doc, hsplit, ?_, hdoc, hleads, ?_⟩
    · exact lt_of_mem_docPlaces options lexemes (h.once.subset (List.mem_append_right _ hmem))
    · have hlast := h.pending
      have hdocs : [last].filterMap (docAt? options lexemes) = [doc] := by simp [hdoc]
      rw [hsplit, List.filterMap_append, hdocs, Pending.ofDocs_append, hpending] at hlast
      obtain rfl := Option.some.inj hlast
      cases Pending.ofDocs (first.filterMap (docAt? options lexemes)) <;> rfl

/-- The comments before a place that document what follows wait, except for
    those that a gap parts from it; the last one of them waits last. -/
structure HeldBack (options : Options) (lexemes : List Lexeme) (limit count : Nat)
    (waiting : List Nat) : Prop where
  /-- Only a gap keeps a comment from waiting. -/
  spared : ∀ place < count, Leads options lexemes place →
    place ∈ waiting ∨ PartedFrom options lexemes count limit place
  /-- After the last comment that waits there is none. -/
  last : ∀ place < count, Leads options lexemes place →
    ∃ first last, waiting = first ++ [last] ∧ place ≤ last

section HeldBack

variable {options : Options} {lexemes : List Lexeme} {limit count : Nat} {waiting : List Nat}

theorem PartedFrom.succ {place : Nat} (h : PartedFrom options lexemes count limit place) :
    PartedFrom options lexemes (count + 1) limit place := by
  obtain ⟨later, hle, hlt, hgap⟩ := h
  exact ⟨later, hle, Nat.lt_succ_of_lt hlt, hgap⟩

/-- The next lexeme does not document what follows. -/
theorem HeldBack.pass (h : HeldBack options lexemes limit count waiting)
    (hno : ¬ Leads options lexemes count) : HeldBack options lexemes limit (count + 1) waiting := by
  have hbefore {place : Nat} (hplace : place < count + 1) (hleads : Leads options lexemes place) :
      place < count := by
    rcases Nat.lt_or_eq_of_le (Nat.le_of_lt_succ hplace) with hlt | rfl
    · exact hlt
    · exact absurd hleads hno
  constructor
  · intro place hplace hleads
    exact (h.spared place (hbefore hplace hleads) hleads).imp_right .succ
  · intro place hplace hleads
    exact h.last place (hbefore hplace hleads) hleads

/-- The next comment waits too. -/
theorem HeldBack.keep
    (hspared : ∀ place < count, Leads options lexemes place →
      place ∈ waiting ∨ PartedFrom options lexemes count limit place) :
    HeldBack options lexemes limit (count + 1) (waiting ++ [count]) := by
  constructor
  · intro place hplace hleads
    rcases Nat.lt_or_eq_of_le (Nat.le_of_lt_succ hplace) with hlt | rfl
    · exact (hspared place hlt hleads).imp (List.mem_append_left _) .succ
    · exact .inl (List.mem_append_right _ List.mem_cons_self)
  · intro place hplace _
    exact ⟨waiting, count, rfl, Nat.le_of_lt_succ hplace⟩

end HeldBack

namespace Draft

/-- Before the first entry of a source. -/
structure Opening (options : Options) (limit : Nat) (lexemes : List Lexeme) (count : Nat)
    (d : Draft) : Prop where
  /-- Comments wait as long as no gap comes after them. -/
  books : ∃ ledger : Ledger, ledger.Accounts (options.within limit) lexemes count d ∧
    HeldBack options lexemes limit count ledger.waiting
  /-- No entry is open. -/
  stack : d.builder.stack = []
  /-- No item came before. -/
  lastItem : d.lastItem = none

theorem builder_handTo_nil (d : Draft) : (d.handTo []).builder = d.builder := by
  unfold handTo
  split <;> rfl

namespace Opening

variable {options : Options} {limit : Nat} {lexemes : List Lexeme} {count : Nat} {d : Draft}

/-- What is too far from the next lexeme that stands out is parted from it. -/
theorem handFar (h : Opening options limit lexemes count d)
    (htrivia : ∀ k < count, ∀ l, lexemes[k]? = some l → l.isTrivia = true) {l : Lexeme}
    (hl : lexemes[count]? = some l) (hout : StandsOut options lexemes count) :
    (∃ ledger : Ledger,
      ledger.Accounts (options.within limit) lexemes count (d.handFar l.start.line) ∧
        ∀ place < count, Leads options lexemes place →
          place ∈ ledger.waiting ∨ PartedFrom options lexemes count limit place) ∧
      (d.handFar l.start.line).builder = d.builder ∧
      (d.handFar l.start.line).lastItem = none := by
  obtain ⟨⟨ledger, haccounts, hheld⟩, hstack, hitem⟩ := h
  unfold Draft.handFar
  split
  · next hfar =>
    obtain ⟨p, hpending, hexceeds⟩ := (Option.any_eq_true _ _).mp hfar
    rw [exceedsGap, haccounts.reads] at hexceeds
    have horphanage : d.orphanage = [] := by
      unfold orphanage Builder.top?
      rw [hstack]
      rfl
    rw [horphanage]
    refine ⟨⟨ledger.handOver [], haccounts.handTo .nil, ?_⟩, d.builder_handTo_nil,
      (d.lastItem_handTo []).trans hitem⟩
    intro place hplace hleads
    rcases hheld.spared place hplace hleads with hwaiting | hparted
    · -- The gap is the one after the last comment that waited.
      obtain ⟨first, last, doc, hsplit, hlt, hdoc, htrailing, hline⟩ :=
        haccounts.exists_last hpending
      have hsorted := haccounts.sorted
      rw [hsplit] at hwaiting hsorted
      refine .inr ⟨last, ?_, hlt, count, doc, l, hlt, ?_, hout, hl, hdoc, htrailing, ?_⟩
      · rcases List.mem_append.mp hwaiting with hfirst | hmem
        · exact Nat.le_of_lt ((List.pairwise_append.mp hsorted).2.2 place hfirst last
            List.mem_cons_self)
        · exact Nat.le_of_eq (List.mem_singleton.mp hmem)
      · rintro k hk hkcount (⟨m, hm, hcode⟩ | hleadsk)
        · rw [htrivia k hkcount m hm] at hcode
          cases hcode
        · obtain ⟨first', last', hsplit', hle⟩ := hheld.last k hkcount hleadsk
          have hsame := (List.append_inj' (hsplit.symm.trans hsplit') rfl).2
          obtain rfl := List.singleton_inj.mp hsame
          exact absurd hk (Nat.not_lt.mpr hle)
      · rw [← hline]
        exact of_decide_eq_true hexceeds
    · exact .inr hparted
  · exact ⟨⟨ledger, haccounts, hheld.spared⟩, rfl, hitem⟩

theorem hold (h : Opening options limit lexemes count d)
    (htrivia : ∀ k < count, ∀ l, lexemes[k]? = some l → l.isTrivia = true) {l : Lexeme}
    (hl : lexemes[count]? = some l) {doc : DocComment}
    (hread : DocComment.ofLexeme? options l = some doc) (hleads : doc.trailing = false) :
    Opening options limit lexemes (count + 1) (d.hold doc) := by
  have hdoc := (docAt?_of_getElem? options hl).trans hread
  obtain ⟨⟨ledger, haccounts, hspared⟩, hbuilder, hitem⟩ :=
    h.handFar htrivia hl (.inr ⟨doc, hdoc, hleads⟩)
  rw [hold_eq, (DocComment.line_of_ofLexeme? hread).1]
  exact ⟨⟨ledger.keep count, haccounts.keep hdoc hleads, .keep hspared⟩,
    (congrArg Builder.stack hbuilder).trans h.stack, hitem⟩

/-- One more lexeme before the first token. -/
theorem examine (h : Opening options limit lexemes count d)
    (htrivia : ∀ k < count + 1, ∀ l, lexemes[k]? = some l → l.isTrivia = true) {l : Lexeme}
    (hl : lexemes[count]? = some l) : Opening options limit lexemes (count + 1) (d.examine l) := by
  have hdoc := docAt?_of_getElem? options hl
  have hbefore : ∀ k < count, ∀ l, lexemes[k]? = some l → l.isTrivia = true :=
    fun k hk => htrivia k (Nat.lt_succ_of_lt hk)
  obtain ⟨ledger, haccounts, hheld⟩ := h.books
  unfold Draft.examine
  rw [if_pos (htrivia count (Nat.lt_succ_self _) l hl), haccounts.reads]
  show Opening options limit lexemes (count + 1)
    (((DocComment.ofLexeme? options l).map d.takeUp).getD d)
  cases hread : DocComment.ofLexeme? options l with
  | none =>
    have hno : ¬ Leads options lexemes count := by
      rintro ⟨doc, hsome, _⟩
      rw [hdoc, hread] at hsome
      cases hsome
    exact ⟨⟨ledger, haccounts.skip (hdoc.trans hread), hheld.pass hno⟩, h.stack, h.lastItem⟩
  | some doc =>
    show Opening options limit lexemes (count + 1) (d.takeUp doc)
    unfold Draft.takeUp
    rw [h.lastItem]
    dsimp only
    split
    · next htrailing =>
      have hno : ¬ Leads options lexemes count := by
        rintro ⟨doc', hsome, hleads⟩
        rw [hdoc, hread] at hsome
        obtain rfl := Option.some.inj hsome
        rw [htrailing] at hleads
        cases hleads
      have hregular : Delivery.Regular (options.within limit) lexemes ⟨[count], .dropped, []⟩ :=
        ⟨rfl, count, doc, rfl, hdoc.trans hread, htrailing⟩
      have hgiven := haccounts.give (hdoc.trans hread) hregular .nil
      exact ⟨⟨_, hgiven.congr rfl rfl rfl fun _ hitem => hitem, hheld.pass hno⟩, h.stack,
        h.lastItem⟩
    · next htrails => exact h.hold hbefore hl hread (Bool.not_eq_true _ ▸ htrails)

/-- Everything before the first token was examined. -/
theorem sync (h : Opening options limit lexemes 0 d) (hexamined : d.examined = 0)
    (hqueue : d.unexamined = lexemes) :
    Opening options limit lexemes (Cursor.ofLexemes lexemes).lexemeIndex
      (d.sync (Cursor.ofLexemes lexemes)) := by
  have hd : d.unexamined = lexemes.drop d.examined := by rw [hexamined, hqueue, List.drop_zero]
  have hend := examined_examineTo sameQueue_examine hd (Cursor.ofLexemes lexemes).lexemeIndex
  have hle := (Cursor.numbered_ofLexemes lexemes).lexemeIndex_le
  have hall := examineTo_induct (motive := fun n d =>
      n ≤ (Cursor.ofLexemes lexemes).lexemeIndex → Opening options limit lexemes n d)
    sameQueue_examine hd
    (fun n u l hl hu hn => (hu (Nat.le_of_succ_le hn)).examine
      (fun k hk m hm => Cursor.isTrivia_of_lt_lexemeIndex hm (Nat.lt_of_lt_of_le hk hn)) hl)
    (fun unexamined examined _ => by
      rw [hexamined]
      obtain ⟨⟨ledger, haccounts, hheld⟩, hstack, hitem⟩ := h
      exact ⟨⟨ledger, haccounts.congr rfl rfl rfl fun _ hitem => hitem, hheld⟩, hstack, hitem⟩)
    (Cursor.ofLexemes lexemes).lexemeIndex
  rw [hend, hexamined] at hall
  have hcount : max 0 (min (Cursor.ofLexemes lexemes).lexemeIndex lexemes.length)
      = (Cursor.ofLexemes lexemes).lexemeIndex := by omega
  rw [hcount] at hall
  exact hall (Nat.le_refl _)

/-- Only a gap keeps a comment from waiting for a module header. -/
theorem ready (h : Opening options limit lexemes (Cursor.ofLexemes lexemes).lexemeIndex
      (d.sync (Cursor.ofLexemes lexemes)))
    (hheader : (State.moduleKind? (Cursor.ofLexemes lexemes)).isSome = true) :
    ∃ ledger : Ledger,
      ledger.Accounts (options.within limit) lexemes (Cursor.ofLexemes lexemes).lexemeIndex
          (d.ready (Cursor.ofLexemes lexemes)) ∧
        ∀ place < (Cursor.ofLexemes lexemes).lexemeIndex, Leads options lexemes place →
          place ∈ ledger.waiting ∨ PartedFromHeader options lexemes limit place := by
  obtain ⟨t, hpeek⟩ := State.exists_peek?_of_moduleKind? hheader
  have hindex : (Cursor.ofLexemes lexemes).lexemeIndex = t.index := by
    rw [Cursor.lexemeIndex, hpeek]
    rfl
  obtain ⟨hl, hcode⟩ :=
    (Cursor.Reaches.refl (Cursor.ofLexemes lexemes)).getElem?_index
      (Cursor.mem_tokens_of_peek? hpeek)
  rw [← hindex] at hl
  obtain ⟨⟨ledger, haccounts, hspared⟩, _, _⟩ :=
    h.handFar (fun k hk m hm => Cursor.isTrivia_of_lt_lexemeIndex hm hk) hl (.inl ⟨_, hl, hcode⟩)
  have hready : d.ready (Cursor.ofLexemes lexemes)
      = (d.sync (Cursor.ofLexemes lexemes)).handFar t.lexeme.start.line := by
    have hsame : ({ d.sync (Cursor.ofLexemes lexemes) with lastItem := none } : Draft)
        = d.sync (Cursor.ofLexemes lexemes) := by
      rw [← h.lastItem]
    rw [Draft.ready, hsame, Cursor.location_eq_of_peek? hpeek]
    rfl
  rw [hready]
  exact ⟨ledger, haccounts, fun place hplace hleads =>
    (hspared place hplace hleads).imp_right fun hparted => ⟨hheader, hparted⟩⟩

end Opening

end Draft

end PascalOutline
