import PascalOutline.Proofs.Documentation.Attendance

/-! # Trailing documentation goes to the item before it

  A documentation comment that begins on the line on which an item ended, with
  no code between them, is a piece of the documentation of that item. What
  trails the last value of an enumeration belongs to the enumeration instead:
  its comments are examined when the enumeration is complete, as comments
  inside of it.
-/

namespace PascalOutline

/-- An entry is the last value of an enumeration. -/
def Outline.LastValue (o : Outline) (i t : EntryId) : Prop :=
  ∃ e ∈ o.get? t, e.kind = .type_ ∧ e.children.back? = some i

instance (o : Outline) (i t : EntryId) : Decidable (o.LastValue i t) :=
  inferInstanceAs (Decidable (∃ e ∈ o.get? t, _))

/-! ### The finished outline -/

namespace State

variable (options : Options) (file source : String)

theorem attendsAt_root :
    (root options file (Lexer.lex options.nestedComments source)).draft.AttendsAt options
      (Lexer.lex options.nestedComments source)
      (root options file (Lexer.lex options.nestedComments source)).site := by
  generalize Lexer.lex options.nestedComments source = lexemes
  have hstands := standsAt_root options file lexemes
  have hbooked := bookedAt_root options file lexemes
  have hopened : (root options file lexemes).site.opened = [(0, .module)] :=
    opened_of_blocks (blocks_root options file lexemes)
  -- The root is the only entry, and it is open.
  have honly : ∀ {i : EntryId},
      i < (root options file lexemes).draft.builder.entries.size → i = 0 := by
    intro i hi
    have hsize : (root options file lexemes).draft.builder.entries.size = 1 :=
      nextId_root options file lexemes
    rw [hsize] at hi
    exact Nat.lt_one_iff.mp hi
  have hno : ∀ i stop, ¬ (root options file lexemes).draft.builder.ItemEnds i stop := by
    rintro i stop ⟨x, hx, _⟩
    obtain rfl := honly (Builder.lt_size_of_profile? (Builder.views_of_closed? hx).1)
    exact Builder.not_open_of_closed? hx hstands.arena.root_open
  constructor
  case stands => exact hstands
  case booked => exact hbooked
  case before =>
    constructor
    · intro i x hx hi
      exact absurd (honly (Builder.lt_of_ends? hx)) hi
    · intro i x hx hi
      obtain rfl := honly (Builder.lt_of_ends? hx)
      exact absurd hstands.arena.root_open hi
  case attends =>
    exact ⟨hbooked.booked.accounted.reads, fun i stop hitem => absurd hitem (hno i stop),
      fun i stop _ _ _ hitem => absurd hitem (hno i stop)⟩
  case inner =>
    rw [hopened]
    exact List.forall_mem_nil _
  case awaits =>
    intro t rest heq
    rw [hopened] at heq
    cases heq

theorem attendsAt_run :
    (root options file (Lexer.lex options.nestedComments source)).run.draft.AttendsAt options
      (Lexer.lex options.nestedComments source)
      (root options file (Lexer.lex options.nestedComments source)).run.site := by
  have htracks := tracks_run options options file (Lexer.lex options.nestedComments source)
  exact htracks.steps.attends (inOrder_lex _ source) (ordered_ofLexemes _ source)
    (attendsAt_root options file source)

/-- Every comment of the source was examined, and items are not open. -/
theorem attended_ofSource :
    let lexemes := Lexer.lex options.nestedComments source
    let b := (ofSource options file lexemes).draft.builder
    b.Attended options lexemes lexemes.length (fun _ _ => False) ∧
      ∀ i q, b.profile? i = some q → q.IsItem → i ∉ b.stack := by
  intro lexemes b
  let s := (root options file lexemes).run
  have hat : s.draft.AttendsAt options lexemes s.site := attendsAt_run options file source
  have hdocs : s.draft.builder.Documents b := documents_finish s
  have hnumbered := hat.booked.numbered
  constructor
  · obtain ⟨events, hdraft⟩ := s.exists_draft_finish_eq
    have hfinish := hat.attends.finish (c := s.cursor) (inOrder_lex _ source) hat.rest
      hnumbered.lexemeCount (Nat.le_trans hat.booked.behind hnumbered.lexemeIndex_le)
    have hbuilder : b = (s.draft.finish s.cursor).builder := by
      show s.finish.draft.builder = _
      rw [hdraft]
    rw [hbuilder]
    exact hfinish
  · intro i q hq hitem
    rw [hdocs.profile?_eq] at hq
    rw [hdocs.sameFrame.stack]
    exact hat.not_open_of_isItem s.still_site hq hitem

end State

section Finished

variable {b : Builder} (harena : b.Arena)
  (hclosed : ∀ i q, b.profile? i = some q → q.IsItem → i ∉ b.stack) (eof : Location)
include harena hclosed

/-- The end of the source changes no item. -/
theorem Builder.closed?_of_get?_finish {i : EntryId} {e : Entry}
    (he : (b.finish eof).get? i = some e) (hitem : e.profile.IsItem) :
    b.closed? i = some ⟨e.profile, e.links, e.ends⟩ := by
  have hroot := harena.hasRoot
  have hprofile : b.profile? i = some e.profile := by
    rw [← profile?_of_get?_finish hroot eof, he]
    rfl
  have hi := hclosed i e.profile hprofile hitem
  have hne : i ≠ 0 := fun hzero => hi (hzero ▸ harena.root_open)
  rw [get?_finish hroot, if_neg hne, entry?_popTimes harena hi] at he
  simp [closed?, hi, he]

theorem Builder.lastValue_finish_iff (i t : EntryId) :
    (b.finish eof).LastValue i t ↔ b.LastValue i t := by
  constructor
  · rintro ⟨e, he, hkind, hback⟩
    have hitem : e.profile.IsItem := .inr (by
      show e.kind.isItem = true
      rw [hkind]
      rfl)
    exact ⟨_, b.closed?_of_get?_finish harena hclosed eof he hitem, hkind, hback⟩
  · rintro ⟨x, hx, hkind, hback⟩
    have hopen := not_open_of_closed? hx
    have hne : t ≠ 0 := fun hzero => hopen (hzero ▸ harena.root_open)
    rw [closed?, if_neg hopen] at hx
    obtain ⟨e, he, rfl⟩ := Option.map_eq_some_iff.mp hx
    refine ⟨e, ?_, hkind, hback⟩
    rw [get?_finish harena.hasRoot, if_neg hne, entry?_popTimes harena hopen]
    exact he

end Finished

/-- A documentation comment that begins behind an item on the line on which the
    item ended, with no code between them, is a piece of its documentation. If
    the item is the last value of an enumeration, the comment is a piece of the
    documentation of the enumeration instead. -/
theorem isPiece_of_trails (options : Options) (file source : String) :
    let lexemes := Lexer.lex options.nestedComments source
    let outline := (scan options file source).outline
    ∀ i e place doc, outline.get? i = some e → e.profile.IsItem →
      Trails options lexemes e.stop place doc →
        ((∀ t, ¬ outline.LastValue i t) → IsPiece doc.text e.doc) ∧
          ∀ t enumeration, outline.LastValue i t → outline.get? t = some enumeration →
            IsPiece doc.text enumeration.doc := by
  intro lexemes outline i e place doc he hitem htrails
  obtain ⟨hattended, hclosed⟩ := State.attended_ofSource options file source
  have harena := (State.reachable_run options file lexemes).agrees.arena.of_sameFrame
    (State.documents_finish _).sameFrame
  have hroot := harena.hasRoot
  let s := State.ofSource options file lexemes
  have hlast := s.draft.builder.lastValue_finish_iff harena hclosed s.cursor.eof i
  have hends : s.draft.builder.ItemEnds i e.stop :=
    ⟨_, s.draft.builder.closed?_of_get?_finish harena hclosed s.cursor.eof he hitem, hitem, rfl⟩
  have hpiece : ∀ {o target}, s.draft.builder.Recipient i o → outline.get? o = some target →
      IsPiece doc.text target.doc := by
    intro o target ho htarget
    have hdoc : target.doc = s.draft.builder.docOf o := Builder.doc_of_get?_finish hroot htarget
    rw [hdoc]
    exact (hattended i e.stop o place doc hends ho htrails).1 htrails.lt_length
  constructor
  · intro hno
    exact hpiece (.inr ⟨rfl, fun t ht => hno t ((hlast t).mpr ht)⟩) he
  · intro t enumeration hvalue henumeration
    exact hpiece (.inl ((hlast t).mp hvalue)) henumeration

/-- A comment behind each value of an enumeration: the first one belongs to its
    value, the last one to the enumeration. -/
theorem isPiece_of_trails_enumeration :
    let source := "type T = (A, \x7ba\x7d B \x7bb\x7d);"
    let lexemes := Lexer.lex false source
    let outline := (scan {} "u.pas" source).outline
    let first : Entry :=
      { id := 2, kind := .enumValue, name := "A", signature := "A", doc := "a", file := "u.pas"
        start := ⟨1, 11, 10⟩, stop := ⟨1, 13, 12⟩, parent := some 1 }
    let last : Entry :=
      { id := 3, kind := .enumValue, name := "B", signature := "B", file := "u.pas"
        start := ⟨1, 18, 17⟩, stop := ⟨1, 19, 18⟩, parent := some 1 }
    (outline.get? 2 = some first ∧ first.profile.IsItem ∧
        Trails {} lexemes first.stop 10 ⟨"a", false, ⟨14, 15⟩, 1, 1⟩ ∧
        (∀ t, ¬ outline.LastValue 2 t) ∧ IsPiece "a" first.doc) ∧
      outline.get? 3 = some last ∧ Trails {} lexemes last.stop 14 ⟨"b", false, ⟨20, 21⟩, 1, 1⟩ ∧
        outline.LastValue 3 1 ∧ ∃ enumeration, outline.get? 1 = some enumeration ∧
          enumeration.doc = "b" ∧ IsPiece "b" enumeration.doc := by
  intro source lexemes outline first last
  have hfirst : outline.get? 2 = some first := by decide +kernel
  have hlast : outline.get? 3 = some last := by decide +kernel
  have htrailsFirst : Trails {} lexemes first.stop 10 ⟨"a", false, ⟨14, 15⟩, 1, 1⟩ := by
    decide +kernel
  have htrailsLast : Trails {} lexemes last.stop 14 ⟨"b", false, ⟨20, 21⟩, 1, 1⟩ := by
    decide +kernel
  have hno : ∀ t, ¬ outline.LastValue 2 t := by
    have hsmall : ∀ t < outline.size, ¬ outline.LastValue 2 t := by decide +kernel
    intro t ht
    have hlt : t < outline.size := by
      obtain ⟨q, hq, _⟩ := ht
      exact (Array.getElem?_eq_some_iff.mp hq).1
    exact hsmall t hlt ht
  have hvalue : outline.LastValue 3 1 := by decide +kernel
  have hdoc : (outline.get? 1).map Entry.doc = some "b" := by decide +kernel
  obtain ⟨enumeration, henumeration, hb⟩ := Option.map_eq_some_iff.mp hdoc
  have hA := isPiece_of_trails {} "u.pas" source 2 first 10 _ hfirst (by decide) htrailsFirst
  have hB := isPiece_of_trails {} "u.pas" source 3 last 14 _ hlast (by decide) htrailsLast
  exact ⟨⟨hfirst, by decide, htrailsFirst, hno, hA.1 hno⟩, hlast, htrailsLast, hvalue, enumeration,
    henumeration, hb, hB.2 1 enumeration hvalue henumeration⟩

/-- The comment after the last value of an enumeration is no piece of the
    documentation of this value. -/
theorem not_isPiece_of_trails_last_value :
    let source := "type T = (A \x7bx\x7d);"
    let e : Entry :=
      { id := 2, kind := .enumValue, name := "A", signature := "A", file := "x.pas"
        start := ⟨1, 11, 10⟩, stop := ⟨1, 12, 11⟩, parent := some 1 }
    let doc : DocComment := ⟨"x", false, ⟨13, 14⟩, 1, 1⟩
    (scan {} "x.pas" source).outline.get? 2 = some e ∧ e.profile.IsItem ∧
      Trails {} (Lexer.lex false source) e.stop 9 doc ∧ ¬ IsPiece doc.text e.doc := by
  intro source e doc
  refine ⟨by decide +kernel, by decide, by decide +kernel, ?_⟩
  intro hpiece
  exact absurd (eq_empty_of_isPiece_empty hpiece) (by decide)

end PascalOutline
