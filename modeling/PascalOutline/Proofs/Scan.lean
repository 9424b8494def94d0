import PascalOutline.Proofs.Recognizer.Run
import PascalOutline.Scan

/-! # Well spanned outlines

  The entries of a scanned outline cover ranges of the source that fit
  together as the entries do: a child lies inside of its parent, siblings lie
  apart and in order, the root covers the whole source, and entries begin in
  the order of the arena.

  The ranges are right whenever the recognizer is between two steps, up to the
  entries that are still open (`State.Reachable.spans`). When the builder is
  finished, these end with the text.
-/

namespace PascalOutline

/-! ### Ranges while a source is read -/

namespace State

theorem Reachable.spans {options : Options} {file source : String} {nested : Bool} {s : State}
    (h : Reachable options file (Lexer.lex nested source) s) :
    s.cursor.Ordered source ∧ s.draft.builder.Spans source s.cursor.prevStop := by
  refine h.induct (motive := fun s => s.cursor.Ordered source ∧
    s.draft.builder.Spans source s.cursor.prevStop) ?_ ?_
  · -- In the root state only the root is there, and it is open.
    have hordered := ordered_ofLexemes nested source
    have hreaches := reaches_root options file (Lexer.lex nested source)
    obtain ⟨empty, e, hsize, hstack, hframe⟩ := onlyRoot_root options file (Lexer.lex nested source)
    refine ⟨hordered.of_reaches hreaches, ?_⟩
    have hstart : Location.start.Precedes
        (State.root options file (Lexer.lex nested source)).cursor.prevStop :=
      hordered.prevStop_precedes hreaches
    exact (Builder.spans_push_of_empty hsize hstack e hstart).of_sameFrame hframe
  · intro s t heffect ⟨hordered, hspans⟩
    exact ⟨hordered.of_reaches heffect.builds.reaches, hspans.of_builds heffect.builds hordered⟩

theorem sameFrame_finish (s : State) : s.draft.SameFrame s.finish.draft :=
  s.documents_finish.sameFrame

end State

/-! ### Finishing a builder -/

namespace Builder

/-- What is still open is closed at the end of the text, and the root covers
    all of it. -/
theorem spans_finish {b : Builder} {source : String} {p eof : Location} (h : b.Spans source p)
    (hp : p.Precedes eof) (heof : IsBoundary source eof.offset) :
    ∃ closed : Builder, closed.Spans source eof ∧ closed.stack = [0] ∧
      (b.finish eof).entries = (closed.stretchRoot eof).entries := by
  have hroot : b.withRoot = b := by
    unfold withRoot
    rw [if_pos h.arena.hasRoot]
  refine ⟨b.popTimes eof b.unclosed, (h.mono hp).popTimes heof _, ?_, ?_⟩
  · refine stack_popTimes h.arena eof ?_
    have hpos := List.length_pos_iff.mpr h.arena.stack_ne_nil
    unfold unclosed
    omega
  · -- The end of the text is not before its beginning, so it stays.
    have hmax : max eof .start = eof := (h.after_start.trans hp).max_eq_left
    unfold finish
    dsimp only
    rw [hroot, hmax]
    rfl

end Builder

/-! ### Well spanned outlines -/

/-- The ranges of an outline of a source fit together. Places are compared by
    line and column as well as by offset. -/
structure Outline.WellSpanned (source : String) (o : Outline) : Prop where
  /-- The root covers the source. -/
  root : o.root.start.offset = 0 ∧ o.root.stop.offset = source.utf8ByteSize
  /-- No entry ends before it begins. -/
  ordered : ∀ e ∈ o.entries, e.start.Precedes e.stop
  /-- Entries begin and end between characters. -/
  boundary : ∀ e ∈ o.entries, IsBoundary source e.start.offset ∧ IsBoundary source e.stop.offset
  /-- Every entry but the root is held by its parent. -/
  held : ∀ i e, o.get? i = some e → i ≠ 0 →
    ∃ p parent, e.parent = some p ∧ o.get? p = some parent ∧ e ∈ o.children p
  /-- A child lies inside of its parent. -/
  inside : ∀ i e child, o.get? i = some e → child ∈ o.children i →
    e.start.Precedes child.start ∧ child.stop.Precedes e.stop
  /-- Siblings lie apart and in order. -/
  apart : ∀ i, (o.children i).Pairwise fun e next => e.stop.Precedes next.start
  /-- Entries begin in the order of the arena. -/
  rising : ∀ i j e next, o.get? i = some e → o.get? j = some next → i ≠ 0 → i < j →
    e.start.offset < next.start.offset

namespace Outline

section Finished

variable {source : String} {closed : Builder} {eof : Location} {o : Outline}
  (hentries : o.entries = (closed.stretchRoot eof).entries)
include hentries

theorem links?_of_get? {i : EntryId} {e : Entry} (he : o.get? i = some e) :
    closed.links? i = some e.links := by
  rw [← closed.links?_stretchRoot eof, Builder.links?, Builder.entry?, ← hentries]
  exact congrArg (Option.map Entry.links) he

theorem exists_get? {i : EntryId} {l : Links} (hl : closed.links? i = some l) :
    ∃ e, o.get? i = some e ∧ e.links = l := by
  rw [← closed.links?_stretchRoot eof, Builder.links?, Builder.entry?, ← hentries] at hl
  exact Option.map_eq_some_iff.mp hl

/-- An entry is the root, which covers the text, or it has the ends that it
    had. -/
theorem ends_of_get? {i : EntryId} {e : Entry} (he : o.get? i = some e) :
    (i = 0 ∧ e.start = .start ∧ e.stop = eof) ∨ (i ≠ 0 ∧ closed.ends? i = some e.ends) := by
  have hends : (closed.stretchRoot eof).ends? i = some e.ends := by
    rw [Builder.ends?, Builder.entry?, ← hentries]
    exact congrArg (Option.map Entry.ends) he
  rw [Builder.ends?_stretchRoot] at hends
  by_cases hi : i = 0
  · rw [if_pos hi] at hends
    obtain ⟨_, _, hroot⟩ := Option.map_eq_some_iff.mp hends
    obtain ⟨hstart, hstop⟩ := Prod.mk.inj hroot
    exact Or.inl ⟨hi, hstart.symm, hstop.symm⟩
  · rw [if_neg hi] at hends
    exact Or.inr ⟨hi, hends⟩

omit hentries in
theorem mem_children_iff {i : EntryId} {e child : Entry} (he : o.get? i = some e) :
    child ∈ o.children i ↔ ∃ k ∈ e.children, o.get? k = some child := by
  rw [children, he]
  show child ∈ e.children.toList.filterMap o.get? ↔ _
  rw [List.mem_filterMap]
  simp only [Array.mem_toList_iff]

theorem wellSpanned_of_spans (h : closed.Spans source eof) (hstack : closed.stack = [0])
    (heof : eof.offset = source.utf8ByteSize) (hboundary : IsBoundary source eof.offset) :
    o.WellSpanned source := by
  have hclosed : ∀ i, i ≠ 0 → i ∉ closed.stack := by
    intro i hi
    rw [hstack, List.mem_singleton]
    exact hi
  have hsome : ∀ e ∈ o.entries, ∃ i, o.get? i = some e := by
    intro e he
    exact Array.mem_iff_getElem?.mp he
  constructor
  case root =>
    have hroot : o.get? 0 = some o.root := Array.getElem?_eq_getElem o.nonempty
    rcases ends_of_get? hentries hroot with ⟨_, hstart, hstop⟩ | ⟨hne, _⟩
    · rw [hstart, hstop]
      exact ⟨rfl, heof⟩
    · exact absurd rfl hne
  case ordered =>
    intro e he
    obtain ⟨i, hi⟩ := hsome e he
    rcases ends_of_get? hentries hi with ⟨_, hstart, hstop⟩ | ⟨hne, hends⟩
    · rw [hstart, hstop]
      exact h.after_start
    · exact (h.ended i e.ends hends (hclosed i hne)).1
  case boundary =>
    intro e he
    obtain ⟨i, hi⟩ := hsome e he
    rcases ends_of_get? hentries hi with ⟨_, hstart, hstop⟩ | ⟨hne, hends⟩
    · rw [hstart, hstop]
      exact ⟨Cursor.isBoundary_zero source, hboundary⟩
    · obtain ⟨_, _, _, hstart⟩ := h.begun i e.ends hends hne
      exact ⟨hstart, (h.ended i e.ends hends (hclosed i hne)).2.2⟩
  case held =>
    intro i e he hi
    obtain ⟨p, m, hparent, _, hm, hmem⟩ := h.arena.parent i _ (links?_of_get? hentries he) hi
    obtain ⟨parent, hp, rfl⟩ := exists_get? hentries hm
    exact ⟨p, parent, hparent, hp, (mem_children_iff hp).mpr ⟨i, hmem, he⟩⟩
  case inside =>
    intro i e child he hchild
    obtain ⟨k, hk, hkchild⟩ := (mem_children_iff he).mp hchild
    have hlinks := links?_of_get? hentries he
    have hik := (h.arena.child i _ k hlinks hk).1
    rcases ends_of_get? hentries hkchild with ⟨rfl, _⟩ | ⟨hne, hends⟩
    · exact absurd hik (Nat.not_lt_zero i)
    · rcases ends_of_get? hentries he with ⟨_, hstart, hstop⟩ | ⟨hi, hiends⟩
      · -- The root was open until the end, so its children say nothing of it;
        -- it covers the text in which all entries lie.
        rw [hstart, hstop]
        exact ⟨(h.begun k child.ends hends hne).1, (h.ended k child.ends hends (hclosed k hne)).2.1⟩
      · -- The child was made later, hence begins later, and its parent is closed.
        have hstart := (h.rising i k e.ends child.ends hiends hends hi hik).1
        have hstop := h.inside i _ k e.ends child.ends hlinks hk hiends hends (hclosed i hi)
        exact ⟨hstart, hstop⟩
  case apart =>
    intro i
    unfold children
    cases he : o.get? i with
    | none => exact .nil
    | some e =>
      have hlinks := links?_of_get? hentries he
      show (e.children.toList.filterMap o.get?).Pairwise _
      rw [List.pairwise_filterMap]
      refine (h.arena.sorted i _ hlinks).imp_of_mem ?_
      intro j k hj hk hjk child hchild next hnext
      have hj := Array.mem_toList_iff.mp hj
      have hk := Array.mem_toList_iff.mp hk
      rcases ends_of_get? hentries hchild with ⟨rfl, _⟩ | ⟨_, hjends⟩
      · exact absurd (h.arena.child i _ 0 hlinks hj).1 (Nat.not_lt_zero i)
      · rcases ends_of_get? hentries hnext with ⟨rfl, _⟩ | ⟨_, hkends⟩
        · exact absurd hjk (Nat.not_lt_zero j)
        · exact h.apart i _ j k child.ends next.ends hlinks hj hk hjends hkends hjk
  case rising =>
    intro i j e next he hnext hi hij
    rcases ends_of_get? hentries he with ⟨hzero, _⟩ | ⟨_, hiends⟩
    · exact absurd hzero hi
    · rcases ends_of_get? hentries hnext with ⟨rfl, _⟩ | ⟨_, hjends⟩
      · exact absurd hij (Nat.not_lt_zero i)
      · exact (h.rising i j e.ends next.ends hiends hjends hi hij).2

end Finished

end Outline

/-- Every scan gives a well spanned outline, whatever the source. -/
theorem wellSpanned_scan (options : Options) (file source : String) :
    (scan options file source).outline.WellSpanned source := by
  have hreachable := State.reachable_run options file (Lexer.lex options.nestedComments source)
  obtain ⟨hordered, hspans⟩ := hreachable.spans
  have hfinished := hspans.of_sameFrame (State.sameFrame_finish _)
  obtain ⟨closed, hclosed, hstack, hentries⟩ :=
    Builder.spans_finish hfinished hordered.prevStop_precedes_eof hordered.isBoundary_eof
  exact Outline.wellSpanned_of_spans hentries hclosed hstack hordered.eof hordered.isBoundary_eof

end PascalOutline
