import PascalOutline.Proofs.Correspondence.Recognizer
import PascalOutline.Proofs.Token.Alike

/-! # States that go the same way

  Two states are *alike* when the same code lies ahead of them, their outlines
  are equal when bare, the same blocks are open and the same problems were
  found. Nothing is said of documentation and of locations. This is what a
  correspondence says of two readings of the same code, so whatever function
  of the recognizer is applied to states that are alike, they stay alike: two
  runs from such states go through the same steps.
-/

namespace PascalOutline

open Correspondence (sameCode)

/-! ### Entries and outlines -/

namespace Entry

theorem respell_text_sameCode (e : Entry) : e.respell sameCode.text = e := by
  simp [respell, sameCode]

/-- Entries of the same code differ at most in documentation and locations. -/
theorem corresponds_sameCode_iff {e e' : Entry} :
    e.Corresponds sameCode e' ↔ e.bare = e'.bare := by
  constructor
  · intro h
    rw [h.texts, respell_text_sameCode]
  · intro hbare
    refine ⟨?_, trivial, trivial, fun hdocs => hdocs.elim⟩
    rw [← hbare, respell_text_sameCode]

theorem rel_corresponds_sameCode_iff {e e' : Option Entry} :
    Option.Rel (Corresponds sameCode) e e' ↔ e.map Entry.bare = e'.map Entry.bare := by
  cases e <;> cases e' <;> simp [corresponds_sameCode_iff]

end Entry

namespace Builder

variable {b b' : Builder}

theorem entry?_bare (b : Builder) (id : EntryId) :
    b.bare.entry? id = (b.entry? id).map Entry.bare :=
  Array.getElem?_map

theorem corresponds_of_bare_eq (h : b.bare = b'.bare) : b.Corresponds sameCode b' := by
  refine ⟨(congrArg Builder.file h).symm, (stack_congr h).symm, (nextId_congr h).symm, ?_⟩
  intro id
  rw [Entry.rel_corresponds_sameCode_iff, ← entry?_bare, h, entry?_bare]

theorem Corresponds.bare_eq (h : b.Corresponds sameCode b') : b.bare = b'.bare := by
  have hentries : b.bare.entries = b'.bare.entries := by
    apply Array.ext_getElem?
    intro id
    have hentry := Entry.rel_corresponds_sameCode_iff.mp (h.entries id)
    rwa [← entry?_bare, ← entry?_bare] at hentry
  rw [bare, bare, h.file, h.stack]
  exact congrArg (fun entries => Builder.mk b.file entries b.stack) hentries

end Builder

/-! ### Problems -/

namespace Diagnostic

theorem corresponds_sameCode_iff {d d' : Diagnostic} :
    d.Corresponds sameCode d' ↔ d.problem = d'.problem := by
  constructor
  · rintro ⟨problem, a, a', _, rfl, rfl⟩
    rfl
  · intro hproblem
    refine ⟨d.problem, ⟨d.line, d.column, 0⟩, ⟨d'.line, d'.column, 0⟩, trivial, rfl, ?_⟩
    rw [hproblem]
    rfl

theorem forall₂_corresponds_sameCode_iff {ds ds' : List Diagnostic} :
    List.Forall₂ (Corresponds sameCode) ds ds' ↔ ds.map problem = ds'.map problem := by
  induction ds generalizing ds' with
  | nil => cases ds' <;> simp
  | cons d ds ih => cases ds' <;> simp [corresponds_sameCode_iff, ih]

end Diagnostic

/-! ### States -/

/-- The same code lies ahead of two cursors. -/
abbrev Cursor.Alike (c d : Cursor) : Prop :=
  Token.SameCode c.ahead d.ahead

theorem Cursor.Alike.corresponds {c d : Cursor} (h : c.Alike d) : c.Corresponds sameCode d :=
  ⟨Token.SameCode.corresponds h, trivial, trivial, fun hdocs => hdocs.elim,
    fun hdocs => hdocs.elim⟩

namespace State

/-- Two states differ at most in documentation, locations and events. -/
structure Alike (s t : State) : Prop where
  /-- The same code lies ahead. -/
  cursor : s.cursor.Alike t.cursor
  /-- The outlines are equal when bare. -/
  outline : s.draft.builder.bare = t.draft.builder.bare
  /-- The same blocks are open. -/
  blocks : s.blocks = t.blocks
  /-- One goes on if and only if the other does. -/
  stopped : s.stopped = t.stopped
  /-- The same problems were found. -/
  problems : s.diagnostics.map Diagnostic.problem = t.diagnostics.map Diagnostic.problem

variable {s t : State}

/-- States that are alike are states of two readings of the same code, and the
    other way round. -/
theorem alike_iff_corresponds : s.Alike t ↔ s.Corresponds sameCode t := by
  constructor
  · intro h
    have hproblems := congrArg Array.toList h.problems
    rw [Array.toList_map, Array.toList_map] at hproblems
    exact ⟨h.cursor.corresponds,
      ⟨Builder.corresponds_of_bare_eq h.outline, fun hdocs => hdocs.elim⟩,
      h.blocks.symm, h.stopped.symm, Diagnostic.forall₂_corresponds_sameCode_iff.mpr hproblems⟩
  · intro h
    have hproblems := Diagnostic.forall₂_corresponds_sameCode_iff.mp h.diagnostics
    rw [← Array.toList_map, ← Array.toList_map] at hproblems
    exact ⟨.of_corresponds h.cursor.code, h.draft.builder.bare_eq, h.blocks.symm, h.stopped.symm,
      Array.toList_inj.mp hproblems⟩

namespace Alike

theorem makeRoot (h : s.Alike t) (file : String) : (s.makeRoot file).Alike (t.makeRoot file) := by
  rw [alike_iff_corresponds]
  refine (alike_iff_corresponds.mp h).makeRoot_of_push file ?_
  intro name
  exact Builder.corresponds_of_bare_eq (Builder.push_congr h.outline rfl)

/-- Two runs from states that are alike end in states that are alike. -/
theorem run (h : s.Alike t) : s.run.Alike t.run :=
  alike_iff_corresponds.mpr (alike_iff_corresponds.mp h).run

theorem finish (h : s.Alike t) : s.finish.Alike t.finish :=
  alike_iff_corresponds.mpr (alike_iff_corresponds.mp h).finish

end Alike

/-- Two states before the first step are alike when their sources have the
    same code. -/
theorem alike_initial {options options' : Options} {lexemes lexemes' : List Lexeme}
    (h : Token.SameCode (Token.ofLexemes lexemes) (Token.ofLexemes lexemes')) (file : String) :
    (initial options file lexemes).Alike (initial options' file lexemes') :=
  ⟨h, rfl, rfl, rfl, rfl⟩

end State

end PascalOutline
