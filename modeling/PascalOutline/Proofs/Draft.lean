import Mathlib.Logic.Relation
import PascalOutline.Draft
import PascalOutline.Proofs.Outline.Arena

/-! # Documentation leaves the rest alone

  Whatever a draft does with comments, it changes nothing of its builder but
  the documentation of entries. `Builder.Documents` says this: paragraphs are
  added one after the other. Links, ranges and open entries stay as they are.
-/

namespace PascalOutline

/-- From `b` to `b'` paragraphs of documentation were added to entries. -/
abbrev Builder.Documents : Builder → Builder → Prop :=
  Relation.ReflTransGen fun b b' => ∃ id text, b' = b.addDoc id text

namespace Builder.Documents

theorem addDoc (b : Builder) (id : EntryId) (text : String) : b.Documents (b.addDoc id text) :=
  .single ⟨id, text, rfl⟩

theorem foldl_addDoc (b : Builder) (ids : List EntryId) (text : String) :
    b.Documents (ids.foldl (fun b id => b.addDoc id text) b) := by
  induction ids generalizing b with
  | nil => exact .refl
  | cons id ids ih => exact (addDoc b id text).trans (ih _)

theorem sameFrame {b b' : Builder} (h : b.Documents b') : b.SameFrame b' := by
  induction h with
  | refl => exact .refl b
  | tail _ hstep ih =>
    obtain ⟨id, text, rfl⟩ := hstep
    exact ih.trans (sameFrame_addDoc _ id text)

end Builder.Documents

/-- The links of a builder fit together, or nothing was made yet. -/
def Builder.Fits (b : Builder) : Prop :=
  b.Arena ∨ b.stack = []

theorem Builder.Fits.of_sameFrame {b b' : Builder} (h : b.Fits) (hframe : b.SameFrame b') :
    b'.Fits := by
  rcases h with harena | hnone
  · exact .inl (harena.of_sameFrame hframe)
  · exact .inr (hframe.stack.trans hnone)

namespace Draft

/-- Two drafts differ at most in texts and documentation. -/
def SameFrame (d d' : Draft) : Prop :=
  d.builder.SameFrame d'.builder

theorem SameFrame.refl (d : Draft) : d.SameFrame d :=
  Builder.SameFrame.refl _

theorem SameFrame.trans {d d' d'' : Draft} (h : d.SameFrame d') (h' : d'.SameFrame d'') :
    d.SameFrame d'' :=
  Builder.SameFrame.trans h h'

/-- From `d` to `d'` at most paragraphs of documentation were added. -/
def Documents (d d' : Draft) : Prop :=
  d.builder.Documents d'.builder

theorem Documents.refl (d : Draft) : d.Documents d :=
  Relation.ReflTransGen.refl

theorem Documents.trans {d d' d'' : Draft} (h : d.Documents d') (h' : d'.Documents d'') :
    d.Documents d'' :=
  Relation.ReflTransGen.trans h h'

/-! ### Parts -/

theorem documents_addDoc (d : Draft) (ids : List EntryId) (text : String) :
    d.Documents (d.addDoc ids text) :=
  Builder.Documents.foldl_addDoc d.builder ids text

theorem builder_logIf (d : Draft) (condition : Bool) (e : Event) :
    (d.logIf condition e).builder = d.builder := by
  unfold logIf
  split <;> rfl

theorem builder_dropPending (d : Draft) : d.dropPending.builder = d.builder := by
  unfold dropPending
  split <;> rfl

theorem documents_dropPending (d : Draft) : d.Documents d.dropPending := by
  rw [Documents, builder_dropPending]

/-! ### Examining lexemes -/

theorem documents_hold (d : Draft) (doc : DocComment) : d.Documents (d.hold doc) := by
  unfold hold
  split
  · exact .refl d
  · split
    · exact d.documents_addDoc _ _
    · exact .refl d

theorem documents_takeUp (d : Draft) (doc : DocComment) : d.Documents (d.takeUp doc) := by
  unfold takeUp
  split
  · split
    · exact d.documents_addDoc _ _
    · exact d.documents_hold doc
  · split
    · exact .refl d
    · exact d.documents_hold doc

theorem documents_examine (d : Draft) (l : Lexeme) : d.Documents (d.examine l) := by
  unfold examine
  split
  · cases DocComment.ofLexeme? d.options l with
    | none => exact .refl d
    | some doc => exact d.documents_takeUp doc
  · exact d.documents_dropPending

theorem documents_examineTransparent (d : Draft) (l : Lexeme) :
    d.Documents (d.examineTransparent l) := by
  unfold examineTransparent
  split
  · exact d.documents_examine l
  · exact .refl d

theorem documents_examineInside (ids : List EntryId) (d : Draft) (l : Lexeme) :
    d.Documents (examineInside ids d l) := by
  unfold examineInside
  split
  · exact d.documents_addDoc _ _
  · exact .refl d

theorem documents_foldl {f : Draft → Lexeme → Draft} (hf : ∀ d l, Documents d (f d l))
    (lexemes : List Lexeme) (d : Draft) : d.Documents (lexemes.foldl f d) := by
  induction lexemes generalizing d with
  | nil => exact .refl d
  | cons l ls ih => exact (hf d l).trans (ih _)

theorem documents_examineTo {f : Draft → Lexeme → Draft} (hf : ∀ d l, Documents d (f d l))
    (d : Draft) (place : Nat) : d.Documents (d.examineTo f place) := by
  -- Before the lexemes are examined they only leave the queue.
  let found := d.unexamined.take (place - d.examined)
  exact documents_foldl hf found
    { d with
      unexamined := d.unexamined.drop (place - d.examined)
      examined := d.examined + found.length }

/-! ### At a declaration -/

theorem documents_sync (d : Draft) (c : Cursor) : d.Documents (d.sync c) :=
  documents_examineTo documents_examine d _

theorem documents_skipTransparent (d : Draft) (c : Cursor) : d.Documents (d.skipTransparent c) :=
  documents_examineTo documents_examineTransparent d _

theorem documents_takeLeading (d : Draft) (c : Cursor) : d.Documents (d.takeLeading c).2 := by
  unfold takeLeading
  dsimp only
  split
  · exact d.documents_sync c
  · split
    · exact (d.documents_sync c).trans (documents_addDoc _ _ _)
    · exact d.documents_sync c

theorem documents_itemDone (d : Draft) (c : Cursor) (ids : List EntryId) :
    d.Documents (d.itemDone c ids) :=
  d.documents_dropPending.trans (documents_examineTo (documents_examineInside ids) _ _)

theorem documents_finish (d : Draft) (c : Cursor) : d.Documents (d.finish c) := by
  have hlast := documents_examineTo documents_examine d c.lexemeCount
  unfold finish
  dsimp only
  split
  · exact hlast.trans (documents_addDoc _ _ _)
  · exact hlast

/-! ### Documentation that is too far away -/

/-- There is always an entry before documentation that is too far from what
    follows. -/
theorem exists_orphanage {d : Draft} (harena : d.builder.Arena) :
    ∃ id, d.orphanage = [id] ∧ id < d.builder.entries.size := by
  obtain ⟨top, htop, hmem, _⟩ := harena.exists_top
  unfold orphanage
  rw [htop]
  refine ⟨_, rfl, ?_⟩
  cases hchild : d.builder.lastChild? top with
  | none => exact harena.stack_lt top hmem
  | some child =>
    rw [Builder.lastChild?_eq_links?] at hchild
    obtain ⟨l, hl, hback⟩ := Option.bind_eq_some_iff.mp hchild
    exact harena.child_lt hl (Array.mem_of_back? hback)

/-- What is too far away goes to one entry, or there is none yet. -/
theorem orphanage_cases {d : Draft} (h : d.builder.Fits) :
    d.builder.stack = [] ∧ d.orphanage = [] ∨
      ∃ id < d.builder.entries.size, d.orphanage = [id] := by
  rcases h with harena | hnone
  · obtain ⟨id, horphanage, hid⟩ := exists_orphanage harena
    exact .inr ⟨id, hid, horphanage⟩
  · refine .inl ⟨hnone, ?_⟩
    rw [orphanage, Builder.top?, hnone]
    rfl

/-! ### The frame -/

theorem Documents.sameFrame {d d' : Draft} (h : d.Documents d') : d.SameFrame d' :=
  Builder.Documents.sameFrame h

theorem sameFrame_sync (d : Draft) (c : Cursor) : d.SameFrame (d.sync c) :=
  (d.documents_sync c).sameFrame

theorem sameFrame_skipTransparent (d : Draft) (c : Cursor) : d.SameFrame (d.skipTransparent c) :=
  (d.documents_skipTransparent c).sameFrame

theorem sameFrame_takeLeading (d : Draft) (c : Cursor) : d.SameFrame (d.takeLeading c).2 :=
  (d.documents_takeLeading c).sameFrame

theorem sameFrame_itemDone (d : Draft) (c : Cursor) (ids : List EntryId) :
    d.SameFrame (d.itemDone c ids) :=
  (d.documents_itemDone c ids).sameFrame

end Draft

end PascalOutline
