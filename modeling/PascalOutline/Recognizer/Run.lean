import PascalOutline.Recognizer.Step
import PascalOutline.Path

/-! # Reading a whole source

  The recognizer makes the root entry, takes steps until the tokens or the
  module are at an end, and finishes the outline.
-/

namespace PascalOutline.State

/-- The state before the first step, without a root. -/
def initial (options : Options) (file : String) (lexemes : List Lexeme) : State :=
  { cursor := Cursor.ofLexemes lexemes
    draft := { options, builder := { file }, unexamined := lexemes } }

/-- The kind of module whose header the source begins with. -/
def moduleKind? (c : Cursor) : Option EntryKind :=
  match c.keyword? with
  | some .unit => some .unit
  | some .program => some .program
  | some .library => some .library
  | some .package => if c.nthIsName 1 then some .package else none
  | _ => none

/-- Makes the root: the module of the header, or an entry named after the file
    for a source without one. -/
def makeRoot (s : State) (file : String) : State :=
  let rooted := match moduleKind? s.cursor with
    | some kind => s.moduleHeader kind
    | none => s.build (·.push { kind := .other, name := (Path.stem? file).getD file })
  rooted.openBlock (.entry s.nextId (.module .heading .none))

/-- How much is left to do: one unit for each open block, and two for each
    token that was not passed, since passing a token may open a block. -/
def work (s : State) : Nat :=
  2 * s.cursor.left + s.blocks.length

/-- Takes steps until the tokens are used up or the final `end.` was read.
    After a step that leaves as much to do as before, a token is passed. -/
def run (s : State) : State :=
  if s.stopped || s.cursor.atEnd then s
  else
    let before := s.work
    let cursor := s.cursor.next
    let blocks := s.blocks
    let after := s.step
    if after.stopped then after
    else if after.work < before then run after
    else run { after with cursor, blocks }
termination_by s.work
decreasing_by
  · assumption
  · rename_i h _ _
    have ahead_ne : s.cursor.ahead ≠ [] := by
      intro empty
      simp [Cursor.atEnd, empty] at h
    have left_pos : 0 < s.cursor.left := by
      rw [s.cursor.left_eq]
      exact List.length_pos_iff.mpr ahead_ne
    simp only [work, Cursor.next, Cursor.advance]
    omega

/-- The number of entries that are open in blocks. -/
def openEntries (s : State) : Nat :=
  (s.blocks.filterMap Block.entryId?).length

/-- Examines what is left of the source and notes what was left open. -/
def finish (s : State) : State :=
  let draft := s.draft.finish s.cursor
  let draft := draft.logIf (!s.stopped && 1 < s.openEntries) (.textEndedInside (s.openEntries - 1))
  let unclosed := draft.builder.unclosed
  { s with draft := draft.logIf (0 < unclosed) (.entriesLeftOpen unclosed) }

/-- The finished state for a source. -/
def ofSource (options : Options) (file : String) (lexemes : List Lexeme) : State :=
  ((initial options file lexemes).makeRoot file).run.finish

/-- The outline of a finished state. -/
def outline (s : State) : Outline :=
  s.draft.builder.finish s.cursor.eof

end PascalOutline.State
