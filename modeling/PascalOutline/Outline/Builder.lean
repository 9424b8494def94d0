import PascalOutline.Outline

/-! # Building an outline

  A builder holds the entries made so far and the chain of those still open,
  from the innermost one out to the root. A new entry becomes a child of the
  innermost open one. The root stays open until the outline is finished.

  An entry never ends before it begins, nor before its last child ends.
-/

namespace PascalOutline

/-- An outline in the making. -/
structure Builder where
  /-- The file. -/
  file : String
  /-- The entries made so far. -/
  entries : Array Entry := #[]
  /-- The open entries, innermost first. -/
  stack : List EntryId := []
deriving DecidableEq, Repr, Inhabited

namespace Builder

/-! ### Looking -/

/-- Whether there is a root. -/
def hasRoot (b : Builder) : Bool :=
  !b.entries.isEmpty

/-- The handle that the next new entry gets. -/
def nextId (b : Builder) : EntryId :=
  b.entries.size

/-- The innermost open entry. -/
def top? (b : Builder) : Option EntryId :=
  b.stack.head?

/-- The entry with a handle. -/
def entry? (b : Builder) (id : EntryId) : Option Entry :=
  b.entries[id]?

/-- The last entry that an entry holds. -/
def lastChild? (b : Builder) (id : EntryId) : Option EntryId :=
  (b.entry? id).bind fun e => e.children.back?

/-- The number of open entries other than the root. -/
def unclosed (b : Builder) : Nat :=
  b.stack.length - 1

/-! ### Changing -/

/-- Changes one entry. -/
def modify (b : Builder) (id : EntryId) (f : Entry → Entry) : Builder :=
  { b with entries := b.entries.modify id f }

/-- Makes an entry a child of the innermost open one. -/
def insert (b : Builder) (e : Entry) : Builder :=
  let id := b.nextId
  let placed := { e with id, file := b.file, parent := b.top?, children := #[] }
  let linked := match b.top? with
    | some p => b.entries.modify p fun e => { e with children := e.children.push id }
    | none => b.entries
  { b with entries := linked.push placed }

/-- Makes an entry and leaves it open. -/
def push (b : Builder) (e : Entry) : Builder :=
  let stack := b.nextId :: b.stack
  { b.insert e with stack }

/-- Ends an entry at a location, or later if it begins or its last child ends
    later. -/
def close (b : Builder) (id : EntryId) (stop : Location) : Builder :=
  let childStop := (b.lastChild? id).bind fun child => (b.entry? child).map Entry.stop
  b.modify id fun e =>
    let own := max stop e.start
    { e with stop := childStop.elim own (max own) }

/-- Makes an entry that is already complete. Without a root it becomes the
    root instead. -/
def addLeaf (b : Builder) (e : Entry) : Builder :=
  let id := b.nextId
  let stop := e.stop
  if b.hasRoot then (b.insert e).close id stop else b.push e

/-- The innermost open entry, unless it is the root. -/
def closable? (b : Builder) : Option EntryId :=
  match b.stack with
  | id :: _ :: _ => some id
  | _ => none

/-- Closes the innermost open entry, unless it is the root. -/
def pop (b : Builder) (stop : Location) : Builder :=
  match b.closable? with
  | some id => { b.close id stop with stack := b.stack.tail }
  | none => b

/-- Closes a number of open entries. -/
def popTimes (b : Builder) (stop : Location) : Nat → Builder
  | 0 => b
  | n + 1 => (b.pop stop).popTimes stop n

/-- Adds a paragraph to the documentation of an entry. -/
def addDoc (b : Builder) (id : EntryId) (text : String) : Builder :=
  b.modify id fun e => e.addDoc text

/-- The builder with a root, an empty one if there was none. -/
def withRoot (b : Builder) : Builder :=
  if b.hasRoot then b else b.push {}

/-! ### Finishing -/

@[simp] theorem size_entries_close (b : Builder) (id : EntryId) (stop : Location) :
    (b.close id stop).entries.size = b.entries.size := by
  simp [close, modify]

@[simp] theorem size_entries_pop (b : Builder) (stop : Location) :
    (b.pop stop).entries.size = b.entries.size := by
  unfold pop
  split <;> simp

@[simp] theorem size_entries_popTimes (b : Builder) (stop : Location) (n : Nat) :
    (b.popTimes stop n).entries.size = b.entries.size := by
  induction n generalizing b with
  | zero => rfl
  | succ n ih => simp [popTimes, ih]

theorem size_entries_withRoot_pos (b : Builder) : 0 < b.withRoot.entries.size := by
  unfold withRoot
  split
  case isTrue h => simpa [hasRoot, Nat.pos_iff_ne_zero] using h
  case isFalse h => simp [push, insert]

/-- Closes what is still open at the end of the text, stretches the root over
    the whole text, and hands the outline over. -/
def finish (b : Builder) (eof : Location) : Outline :=
  let closed := b.withRoot.popTimes eof b.withRoot.unclosed
  { file := closed.file
    entries := closed.entries.modify 0 fun root =>
      { root with start := .start, stop := max eof .start }
    nonempty := by
      simpa [closed] using b.size_entries_withRoot_pos }

end Builder

end PascalOutline
