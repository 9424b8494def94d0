/-! # Positions in a source text

  A location is a line and a column, both counted from one, and a byte
  offset. Columns count characters, offsets count the bytes of their UTF-8
  form. A line ends at a line feed, a carriage return, or the pair of both.

  Locations are ordered by line, then by column, then by offset.
-/

namespace PascalOutline

/-- A place between two characters of a source text. -/
structure Location where
  /-- Line, counted from one. -/
  line : Nat
  /-- Column in characters, counted from one. -/
  column : Nat
  /-- Number of bytes before this place. -/
  offset : Nat
deriving DecidableEq, Repr, Inhabited

namespace Location

/-- The place before the first character. -/
def start : Location := ⟨1, 1, 0⟩

/-- The location of an entry that was not read from a text. -/
def nowhere : Location := ⟨0, 0, 0⟩

/-- By line, then column, then offset. -/
protected def le (a b : Location) : Prop :=
  a.line < b.line ∨ a.line = b.line ∧
    (a.column < b.column ∨ a.column = b.column ∧ a.offset ≤ b.offset)

instance : LE Location := ⟨Location.le⟩

instance (a b : Location) : Decidable (a ≤ b) :=
  inferInstanceAs (Decidable (_ ∨ _))

/-- The later of two locations. -/
instance : Max Location := ⟨fun a b => if a ≤ b then b else a⟩

/-- The beginning of the next line, `bytes` bytes further on. -/
def nextLine (at_ : Location) (bytes : Nat) : Location :=
  ⟨at_.line + 1, 1, at_.offset + bytes⟩

/-- The place one character further on the same line. -/
def nextColumn (at_ : Location) (c : Char) : Location :=
  ⟨at_.line, at_.column + 1, at_.offset + c.utf8Size⟩

/-- The place reached from `at_` by passing over a text. -/
def after (at_ : Location) : List Char → Location
  | [] => at_
  | '\r' :: '\n' :: cs => (at_.nextLine 2).after cs
  | c :: cs =>
    if c = '\n' ∨ c = '\r' then (at_.nextLine 1).after cs else (at_.nextColumn c).after cs

end Location

/-- A range of byte offsets, the end not included. -/
structure Span where
  /-- Offset of the first byte. -/
  start : Nat
  /-- Offset after the last byte. -/
  stop : Nat
deriving DecidableEq, Repr, Inhabited

end PascalOutline
