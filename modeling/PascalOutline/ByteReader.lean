import PascalOutline.Location

/-! # Reading a text byte by byte

  A reader stands between two bytes of the UTF-8 form of a text, knows its
  location, and looks ahead any number of bytes. It may stop inside a
  character; a character counts for the column when its first byte is read,
  and a carriage return ends a line only when no line feed follows it.
-/

namespace PascalOutline

/-- A place between two bytes of a text. -/
structure ByteReader where
  /-- The whole text. -/
  source : String
  /-- The bytes that were not read yet. -/
  ahead : List UInt8
  /-- Where the reader stands. -/
  location : Location
deriving Repr

namespace ByteReader

/-! ### Looking -/

/-- The UTF-8 form of a text. -/
def bytesOf (text : String) : List UInt8 :=
  text.toList.flatMap String.utf8EncodeChar

/-- A reader before the first byte of a text. -/
def ofString (source : String) : ByteReader :=
  ⟨source, bytesOf source, .start⟩

/-- The byte `n` places ahead; the next one for `n = 0`. -/
def peekAt (r : ByteReader) (n : Nat) : Option UInt8 :=
  r.ahead[n]?

/-- The byte that would be read next. -/
def current (r : ByteReader) : Option UInt8 :=
  r.peekAt 0

/-- Whether every byte was read. -/
def atEnd (r : ByteReader) : Bool :=
  r.ahead.isEmpty

/-- Whether the unread bytes begin with the bytes of a text. -/
def startsWith (r : ByteReader) (text : String) : Bool :=
  (bytesOf text).isPrefixOf r.ahead

/-! ### Reading -/

/-- Whether a byte continues a character begun by an earlier byte. -/
def isContinuation (b : UInt8) : Bool :=
  b &&& 0xC0 == 0x80

/-- The location after reading the byte `b` before the bytes `rest`. -/
def locationAfter (at_ : Location) (b : UInt8) (rest : List UInt8) : Location :=
  if b = 0x0A ∨ (b = 0x0D ∧ rest.head? ≠ some 0x0A) then at_.nextLine 1
  else if b = 0x0D ∨ isContinuation b then { at_ with offset := at_.offset + 1 }
  else { at_ with column := at_.column + 1, offset := at_.offset + 1 }

/-- The reader after one byte, unchanged at the end. -/
def next (r : ByteReader) : ByteReader :=
  match r.ahead with
  | [] => r
  | b :: rest => { r with ahead := rest, location := locationAfter r.location b rest }

/-- The reader after `n` single bytes. -/
def steps (r : ByteReader) : Nat → ByteReader
  | 0 => r
  | n + 1 => r.next.steps n

/-- The reader after `n` bytes, or at the end when fewer are left. -/
def skip (r : ByteReader) (n : Nat) : ByteReader :=
  r.steps (min n r.ahead.length)

/-- How many unread bytes in a row satisfy a test. -/
def runLength (r : ByteReader) (p : UInt8 → Bool) : Nat :=
  (r.ahead.takeWhile p).length

/-- The reader after the longest run of bytes that satisfy a test. -/
def skipWhile (r : ByteReader) (p : UInt8 → Bool) : ByteReader :=
  r.skip (r.runLength p)

/-! ### Slices of the text -/

/-- The characters of a text from the byte offset `n` on; nothing when the
    offset is past the end or inside a character. -/
def dropBytes : Nat → List Char → Option (List Char)
  | 0, cs => some cs
  | _ + 1, [] => none
  | n + 1, c :: cs => if c.utf8Size ≤ n + 1 then dropBytes (n + 1 - c.utf8Size) cs else none

/-- The characters that fill exactly the first `n` bytes of a text, if some do. -/
def takeBytes : Nat → List Char → Option (List Char)
  | 0, _ => some []
  | _ + 1, [] => none
  | n + 1, c :: cs =>
    if c.utf8Size ≤ n + 1 then (takeBytes (n + 1 - c.utf8Size) cs).map (c :: ·) else none

/-- The text of a span; empty when the span is reversed, reaches past the end
    or does not begin and end between characters. -/
def slice (r : ByteReader) (span : Span) : String :=
  if span.start ≤ span.stop then
    let cut := (dropBytes span.start r.source.toList).bind (takeBytes (span.stop - span.start))
    String.ofList (cut.getD [])
  else ""

end ByteReader

end PascalOutline
