/-! # White space

  Which characters count as white space when text is trimmed or split into
  words: the 25 characters of the Unicode property `White_Space`. The blanks
  that indent a line are fewer, the space and the tab.
-/

namespace PascalOutline

/-- The code point ranges, both ends included, of the Unicode property
    `White_Space`. -/
def spaceRanges : List (Nat × Nat) :=
  [(0x09, 0x0D), (0x20, 0x20), (0x85, 0x85), (0xA0, 0xA0), (0x1680, 0x1680),
   (0x2000, 0x200A), (0x2028, 0x2029), (0x202F, 0x202F), (0x205F, 0x205F), (0x3000, 0x3000)]

/-- Whether a character is white space. -/
def isSpace (c : Char) : Bool :=
  spaceRanges.any fun range => range.1 ≤ c.toNat && c.toNat ≤ range.2

/-- Whether a character indents a line: a space or a tab. -/
def isIndent (c : Char) : Bool :=
  c == ' ' || c == '\t'

/-- The text without its longest ending in which every character satisfies `p`. -/
def dropEnd (p : Char → Bool) (cs : List Char) : List Char :=
  (cs.reverse.dropWhile p).reverse

/-- The text without the white space at its end. -/
def trimEnd (cs : List Char) : List Char :=
  dropEnd isSpace cs

/-- The first run of characters that are not white space, leading white space
    skipped; empty when there is none. -/
def firstWord (cs : List Char) : List Char :=
  (cs.dropWhile isSpace).takeWhile fun c => !isSpace c

end PascalOutline
