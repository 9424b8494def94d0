/-! # Lines of a text

  Two ways of reading a text as lines. In source text a line ends at a line
  feed, a carriage return, or the pair of both, and the text after the last
  terminator is a line even when it is empty. When a finished text is shown
  line by line, only the line feed (with a carriage return right before it)
  ends a line and an empty last line is not shown.
-/

namespace PascalOutline

/-- Puts a character in front of the first line. -/
def consLine (c : Char) : List (List Char) → List (List Char)
  | [] => [[c]]
  | line :: lines => (c :: line) :: lines

/-- The lines of source text; there is always at least one. -/
def sourceLines : List Char → List (List Char)
  | [] => [[]]
  | '\r' :: '\n' :: cs => [] :: sourceLines cs
  | c :: cs =>
    if c = '\n' ∨ c = '\r' then [] :: sourceLines cs else consLine c (sourceLines cs)

/-- The lines under which a text is shown; an empty text has none. -/
def shownLines : List Char → List (List Char)
  | [] => []
  | '\r' :: '\n' :: cs => [] :: shownLines cs
  | c :: cs => if c = '\n' then [] :: shownLines cs else consLine c (shownLines cs)

/-- Joins lines with single line feeds. -/
def joinLines : List (List Char) → List Char
  | [] => []
  | [line] => line
  | line :: lines => line ++ '\n' :: joinLines lines

/-- Source text always has a line. -/
theorem sourceLines_ne_nil (cs : List Char) : sourceLines cs ≠ [] := by
  fun_induction sourceLines cs with
  | case1 => simp
  | case2 cs ih => simp
  | case3 c cs _ _ ih => simp
  | case4 c cs _ _ ih => cases h : sourceLines cs <;> simp [consLine]

end PascalOutline
