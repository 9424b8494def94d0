import PascalOutline.Comment
import PascalOutline.Text.Blank
import PascalOutline.Text.Lines

/-! # The text of a documentation comment

  A comment body becomes documentation by taking its decoration off: the
  stars before the closer, the stars in the margin of each line, white space
  at line ends, empty lines at both ends, and the indentation that all lines
  share.
-/

namespace PascalOutline.Comment

/-! ### Decoration -/

/-- Whether a character decorates a comment. -/
def isDecoration (c : Char) : Bool :=
  c == '*' || c == '!'

/-- A block comment body without the decoration before its closer, as in
    `(** text **)`. Marks that end a word stay, as in `**bold**`. -/
def undecorated (body : List Char) : List Char :=
  let trimmed := trimEnd body
  let bare := dropEnd isDecoration trimmed
  if bare.getLast?.all isSpace then bare else trimmed

/-- A line without the decoration in its margin: blanks, a run of marks, and
    one blank or the end of the line. -/
def withoutMargin (line : List Char) : List Char :=
  let marked := line.dropWhile isIndent
  if marked.head?.any isDecoration then
    match marked.dropWhile isDecoration with
    | [] => []
    | c :: rest => if isIndent c then rest else line
  else line

/-! ### Lines -/

/-- The lines without the empty ones at both ends. -/
def trimLines (lines : List (List Char)) : List (List Char) :=
  ((lines.dropWhile List.isEmpty).reverse.dropWhile List.isEmpty).reverse

/-- The number of blanks at the beginning of a line. -/
def indentOf (line : List Char) : Nat :=
  (line.takeWhile isIndent).length

/-- The indentation that all lines share, empty lines aside. -/
def commonIndent (lines : List (List Char)) : Nat :=
  ((lines.filter fun line => !line.isEmpty).map indentOf).min?.getD 0

/-- The lines without their common indentation. -/
def dedent (lines : List (List Char)) : List (List Char) :=
  lines.map (List.drop (commonIndent lines))

/-- The lines of a body with margins and white space at line ends removed. -/
def cleanLines (body : List Char) : List (List Char) :=
  dedent (trimLines ((sourceLines body).map fun line => trimEnd (withoutMargin line)))

/-- The documentation in a comment body of a style. -/
def clean (style : CommentStyle) (body : List Char) : List Char :=
  match style with
  | .line => joinLines (cleanLines body)
  | .block _ => joinLines (cleanLines (undecorated body))

end PascalOutline.Comment
