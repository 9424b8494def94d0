/-! # Comments

  Pascal has two block comments, `{ ... }` and `(* ... *)`, and a comment that
  runs to the end of its line, `// ...`. A block comment ends at the first
  closer of its own style; where comments nest, an opener of its own style
  has to be closed first. Marks of the other style never matter for its extent.
-/

namespace PascalOutline

/-- The two styles of block comment. -/
inductive BlockStyle where
  /-- Written `{ ... }`. -/
  | brace
  /-- Written `(* ... *)`. -/
  | parenStar
deriving DecidableEq, Repr, Inhabited

namespace BlockStyle

/-- The mark that opens a block comment. -/
def opener : BlockStyle → List Char
  | brace => ['\x7b']
  | parenStar => ['(', '*']

/-- The mark that closes a block comment. -/
def closer : BlockStyle → List Char
  | brace => ['\x7d']
  | parenStar => ['*', ')']

/-- The other style. -/
def other : BlockStyle → BlockStyle
  | brace => parenStar
  | parenStar => brace

/-- The number of characters before the closer that ends a comment of this
    style. `depth` comments inside it are still open, the next `skip`
    characters belong to a mark that was already seen, and `before`
    characters were passed so far. Nothing when the text ends first. -/
def closerFrom (style : BlockStyle) (nested : Bool) :
    (depth skip before : Nat) → List Char → Option Nat
  | _, _, _, [] => none
  | depth, skip + 1, before, _ :: cs => closerFrom style nested depth skip (before + 1) cs
  | depth, 0, before, c :: cs =>
    if style.closer.isPrefixOf (c :: cs) then
      match depth with
      | 0 => some before
      | depth + 1 => closerFrom style nested depth (style.closer.length - 1) (before + 1) cs
    else if nested && style.opener.isPrefixOf (c :: cs) then
      closerFrom style nested (depth + 1) (style.opener.length - 1) (before + 1) cs
    else closerFrom style nested depth 0 (before + 1) cs

/-- The number of characters between an opener and the closer that ends the
    comment, for the text after the opener. -/
def closerAt (style : BlockStyle) (nested : Bool) (cs : List Char) : Option Nat :=
  style.closerFrom nested 0 0 0 cs

/-- The number of characters before the first closer of this style that no
    opener of this style before it is open for. -/
def strayCloserAt (style : BlockStyle) (cs : List Char) : Option Nat :=
  style.closerAt true cs

/-- A mark is never empty. -/
theorem opener_length_pos (style : BlockStyle) : 0 < style.opener.length := by
  cases style <;> decide

end BlockStyle

/-- The styles of comment. -/
inductive CommentStyle where
  /-- A block comment of one of the two styles. -/
  | block (style : BlockStyle)
  /-- A comment to the end of its line, written `// ...`. -/
  | line
deriving DecidableEq, Repr, Inhabited

namespace CommentStyle

/-- The mark that opens a comment. -/
def opener : CommentStyle → List Char
  | block style => style.opener
  | line => ['/', '/']

/-- The mark that closes a comment; a line comment has none. -/
def closer? : CommentStyle → Option (List Char)
  | block style => some style.closer
  | line => none

end CommentStyle

/-- A comment or compiler directive, as it was read. -/
structure Comment where
  /-- How it is written. -/
  style : CommentStyle
  /-- The text after the opener and before the closer. -/
  body : List Char
  /-- Whether the closer was found. A line comment has none, and a block
      comment that runs into the end of the text has lost it. -/
  closed : Bool
deriving DecidableEq, Repr, Inhabited

namespace Comment

/-- The closer as it was read, empty when there is none. -/
def closing (c : Comment) : List Char :=
  if c.closed then c.style.closer?.getD [] else []

/-- The whole comment: opener, body and closer. -/
def chars (c : Comment) : List Char :=
  c.style.opener ++ c.body ++ c.closing

end Comment

end PascalOutline
