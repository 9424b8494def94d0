import PascalOutline.Comment.Clean
import PascalOutline.Lexeme
import PascalOutline.Options

/-! # Documentation comments

  A comment documents when a mark follows its opener: `{!`, `(**`, `(*!`, `///`
  (but not `////`) or `//!`. Plain brace comments document too unless that is
  switched off. A `<` after the mark makes the comment trail what stands
  before it. A compiler directive never documents.
-/

namespace PascalOutline

/-- A comment that documents. -/
structure DocComment where
  /-- Its cleaned text. -/
  text : String
  /-- Whether it is marked as trailing. -/
  trailing : Bool
  /-- Where its raw text stands, marks left out. -/
  span : Span
  /-- The line on which it begins. -/
  line : Nat
  /-- The line on which it ends. -/
  lastLine : Nat
deriving DecidableEq, Repr, Inhabited

namespace DocComment

/-- The body of a comment after its documentation mark; nothing when the
    comment does not document. -/
def marked? (options : Options) (c : Comment) : Option (List Char) :=
  match c.style, c.body with
  | .block .brace, '!' :: rest => some rest
  | .block .brace, body => if options.braceDocs then some body else none
  | .block .parenStar, '*' :: rest => some rest
  | .block .parenStar, '!' :: rest => some rest
  | .line, '/' :: '/' :: _ => none
  | .line, '/' :: rest => some rest
  | .line, '!' :: rest => some rest
  | _, _ => none

/-- The raw text after a mark, and whether it is marked as trailing. -/
def untrailed : List Char → List Char × Bool
  | '<' :: rest => (rest, true)
  | body => (body, false)

/-- The documentation in a lexeme, if it has some. -/
def ofLexeme? (options : Options) (l : Lexeme) : Option DocComment :=
  match l.kind with
  | .comment c =>
    (marked? options c).map fun body =>
      let (raw, trailing) := untrailed body
      let stop := (l.bodySpan c).stop
      { text := String.ofList (Comment.clean c.style raw)
        trailing
        span := ⟨stop - Lexeme.byteLength raw, stop⟩
        line := l.start.line
        lastLine := l.stop.line }
  | _ => none

end DocComment

end PascalOutline
