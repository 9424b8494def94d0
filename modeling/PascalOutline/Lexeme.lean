import PascalOutline.Comment
import PascalOutline.Keyword
import PascalOutline.Location

/-! # Lexemes

  A source text is a sequence of lexemes without gaps: names, numbers,
  strings, symbols, and the trivia between them (blanks, line ends, comments
  and compiler directives).
-/

namespace PascalOutline

/-- What a lexeme is. -/
inductive LexemeKind where
  /-- A name or keyword; `escaped` when it is written with a leading `&`,
      which makes it a plain name. -/
  | ident (keyword : Option Keyword) (escaped : Bool)
  /-- A number in any radix. -/
  | number
  /-- A quoted string; `terminated` unless its closing quote is missing. -/
  | str (terminated : Bool)
  /-- A character code such as `#13` or `#$0A`. -/
  | charCode
  /-- Any other mark, of one or two characters. -/
  | symbol
  /-- A comment. -/
  | comment (comment : Comment)
  /-- A compiler directive such as `{$mode objfpc}`. -/
  | directive (comment : Comment)
  /-- Blanks and control characters within a line. -/
  | blank
  /-- A line end. -/
  | newline
deriving DecidableEq, Repr, Inhabited

/-- A piece of the source text. -/
structure Lexeme where
  /-- What it is. -/
  kind : LexemeKind
  /-- Its text. -/
  text : String
  /-- The place before its first character. -/
  start : Location
  /-- The place after its last character. -/
  stop : Location
deriving DecidableEq, Repr, Inhabited

namespace LexemeKind

/-- Whether a lexeme of this kind only separates others. -/
def isTrivia : LexemeKind → Bool
  | blank | newline | comment _ | directive _ => true
  | _ => false

end LexemeKind

namespace Lexeme

/-- Whether a lexeme only separates others. -/
def isTrivia (l : Lexeme) : Bool :=
  l.kind.isTrivia

/-- The keyword that a lexeme is. -/
def keyword? (l : Lexeme) : Option Keyword :=
  match l.kind with
  | .ident keyword _ => keyword
  | _ => none

/-- Whether a lexeme is a given symbol. -/
def isSymbol (l : Lexeme) (text : String) : Bool :=
  l.kind = .symbol && l.text = text

/-- Whether a lexeme is a name or keyword, escaped or not. -/
def isIdent (l : Lexeme) : Bool :=
  match l.kind with
  | .ident _ _ => true
  | _ => false

/-- Whether a lexeme can name a declaration: it is no reserved keyword. -/
def isName (l : Lexeme) : Bool :=
  match l.kind with
  | .ident keyword _ => keyword.all Keyword.isContextual
  | _ => false

/-- Whether a lexeme is an unescaped name or keyword. -/
def isPlainIdent (l : Lexeme) : Bool :=
  match l.kind with
  | .ident _ escaped => !escaped
  | _ => false

/-- Whether a lexeme is a given word, in any case and not escaped. -/
def isWord (l : Lexeme) (word : String) : Bool :=
  l.isPlainIdent && sameWord l.text word

/-- The comment or directive that a lexeme is. -/
def comment? (l : Lexeme) : Option Comment :=
  match l.kind with
  | .comment c | .directive c => some c
  | _ => none

/-! ### The parts of a comment -/

/-- The number of bytes of a text. -/
def byteLength : List Char → Nat
  | [] => 0
  | c :: cs => c.utf8Size + byteLength cs

/-- The offset after the opener of a comment. -/
def bodyStart (l : Lexeme) (c : Comment) : Nat :=
  l.start.offset + byteLength c.style.opener

/-- Where the opener of a comment stands. -/
def openerSpan (l : Lexeme) (c : Comment) : Span :=
  ⟨l.start.offset, l.bodyStart c⟩

/-- Where the body of a comment stands. -/
def bodySpan (l : Lexeme) (c : Comment) : Span :=
  ⟨l.bodyStart c, l.bodyStart c + byteLength c.body⟩

/-- Where the closer of a comment stands, if it has one. -/
def closerSpan? (l : Lexeme) (c : Comment) : Option Span :=
  if c.closed then some ⟨(l.bodySpan c).stop, l.stop.offset⟩ else none

end Lexeme

end PascalOutline
