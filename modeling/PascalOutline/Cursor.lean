import PascalOutline.Lexeme.Lexer
import PascalOutline.Token

/-! # Walking over tokens

  A cursor stands between two tokens of a source. It looks ahead any number
  of tokens and moves forward; past the last token it stands at the end of
  the text.
-/

namespace PascalOutline

/-- A place between two tokens of a source. -/
structure Cursor where
  /-- The tokens before the cursor, the nearest one first. -/
  past : List Token
  /-- The tokens after the cursor. -/
  ahead : List Token
  /-- The end of the text. -/
  eof : Location
  /-- The number of lexemes of the text, trivia included. -/
  lexemeCount : Nat
  /-- The number of tokens after the cursor. -/
  left : Nat := ahead.length
  /-- The tokens after the cursor are counted right. -/
  left_eq : left = ahead.length := by rfl
deriving DecidableEq, Repr

namespace Cursor

instance : Inhabited Cursor := ⟨{ past := [], ahead := [], eof := .start, lexemeCount := 0 }⟩

/-- A cursor before the first token. -/
def ofLexemes (lexemes : List Lexeme) : Cursor :=
  { past := []
    ahead := Token.ofLexemes lexemes
    eof := Lexer.endOf lexemes
    lexemeCount := lexemes.length }

/-! ### Position -/

/-- The number of tokens before the cursor. -/
def pos (c : Cursor) : Nat :=
  c.past.length

/-- Whether no token is left. -/
def atEnd (c : Cursor) : Bool :=
  c.ahead.isEmpty

/-- All tokens of the source. -/
def tokens (c : Cursor) : List Token :=
  c.past.reverse ++ c.ahead

/-- The cursor `n` tokens further on, or at the end. -/
def advance (c : Cursor) (n : Nat) : Cursor :=
  { c with
    past := (c.ahead.take n).reverse ++ c.past
    ahead := c.ahead.drop n
    left := c.left - n
    left_eq := by rw [c.left_eq, List.length_drop] }

/-- The cursor one token further on, or at the end. -/
def next (c : Cursor) : Cursor :=
  c.advance 1

/-- The cursor before the token with a number, or at the end. -/
def seek (c : Cursor) (n : Nat) : Cursor :=
  { c with
    past := (c.tokens.take n).reverse
    ahead := c.tokens.drop n
    left := (c.tokens.drop n).length
    left_eq := rfl }

/-! ### Looking -/

/-- The token `n` places ahead; the next one for `n = 0`. -/
def nth? (c : Cursor) (n : Nat) : Option Token :=
  c.ahead[n]?

/-- The next token. -/
def peek? (c : Cursor) : Option Token :=
  c.nth? 0

/-- The last token that was passed. -/
def prev? (c : Cursor) : Option Token :=
  c.past.head?

/-- The text of the token `n` places ahead, empty past the end. -/
def nthText (c : Cursor) (n : Nat) : String :=
  ((c.nth? n).map Token.text).getD ""

/-- The text of the next token. -/
def text (c : Cursor) : String :=
  c.nthText 0

/-- The keyword `n` places ahead. -/
def nthKeyword? (c : Cursor) (n : Nat) : Option Keyword :=
  (c.nth? n).bind Token.keyword?

/-- The keyword that the next token is. -/
def keyword? (c : Cursor) : Option Keyword :=
  c.nthKeyword? 0

/-- Whether the next token is a keyword. -/
def atKeyword (c : Cursor) (kw : Keyword) : Bool :=
  c.keyword? = some kw

/-- Whether the token `n` places ahead is a symbol. -/
def nthIsSymbol (c : Cursor) (n : Nat) (symbol : String) : Bool :=
  (c.nth? n).any fun t => t.isSymbol symbol

/-- Whether the token `n` places ahead is one of some symbols. -/
def nthIsSymbolIn (c : Cursor) (n : Nat) (symbols : List String) : Bool :=
  (c.nth? n).any fun t => t.isSymbolIn symbols

/-- Whether the next token is a symbol. -/
def atSymbol (c : Cursor) (symbol : String) : Bool :=
  c.nthIsSymbol 0 symbol

/-- Whether the token `n` places ahead is a name or keyword. -/
def nthIsIdent (c : Cursor) (n : Nat) : Bool :=
  (c.nth? n).any Token.isIdent

/-- Whether the token `n` places ahead can name a declaration. -/
def nthIsName (c : Cursor) (n : Nat) : Bool :=
  (c.nth? n).any Token.isName

/-- Whether the next token can name a declaration. -/
def atName (c : Cursor) : Bool :=
  c.nthIsName 0

/-- Whether the token `n` places ahead is a word. -/
def nthIsWord (c : Cursor) (n : Nat) (word : String) : Bool :=
  (c.nth? n).any fun t => t.isWord word

/-- Whether the next token is a word. -/
def atWord (c : Cursor) (word : String) : Bool :=
  c.nthIsWord 0 word

/-! ### Locations -/

/-- The place of the next token among all lexemes; their number at the end. -/
def lexemeIndex (c : Cursor) : Nat :=
  (c.peek?.map Token.index).getD c.lexemeCount

/-- The place among all lexemes right after the last token that was passed. -/
def indexAfterPrev (c : Cursor) : Nat :=
  (c.prev?.map fun t => t.index + 1).getD 0

/-- The place before the next token, or the end of the text. -/
def location (c : Cursor) : Location :=
  (c.peek?.map Token.start).getD c.eof

/-- The place after the last token that was passed. -/
def prevStop (c : Cursor) : Location :=
  (c.prev?.map Token.stop).getD .start

/-! ### Moving over what is expected -/

/-- Passes the next token if a condition holds. -/
def nextIf (c : Cursor) (condition : Bool) : Cursor :=
  if condition then c.next else c

/-- Passes a symbol if it comes next. -/
def passSymbol (c : Cursor) (symbol : String) : Cursor :=
  c.nextIf (c.atSymbol symbol)

/-- Passes a keyword if it comes next. -/
def passKeyword (c : Cursor) (kw : Keyword) : Cursor :=
  c.nextIf (c.atKeyword kw)

/-- Passes a word if it comes next. -/
def passWord (c : Cursor) (word : String) : Cursor :=
  c.nextIf (c.atWord word)

/-! ### Progress -/

theorem length_ahead_advance (c : Cursor) (n : Nat) :
    (c.advance n).ahead.length = c.ahead.length - n := by
  simp [advance]

theorem length_ahead_next (c : Cursor) : c.next.ahead.length = c.ahead.length - 1 :=
  c.length_ahead_advance 1

theorem length_ahead_nextIf_le (c : Cursor) (condition : Bool) :
    (c.nextIf condition).ahead.length ≤ c.ahead.length := by
  unfold nextIf
  split
  · rw [length_ahead_next]; omega
  · exact Nat.le_refl _

theorem length_ahead_passSymbol_le (c : Cursor) (symbol : String) :
    (c.passSymbol symbol).ahead.length ≤ c.ahead.length :=
  c.length_ahead_nextIf_le _

/-! ### Text -/

/-- The tokens that a cursor passed to get to a later place. -/
def upTo (c later : Cursor) : List Token :=
  c.ahead.take (c.left - later.left)

/-- The text that a cursor passed to get to a later place. -/
def textUpTo (c later : Cursor) : String :=
  Token.render (c.upTo later)

/-- The text of the tokens from one number up to another. -/
def renderRange (c : Cursor) (first last : Nat) : String :=
  Token.render ((c.tokens.drop first).take (last - first))

end Cursor

end PascalOutline
