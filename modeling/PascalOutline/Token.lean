import PascalOutline.Lexeme

/-! # Tokens

  The tokens of a source are its lexemes without the trivia. Of the trivia
  only this is kept: whether there was some before a token, and the token's
  place among all lexemes.
-/

namespace PascalOutline

/-- A lexeme that is no trivia. -/
structure Token where
  /-- The lexeme. -/
  lexeme : Lexeme
  /-- Its place among all lexemes, counted from zero. -/
  index : Nat
  /-- Whether trivia stands right before it. -/
  spaced : Bool
deriving DecidableEq, Repr, Inhabited

namespace Token

/-- The text of a token. -/
def text (t : Token) : String :=
  t.lexeme.text

/-- The place before a token. -/
def start (t : Token) : Location :=
  t.lexeme.start

/-- The place after a token. -/
def stop (t : Token) : Location :=
  t.lexeme.stop

/-- The keyword that a token is. -/
def keyword? (t : Token) : Option Keyword :=
  t.lexeme.keyword?

/-- Whether a token is a given keyword. -/
def isKeyword (t : Token) (kw : Keyword) : Bool :=
  t.keyword? = some kw

/-- Whether a token is a keyword that satisfies a test. -/
def isKeywordThat (t : Token) (p : Keyword → Bool) : Bool :=
  t.keyword?.any p

/-- Whether a token is a given symbol. -/
def isSymbol (t : Token) (text : String) : Bool :=
  t.lexeme.isSymbol text

/-- Whether a token is one of some symbols. -/
def isSymbolIn (t : Token) (texts : List String) : Bool :=
  texts.any t.isSymbol

/-- Whether a token is a name or keyword. -/
def isIdent (t : Token) : Bool :=
  t.lexeme.isIdent

/-- Whether a token can name a declaration. -/
def isName (t : Token) : Bool :=
  t.lexeme.isName

/-- Whether a token is a given word, in any case and not escaped. -/
def isWord (t : Token) (word : String) : Bool :=
  t.lexeme.isWord word

/-- Whether a token is one of some words, in any case and not escaped. -/
def isWordIn (t : Token) (words : List String) : Bool :=
  words.any t.isWord

/-- The tokens among lexemes of which the first has the place `index`;
    `spaced` when trivia stands right before it. -/
def ofLexemesFrom (index : Nat) (spaced : Bool) : List Lexeme → List Token
  | [] => []
  | l :: ls =>
    if l.isTrivia then ofLexemesFrom (index + 1) true ls
    else ⟨l, index, spaced⟩ :: ofLexemesFrom (index + 1) false ls

/-- The tokens of a source. -/
def ofLexemes (lexemes : List Lexeme) : List Token :=
  ofLexemesFrom 0 false lexemes

/-- The texts of tokens that follow another token, with one space wherever
    trivia stood. -/
def renderRest : List Token → String
  | [] => ""
  | t :: ts => (if t.spaced then " " else "") ++ t.text ++ renderRest ts

/-- The text of a sequence of tokens, with one space wherever trivia stood
    between two of them. -/
def render : List Token → String
  | [] => ""
  | t :: ts => t.text ++ renderRest ts

end Token

end PascalOutline
