import PascalOutline.Lexeme

/-! # Cutting a text into lexemes

  The first one or two characters decide what a lexeme is, and `cut` says how
  many further characters belong to it. A string ends at the end of its line
  at the latest, a block comment at the end of the text, so every text can be
  cut. The lexemes are laid end to end: nothing is skipped, and no character
  belongs to two of them.
-/

namespace PascalOutline.Lexer

/-! ### Character classes -/

/-- Whether a character begins a name. Every character outside the ASCII
    table does. -/
def isNameStart (c : Char) : Bool :=
  c.isAlpha || c == '_' || 0x80 ≤ c.toNat

/-- Whether a character continues a name. -/
def isNameRest (c : Char) : Bool :=
  c.isAlphanum || c == '_' || 0x80 ≤ c.toNat

/-- Whether a character ends a line. -/
def isLineEnd (c : Char) : Bool :=
  c == '\n' || c == '\r'

/-- Whether a character is a blank or a control character within a line. -/
def isGap (c : Char) : Bool :=
  (c.toNat < 0x20 && !isLineEnd c) || c == ' ' || c == '\x7f'

/-- Whether a character is a hexadecimal digit. -/
def isHexDigit (c : Char) : Bool :=
  c.isDigit || ('a' ≤ c && c ≤ 'f') || ('A' ≤ c && c ≤ 'F')

/-- Whether a character is an octal digit. -/
def isOctalDigit (c : Char) : Bool :=
  '0' ≤ c && c ≤ '7'

/-- Whether a character is a binary digit. -/
def isBinaryDigit (c : Char) : Bool :=
  c == '0' || c == '1'

/-- Digits of a number may be grouped with underscores. -/
def orUnderscore (p : Char → Bool) (c : Char) : Bool :=
  p c || c == '_'

/-- The symbols of two characters. -/
def pairSymbols : List (Char × Char) :=
  [(':', '='), ('.', '.'), ('<', '='), ('>', '='), ('<', '>'), ('>', '<'), ('*', '*'), ('+', '='),
   ('-', '='), ('*', '='), ('/', '='), ('(', '.'), ('.', ')'), ('@', '@'), ('*', ')')]

/-! ### Lengths -/

/-- The length of the longest run of characters that satisfy a test. -/
def runLength (p : Char → Bool) (cs : List Char) : Nat :=
  (cs.takeWhile p).length

/-- The length of the digits of a decimal number. -/
def digitsLength (cs : List Char) : Nat :=
  runLength (orUnderscore Char.isDigit) cs

/-- The length of a fraction. A point that no digit follows is no fraction,
    as in the range `1..5`. -/
def fractionLength : List Char → Nat
  | '.' :: d :: cs => if d.isDigit then 1 + digitsLength (d :: cs) else 0
  | _ => 0

/-- The length of an exponent, with or without a sign. -/
def exponentLength : List Char → Nat
  | e :: cs =>
    if e == 'e' || e == 'E' then
      match cs with
      | d :: rest =>
        if d.isDigit then 2 + digitsLength rest
        else if (d == '+' || d == '-') && rest.head?.any Char.isDigit then 2 + digitsLength rest
        else 0
      | [] => 0
    else 0
  | [] => 0

/-- The length of what follows the first digit of a decimal number. -/
def decimalLength (cs : List Char) : Nat :=
  let whole := digitsLength cs
  let fraction := fractionLength (cs.drop whole)
  whole + fraction + exponentLength (cs.drop (whole + fraction))

/-- The length of what follows the opening quote of a string, and whether the
    closing quote was found; `before` characters were passed so far. A
    doubled quote is a quote inside the string. -/
def stringFrom (before : Nat) : List Char → Nat × Bool
  | [] => (before, false)
  | '\'' :: '\'' :: cs => stringFrom (before + 2) cs
  | c :: cs =>
    if isLineEnd c then (before, false)
    else if c = '\'' then (before + 1, true)
    else stringFrom (before + 1) cs

/-- The length of what follows the mark of a character code. -/
def charCodeLength : List Char → Nat
  | '$' :: cs => 1 + runLength isHexDigit cs
  | cs => runLength isHexDigit cs

/-! ### Comments -/

/-- The block comment whose opener stands right before a text. -/
def blockComment (style : BlockStyle) (nested : Bool) (cs : List Char) : Comment :=
  match style.closerAt nested cs with
  | some n => ⟨.block style, cs.take n, true⟩
  | none => ⟨.block style, cs, false⟩

/-- The line comment whose opener stands right before a text. -/
def lineComment (cs : List Char) : Comment :=
  ⟨.line, cs.takeWhile fun c => !isLineEnd c, false⟩

/-- A block comment that begins with a dollar sign is a compiler directive. -/
def commentKind (c : Comment) : LexemeKind :=
  match c.style, c.body with
  | .block _, '$' :: _ => .directive c
  | _, _ => .comment c

/-- A comment as a lexeme that begins with the first character of its opener. -/
def commentCut (c : Comment) : LexemeKind × Nat :=
  (commentKind c, c.chars.length - 1)

/-! ### One lexeme -/

/-- The name that begins with `c`. -/
def nameCut (c : Char) (cs : List Char) : LexemeKind × Nat :=
  let n := runLength isNameRest cs
  (.ident (Keyword.ofWord? (String.ofList (c :: cs.take n))) false, n)

/-- What the text beginning with `c` starts with, and how many characters
    after `c` belong to it. -/
def cut (nested : Bool) (c : Char) (cs : List Char) : LexemeKind × Nat :=
  let next := cs.head?
  let nextIs (p : Char → Bool) : Bool := next.any p
  if c = '\r' ∧ next = some '\n' then (.newline, 1)
  else if isLineEnd c then (.newline, 0)
  else if isGap c then (.blank, runLength isGap cs)
  else if c = '\x7b' then commentCut (blockComment .brace nested cs)
  else if c = '(' ∧ next = some '*' then commentCut (blockComment .parenStar nested cs.tail)
  else if c = '/' ∧ next = some '/' then commentCut (lineComment cs.tail)
  else if c = '\'' then
    let (n, terminated) := stringFrom 0 cs
    (.str terminated, n)
  else if c = '#' ∧ nextIs (fun d => d.isDigit || d == '$') then (.charCode, charCodeLength cs)
  else if c = '&' ∧ nextIs isNameStart then (.ident none true, runLength isNameRest cs)
  else if c = '&' ∧ nextIs isOctalDigit then (.number, runLength (orUnderscore isOctalDigit) cs)
  else if c = '$' ∧ nextIs isHexDigit then (.number, runLength (orUnderscore isHexDigit) cs)
  else if c = '%' ∧ nextIs isBinaryDigit then (.number, runLength (orUnderscore isBinaryDigit) cs)
  else if c.isDigit then (.number, decimalLength cs)
  else if isNameStart c then nameCut c cs
  else if nextIs (fun d => pairSymbols.contains (c, d)) then (.symbol, 1)
  else (.symbol, 0)

/-- The lexemes of a text that begins at a location. -/
def lexFrom (nested : Bool) (start : Location) : List Char → List Lexeme
  | [] => []
  | c :: cs =>
    let (kind, n) := cut nested c cs
    let chars := c :: cs.take n
    let stop := start.after chars
    ⟨kind, String.ofList chars, start, stop⟩ :: lexFrom nested stop (cs.drop n)
termination_by cs => cs.length
decreasing_by simp only [List.length_drop, List.length_cons]; omega

/-- The lexemes of a text. -/
def lex (nested : Bool) (source : String) : List Lexeme :=
  lexFrom nested .start source.toList

/-- The place after the last lexeme. -/
def endOf (lexemes : List Lexeme) : Location :=
  (lexemes.getLast?.map Lexeme.stop).getD .start

end PascalOutline.Lexer
