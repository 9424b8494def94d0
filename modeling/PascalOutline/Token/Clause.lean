import PascalOutline.Header

/-! # Clauses of a declaration

  The lists inside a declaration: the units of a `uses` clause, the ancestors
  and modifiers of a type, the values of an enumeration, the names that share
  one type. Each reader takes the tokens from the beginning of its clause and
  says what it found and how many tokens it passed.
-/

namespace PascalOutline.Clause

/-! ### Units -/

/-- The number of tokens of `.Name` pairs. -/
def dottedRest : List Token → Nat
  | dot :: name :: ts => if dot.isSymbol "." && name.isIdent then 2 + dottedRest ts else 0
  | _ => 0

/-- Texts that were found, and the number of tokens that were passed. -/
structure Names where
  /-- The texts, in source order. -/
  texts : List String
  /-- The number of tokens. -/
  length : Nat
deriving DecidableEq, Repr, Inhabited

/-- Whether a list of units ends before a keyword. -/
def endsUnits (kw : Keyword) : Bool :=
  !kw.isContextual || kw.isHardStop

/-- The units named after `uses`, `requires` or `contains`, up to and with the
    semicolon. The place of a unit, given after `in`, is passed over. -/
def units : List Token → Names
  | [] => ⟨[], 0⟩
  | t :: ts =>
    if t.isSymbol ";" then ⟨[], 1⟩
    else if t.isKeywordThat endsUnits then ⟨[], 0⟩
    else if t.isName then
      let n := dottedRest ts
      let passed := if (ts.drop n).head?.any (Token.isWord · "in") then n + 2 else n
      let others := units (ts.drop passed)
      ⟨Token.render (t :: ts.take n) :: others.texts, 1 + passed + others.length⟩
    else
      let others := units ts
      ⟨others.texts, 1 + others.length⟩
termination_by ts => ts.length
decreasing_by all_goals simp only [List.length_drop, List.length_cons]; omega

/-! ### Types -/

/-- The number of modifiers that only say how a type is stored. -/
def packing (ts : List Token) : Nat :=
  (ts.takeWhile fun t => t.isKeyword .packed || t.isWord "bitpacked").length

/-- The number of open angle brackets after a token. -/
def angleAfter (angle : Nat) (t : Token) : Nat :=
  if t.isSymbol "<" then angle + 1 else if t.isSymbol ">" then angle - 1 else angle

/-- The ancestors in a list, split at commas outside of angle brackets, and
    the number of tokens with the closing parenthesis; `current` are the
    tokens of the ancestor that is being read, the last one first. -/
def basesFrom (angle : Nat) (current : List Token) : List Token → List (List Token) × Nat
  | [] => ([current.reverse], 0)
  | t :: ts =>
    if Extent.endsHeader t then ([current.reverse], 0)
    else if t.isSymbol ")" then ([current.reverse], 1)
    else if t.isSymbol "," && angle == 0 then
      let (others, n) := basesFrom 0 [] ts
      (current.reverse :: others, n + 1)
    else
      let (all, n) := basesFrom (angleAfter angle t) (t :: current) ts
      (all, n + 1)

/-- The ancestors listed in parentheses, if the tokens begin with such a list. -/
def bases : List Token → Names
  | [] => ⟨[], 0⟩
  | t :: ts =>
    if t.isSymbol "(" then
      let (found, n) := basesFrom 0 [] ts
      ⟨(found.map Token.render).filter (· ≠ ""), n + 1⟩
    else ⟨[], 0⟩

/-- The modifiers of a class-like type. -/
structure Modifiers where
  /-- The modifiers, in lower case. -/
  specifiers : List String
  /-- The types that a helper helps, and its ancestors. -/
  bases : List String
  /-- The number of tokens. -/
  length : Nat
deriving DecidableEq, Repr, Inhabited

/-- The type after `for`, if the tokens begin with it. -/
def helped : List Token → Names
  | [] => ⟨[], 0⟩
  | t :: ts =>
    if t.isWord "for" then
      let n := (Extent.qualifiedName ts).length
      ⟨[Token.render (ts.take n)], 1 + n⟩
    else ⟨[], 0⟩

/-- The modifiers that the tokens begin with. A modifier word before a colon
    or a comma is the name of a field. -/
def modifiers : List Token → Modifiers
  | [] => ⟨[], [], 0⟩
  | t :: ts =>
    if ts.head?.any (Token.isSymbolIn · [":", ","]) then ⟨[], [], 0⟩
    else if t.isWordIn ["sealed", "abstract"] then
      let others := modifiers ts
      ⟨lowered t.text :: others.specifiers, others.bases, 1 + others.length⟩
    else if t.isWord "helper" then
      let ancestors := bases ts
      let subject := helped (ts.drop ancestors.length)
      let n := ancestors.length + subject.length
      let others := modifiers (ts.drop n)
      ⟨"helper" :: others.specifiers, subject.texts ++ ancestors.texts ++ others.bases,
        1 + n + others.length⟩
    else ⟨[], [], 0⟩
termination_by ts => ts.length
decreasing_by all_goals simp only [List.length_drop, List.length_cons]; omega

/-! ### Enumerations -/

/-- One value of an enumeration. -/
structure EnumValue where
  /-- The cursor before it. -/
  before : Cursor
  /-- The cursor after it and the comma that follows it. -/
  after : Cursor
  /-- Its name. -/
  name : String
  /-- Its text. -/
  signature : String
  /-- The number given to it, if any. -/
  initializer : String
deriving DecidableEq, Repr, Inhabited

/-- The values of an enumeration, from the first one up to and with the
    closing parenthesis, and the cursor after it. -/
def enumValues (c : Cursor) : List EnumValue × Cursor :=
  match _ : c.ahead with
  | [] => ([], c)
  | t :: _ =>
    if t.isSymbol ")" then ([], c.next)
    else if Extent.endsHeader t then ([], c)
    else if t.isIdent then
      let value := c.next.typeExprAfter ["=", ":="] [","]
      let after := value.2.passSymbol ","
      let others := enumValues after
      (⟨c, after, t.text, c.textUpTo value.2, value.1⟩ :: others.1, others.2)
    else enumValues c.next
termination_by c.ahead.length
decreasing_by
  · have bound := Cursor.length_ahead_passSymbol_le (c.next.typeExprAfter ["=", ":="] [","]).2 ","
    have value := Cursor.length_ahead_typeExprAfter_le c.next ["=", ":="] [","]
    have step := Cursor.length_ahead_next c
    simp_all only [List.length_cons]
    omega
  · have step := Cursor.length_ahead_next c
    simp_all only [List.length_cons]
    omega

/-! ### Values -/

/-- The names that are declared together, separated by commas, and the number
    of tokens. -/
def declaredNames : List Token → List Token × Nat
  | [] => ([], 0)
  | [t] => if t.isName then ([t], 1) else ([], 0)
  | t :: s :: ts =>
    if t.isName then
      if s.isSymbol "," then
        let (others, n) := declaredNames ts
        (t :: others, 2 + n)
      else ([t], 1)
    else ([], 0)

/-! ### Clauses without entries -/

/-- The number of tokens of a `label` or `exports` clause after its keyword,
    semicolon included. -/
def statementRest : List Token → Nat
  | [] => 0
  | t :: ts =>
    if t.isSymbol ";" then 1
    else if t.isKeywordThat Keyword.isHardStop then 0
    else 1 + statementRest ts

end PascalOutline.Clause
