import PascalOutline.Event
import PascalOutline.Header

/-! # Signatures on their own

  A routine or property signature that does not come from a source, such as
  one from a cross reference, read into an entry of its own.
-/

namespace PascalOutline.Prototype

/-- The length of the attribute that the tokens begin with; `depth` brackets
    are open so far. -/
def attributeFrom (depth : Nat) : List Token → Nat
  | [] => 0
  | t :: ts =>
    if t.text = "[" then 1 + attributeFrom (depth + 1) ts
    else if t.text = "]" then if depth ≤ 1 then 1 else 1 + attributeFrom (depth - 1) ts
    else 1 + attributeFrom depth ts

/-- The number of tokens of the attributes in front of a signature. -/
def attributes : List Token → Nat
  | [] => 0
  | t :: ts =>
    if t.isSymbol "[" then
      let n := attributeFrom 1 ts
      1 + n + attributes (ts.drop n)
    else 0
termination_by ts => ts.length
decreasing_by simp only [List.length_drop, List.length_cons]; omega

/-- The lexemes of a signature. -/
def lexemes (text : String) : List Lexeme :=
  Lexer.lex false text

/-- The header that a text begins with, attributes aside. -/
def header? (text : String) : Option Header :=
  let c := Cursor.ofLexemes (lexemes text)
  let c := c.advance (attributes c.ahead)
  ((Header.routine? c).or (Header.property? c)).map Prod.fst

/-- The entry for a routine or property signature; the empty entry for a text
    that is none or that has no name. -/
def read (text : String) : Entry :=
  match header? text with
  | some h => if h.name = "" then {} else h.toEntry
  | none => {}

/-- The events while a signature was read. -/
def events (text : String) : List Event :=
  Event.ofLexemes (lexemes text)

end PascalOutline.Prototype
