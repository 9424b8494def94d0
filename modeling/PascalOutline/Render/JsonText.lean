/-! # JSON text

  JSON values, and their text with one member on a line and two blanks of
  indentation for each level.
-/

namespace PascalOutline

/-- A JSON value, as far as outlines need it. -/
inductive Json where
  | string (value : String)
  | number (value : Nat)
  | bool (value : Bool)
  | array (items : List Json)
  | object (members : List (String × Json))
deriving Repr, Inhabited

namespace Json

/-! ### Strings -/

/-- A digit of a number below sixteen. -/
def hexDigit (n : Nat) : Char :=
  (Nat.toDigits 16 n).headD '0'

/-- A character as it stands between quotes. -/
def escapedChar (c : Char) : List Char :=
  if c = '"' then ['\\', '"']
  else if c = '\\' then ['\\', '\\']
  else if c = '\x08' then ['\\', 'b']
  else if c = '\t' then ['\\', 't']
  else if c = '\n' then ['\\', 'n']
  else if c = '\x0c' then ['\\', 'f']
  else if c = '\r' then ['\\', 'r']
  else if c.toNat < 0x20 then
    ['\\', 'u', '0', '0', hexDigit (c.toNat / 16), hexDigit (c.toNat % 16)]
  else [c]

/-- A text between quotes. -/
def quote (s : String) : List Char :=
  '"' :: s.toList.flatMap escapedChar ++ ['"']

/-! ### Values -/

/-- The beginning of a line at a level. -/
def newLine (level : Nat) : List Char :=
  '\n' :: List.replicate (2 * level) ' '

mutual

/-- The text of a value that stands at a level. -/
def print (level : Nat) : Json → List Char
  | string value => quote value
  | number value => Nat.toDigits 10 value
  | bool value => if value then "true".toList else "false".toList
  | array [] => ['[', ']']
  | array (item :: items) =>
    '[' :: (newLine (level + 1) ++ (print (level + 1) item ++ (printItems (level + 1) items
      ++ (newLine level ++ [']']))))
  | object [] => ['\x7b', '\x7d']
  | object ((name, value) :: members) =>
    '\x7b' :: (newLine (level + 1) ++ (quote name ++ (':' :: ' ' :: (print (level + 1) value
      ++ (printMembers (level + 1) members ++ (newLine level ++ ['\x7d']))))))

/-- The text of the items after the first one. -/
def printItems (level : Nat) : List Json → List Char
  | [] => []
  | item :: items => ',' :: (newLine level ++ (print level item ++ printItems level items))

/-- The text of the members after the first one. -/
def printMembers (level : Nat) : List (String × Json) → List Char
  | [] => []
  | (name, value) :: members =>
    ',' :: (newLine level ++ (quote name ++ (':' :: ' ' :: (print level value
      ++ printMembers level members))))

end

/-- The text of a value, with a line end. -/
def document (value : Json) : String :=
  String.ofList (value.print 0 ++ ['\n'])

/-! ### Members -/

/-- A member that is left out when its text is empty. -/
def textMember (name value : String) : List (String × Json) :=
  if value = "" then [] else [(name, string value)]

/-- A member that is left out when its list is empty. -/
def textsMember (name : String) (values : List String) : List (String × Json) :=
  if values = [] then [] else [(name, array (values.map string))]

/-- A member that is left out when it has no value. -/
def optionMember (name : String) (value : Option Json) : List (String × Json) :=
  value.toList.map fun v => (name, v)

end Json

end PascalOutline
