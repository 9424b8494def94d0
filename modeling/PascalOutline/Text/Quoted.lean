import PascalOutline.Text.Printable

/-! # Text in log lines

  Two forms in which a foreign text stands in a log line. As a value it is
  quoted: between double quotes, with a backslash before quotes and
  backslashes, short names for the usual control characters, and the code
  point in braces for what cannot be printed. Inside of a message it stands
  as it is, apart from the characters that can steer a terminal.
-/

namespace PascalOutline

/-- A code point in hexadecimal between braces. -/
def codePoint (c : Char) : List Char :=
  ['\\', 'u', '\x7b'] ++ Nat.toDigits 16 c.toNat ++ ['\x7d']

/-! ### Values -/

/-- A character as it stands between quotes. -/
def quotedChar (c : Char) : List Char :=
  if c = '"' then ['\\', '"']
  else if c = '\\' then ['\\', '\\']
  else if c = '\n' then ['\\', 'n']
  else if c = '\r' then ['\\', 'r']
  else if c = '\t' then ['\\', 't']
  else if c = '\x00' then ['\\', '0']
  else if isPrintable c then [c]
  else codePoint c

/-- A text between double quotes. -/
def quoted (text : String) : String :=
  String.ofList ('"' :: text.toList.flatMap quotedChar ++ ['"'])

/-! ### Messages -/

/-- The control characters of the ASCII table that can steer a terminal: bell,
    backspace, form feed, escape and delete. -/
def terminalControls : List Char :=
  ['\x07', '\x08', '\x0c', '\x1b', '\x7f']

/-- A byte by its two hexadecimal digits. -/
def byteCode (c : Char) : List Char :=
  ['\\', 'x'] ++ [Nat.digitChar (c.toNat / 16), Nat.digitChar (c.toNat % 16)]

/-- A character as it stands in a message. -/
def messageChar (c : Char) : List Char :=
  if c ∈ terminalControls then byteCode c
  else if 0x80 ≤ c.toNat ∧ c.toNat ≤ 0x9F then codePoint c
  else [c]

/-- A text as it stands in a message. -/
def terminalSafe (text : String) : String :=
  String.ofList (text.toList.flatMap messageChar)

end PascalOutline
