import PascalOutline.Options

/-! # Arguments of the command

  The command takes files and options in any order. An option may be given
  once, except for `-v`. Its value stands in the next argument or is attached:
  `--format json`, `--format=json`, `-f json`, `-fjson`, `-f=json`. Short flags
  may be put together, as in `-vv`. After `--` every argument is a file.

  The help text is left out: `-h` and `--help` are no options here, so a command
  line with one of them is malformed and ends with code 2, and not with the help
  text and code 0.
-/

namespace PascalOutline

/-- An option with a value. -/
inductive ValueOption where
  | output | format | prototype | docGap
deriving DecidableEq, Repr, Inhabited

/-- An option without a value. -/
inductive FlagOption where
  | nestedComments | strictDocs | verbose
deriving DecidableEq, Repr, Inhabited

/-- An option of the command. -/
inductive CommandOption where
  /-- One with a value. -/
  | value (option : ValueOption)
  /-- One without. -/
  | flag (option : FlagOption)
deriving DecidableEq, Repr, Inhabited

namespace CommandOption

/-- The option with a long name. -/
def ofName? (name : String) : Option CommandOption :=
  [("output", value .output), ("format", value .format), ("prototype", value .prototype),
   ("doc-gap", value .docGap), ("nested-comments", flag .nestedComments),
   ("strict-docs", flag .strictDocs), ("verbose", flag .verbose)].lookup name

/-- The option with a short name. -/
def ofLetter? (letter : Char) : Option CommandOption :=
  [('o', value .output), ('f', value .format), ('v', flag .verbose)].lookup letter

end CommandOption

/-- What an argument looks like. -/
inductive Shape where
  /-- The mark `--` -/
  | endOfOptions
  /-- A long option, perhaps with an attached value. -/
  | long (name : String) (attached : Option String)
  /-- Short options after one hyphen. -/
  | short (letters : List Char)
  /-- A file, or the value of an option before it. -/
  | plain
deriving DecidableEq, Repr, Inhabited

namespace Shape

/-- A name, and the text after the first equals sign. -/
def attachedValue (cs : List Char) : String × Option String :=
  let name := cs.takeWhile (· ≠ '=')
  (String.ofList name, (cs.drop name.length).tail?.map String.ofList)

/-- What an argument looks like. A lone hyphen is plain. -/
def of (arg : String) : Shape :=
  match arg.toList with
  | ['-', '-'] => endOfOptions
  | '-' :: '-' :: cs => let (name, attached) := attachedValue cs; long name attached
  | '-' :: c :: cs => short (c :: cs)
  | _ => plain

end Shape

/-- The arguments of a call. -/
structure Arguments where
  /-- Files, folders and patterns. -/
  files : List String := []
  /-- The folder for output files. -/
  output : Option String := none
  /-- The name of the output format. -/
  format : Option String := none
  /-- A signature to read instead of files. -/
  prototype : Option String := none
  /-- Whether comments of the same style nest. -/
  nestedComments : Bool := false
  /-- Whether plain brace comments do not document. -/
  strictDocs : Bool := false
  /-- The gap limit. -/
  docGap : Option Nat := none
  /-- How much is logged. -/
  verbosity : Nat := 0
deriving DecidableEq, Repr, Inhabited

/-- What a call asks for. -/
inductive Mode where
  /-- The entry for a signature. -/
  | prototype (text : String)
  /-- The outline of the standard input. -/
  | input
  /-- The outlines of files. -/
  | files
deriving DecidableEq, Repr, Inhabited

namespace Arguments

/-- What a call asks for. A signature comes before files, and the standard
    input is read when there are neither. -/
def mode (a : Arguments) : Mode :=
  match a.prototype with
  | some text => .prototype text
  | none => if a.files.isEmpty then .input else .files

/-- How sources are read. -/
def options (a : Arguments) : Options :=
  { nestedComments := a.nestedComments, braceDocs := !a.strictDocs, docGap := a.docGap }

/-- The name of the output format, `tree` unless another one is given. -/
def formatName (a : Arguments) : String :=
  a.format.getD "tree"

/-! ### Values -/

/-- The number that decimal digits stand for. -/
def digitsValue? (cs : List Char) : Option Nat :=
  if cs ≠ [] ∧ cs.all Char.isDigit then
    some (cs.foldl (fun n c => 10 * n + (c.toNat - '0'.toNat)) 0)
  else none

/-- A number with an optional sign, of which only zero may be negative. -/
def natValue? : List Char → Option Nat
  | '+' :: cs => digitsValue? cs
  | '-' :: cs => (digitsValue? cs).filter (· = 0)
  | cs => digitsValue? cs

/-- The arguments with a value for an option; nothing if it has one already
    or the value is not suitable. -/
def setValue (a : Arguments) (option : ValueOption) (value : String) : Option Arguments :=
  match option with
  | .output =>
    if a.output.isSome ∨ value = "" then none else some { a with output := some value }
  | .format => if a.format.isSome then none else some { a with format := some value }
  | .prototype => if a.prototype.isSome then none else some { a with prototype := some value }
  | .docGap =>
    if a.docGap.isSome then none
    else ((natValue? value.toList).filter (· ≤ Options.maxDocGap)).map fun gap =>
      { a with docGap := some gap }

/-- The arguments with a flag; nothing if it is set already. -/
def setFlag (a : Arguments) (option : FlagOption) : Option Arguments :=
  match option with
  | .nestedComments => if a.nestedComments then none else some { a with nestedComments := true }
  | .strictDocs => if a.strictDocs then none else some { a with strictDocs := true }
  | .verbose => some { a with verbosity := a.verbosity + 1 }

/-! ### Reading a command line -/

/-- The arguments so far, and the option that waits for its value. -/
abbrev Partial := Arguments × Option ValueOption

/-- Reads a long option. -/
def readLong (a : Arguments) (name : String) (attached : Option String) : Option Partial :=
  match CommandOption.ofName? name, attached with
  | some (.value option), some value => (a.setValue option value).map (·, none)
  | some (.value option), none => some (a, some option)
  | some (.flag option), none => (a.setFlag option).map (·, none)
  | _, _ => none

/-- Reads short options. The first one with a value takes what follows it,
    without an equals sign. -/
def readShort (a : Arguments) : List Char → Option Partial
  | [] => some (a, none)
  | c :: cs =>
    match CommandOption.ofLetter? c with
    | some (.flag option) => (a.setFlag option).bind fun a => a.readShort cs
    | some (.value option) =>
      match cs with
      | [] => some (a, some option)
      | '=' :: value => (a.setValue option (String.ofList value)).map (·, none)
      | value => (a.setValue option (String.ofList value)).map (·, none)
    | none => none

/-- Reads the rest of a command line, the value of a waiting option first. -/
def readFrom (a : Arguments) (waiting : Option ValueOption) : List String → Option Arguments
  | [] => if waiting.isSome then none else some a
  | arg :: args =>
    match waiting, Shape.of arg with
    | some option, .plain => (a.setValue option arg).bind fun a => a.readFrom none args
    | some _, _ => none
    | none, .endOfOptions => some { a with files := a.files ++ args }
    | none, .long name attached =>
      (a.readLong name attached).bind fun (a, waiting) => a.readFrom waiting args
    | none, .short letters =>
      (a.readShort letters).bind fun (a, waiting) => a.readFrom waiting args
    | none, .plain => { a with files := a.files ++ [arg] }.readFrom none args

/-- Reads a command line; nothing if it is malformed. -/
def read (args : List String) : Option Arguments :=
  ({} : Arguments).readFrom none args

end Arguments

end PascalOutline
