import PascalOutline.Location
import PascalOutline.Text.Case

/-! # Entries of an outline

  An entry is one declaration of a source, or a scope that holds others: what
  it is, how it is called, the text of its header taken apart, its
  documentation and the range of the source that it covers.
-/

namespace PascalOutline

/-! ### Kinds -/

/-- What an entry declares. -/
inductive EntryKind where
  | program | unit | library | package
  /-- The statements after `initialization` or `finalization`. -/
  | section_
  | class_ | record | object | interface
  | procedure | function | constructor | destructor | operator
  | property | field | const | var | type_ | enumValue
  /-- The root of a source that has no module header. -/
  | other
deriving DecidableEq, Repr, Inhabited

namespace EntryKind

/-- The word for a kind. -/
def word : EntryKind → String
  | program => "program"
  | unit => "unit"
  | library => "library"
  | package => "package"
  | section_ => "section"
  | class_ => "class"
  | record => "record"
  | object => "object"
  | interface => "interface"
  | procedure => "procedure"
  | function => "function"
  | constructor => "constructor"
  | destructor => "destructor"
  | operator => "operator"
  | property => "property"
  | field => "field"
  | const => "const"
  | var => "var"
  | type_ => "type"
  | enumValue => "enum-value"
  | other => "other"

/-- Every kind. -/
def all : List EntryKind :=
  [program, unit, library, package, section_, class_, record, object, interface, procedure,
   function, constructor, destructor, operator, property, field, const, var, type_, enumValue,
   other]

/-- The kind for a word. -/
def ofWord? (word : String) : Option EntryKind :=
  all.find? fun kind => kind.word = word

/-- Whether a kind is a whole module. -/
def isModule : EntryKind → Bool
  | program | unit | library | package => true
  | _ => false

/-- Whether a kind is a routine. -/
def isRoutine : EntryKind → Bool
  | procedure | function | constructor | destructor | operator => true
  | _ => false

/-- Whether a kind is a type whose members have a visibility. -/
def isContainer : EntryKind → Bool
  | class_ | record | object | interface => true
  | _ => false

/-- Every kind is listed. -/
theorem mem_all (kind : EntryKind) : kind ∈ all := by
  cases kind <;> decide

end EntryKind

/-! ### Visibility -/

/-- Who may use a member of a type. -/
inductive Visibility where
  | public_ | private_ | protected_ | published | strictPrivate | strictProtected | automated
deriving DecidableEq, Repr, Inhabited

namespace Visibility

/-- The words for a visibility, as they stand in a source. -/
def words : Visibility → String
  | public_ => "public"
  | private_ => "private"
  | protected_ => "protected"
  | published => "published"
  | strictPrivate => "strict private"
  | strictProtected => "strict protected"
  | automated => "automated"

/-- The name of a visibility in structured output: its words with a hyphen. -/
def label : Visibility → String
  | strictPrivate => "strict-private"
  | strictProtected => "strict-protected"
  | visibility => visibility.words

/-- Every visibility. -/
def all : List Visibility :=
  [public_, private_, protected_, published, strictPrivate, strictProtected, automated]

end Visibility

/-! ### Entries -/

/-- Handle of an entry: its place in the order of creation. -/
abbrev EntryId := Nat

/-- One declaration, or one scope that holds declarations. -/
structure Entry where
  /-- Its own handle. -/
  id : EntryId := 0
  /-- What it declares. -/
  kind : EntryKind := .other
  /-- Its name; empty when the header has none. -/
  name : String := ""
  /-- The owner of a routine that is implemented outside of it: `TFoo` in
      `TFoo.Bar`. -/
  qualifier : Option String := none
  /-- The header with its blanks collapsed and its terminator left out. -/
  signature : String := ""
  /-- The parameters, with their brackets. -/
  args : String := ""
  /-- The declared type. -/
  typeText : String := ""
  /-- The initial value. -/
  initializer : String := ""
  /-- The ancestors of a type. -/
  bases : List String := []
  /-- Directives, accessors and modifiers. -/
  specifiers : List String := []
  /-- The units that a module uses. -/
  uses : List String := []
  /-- The attached documentation. -/
  doc : String := ""
  /-- The visibility of a member. -/
  visibility : Option Visibility := none
  /-- Whether it is declared here and defined elsewhere. -/
  forward : Bool := false
  /-- The file that it was read from. -/
  file : String := ""
  /-- The place before its first token. -/
  start : Location := .nowhere
  /-- The place after its last token. -/
  stop : Location := .nowhere
  /-- The entry that holds it. -/
  parent : Option EntryId := none
  /-- The entries that it holds, in source order. -/
  children : Array EntryId := #[]
deriving DecidableEq, Repr, Inhabited

namespace Entry

/-- Whether an entry has a specifier, in any case. -/
def hasSpecifier (e : Entry) (word : String) : Bool :=
  isOneOf word e.specifiers

/-- The entry with one more paragraph of documentation; an empty text adds
    nothing. -/
def addDoc (e : Entry) (text : String) : Entry :=
  if text = "" then e
  else if e.doc = "" then { e with doc := text }
  else { e with doc := e.doc ++ "\n\n" ++ text }

end Entry

end PascalOutline
