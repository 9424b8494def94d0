import PascalOutline.Cursor
import PascalOutline.Entry
import PascalOutline.Text.Blank
import PascalOutline.Token.Extent

/-! # Headers of routines and properties

  A header is read from the tokens alone, without any knowledge of what it
  stands in, so the same functions read a header in a source and one that is
  given on its own.
-/

namespace PascalOutline

/-! ### Moving over phrases -/

namespace Cursor

/-- Passes a group in brackets if one begins here. -/
def passGroup (c : Cursor) (opening closing : String) : Cursor :=
  if c.atSymbol opening then c.advance (Extent.group opening closing c.ahead) else c

/-- Passes a type expression or value. -/
def passTypeExpr (c : Cursor) (stops : List String) : Cursor :=
  c.advance (Extent.typeExpr stops c.ahead)

/-- The text of a type expression or value, and the cursor after it. -/
def typeExpr (c : Cursor) (stops : List String) : String × Cursor :=
  (c.textUpTo (c.passTypeExpr stops), c.passTypeExpr stops)

/-- The type expression or value after one of some marks; an empty text and
    an unmoved cursor if none of the marks comes next. -/
def typeExprAfter (c : Cursor) (marks stops : List String) : String × Cursor :=
  if c.nthIsSymbolIn 0 marks then c.next.typeExpr stops else ("", c)

theorem length_ahead_typeExprAfter_le (c : Cursor) (marks stops : List String) :
    (c.typeExprAfter marks stops).2.ahead.length ≤ c.ahead.length := by
  unfold typeExprAfter
  split
  · simp only [typeExpr, passTypeExpr, length_ahead_advance, length_ahead_next]; omega
  · exact Nat.le_refl _

/-- Passes the rest of a header, up to its semicolon. -/
def passHeaderRest (c : Cursor) : Cursor :=
  c.advance (Extent.headerRest c.ahead)

/-- The directives that begin here, and the cursor after them. -/
def directives (c : Cursor) : List String × Cursor :=
  let found := Extent.directives c.ahead
  (found.texts, c.advance found.length)

/-- The accessors that begin here, and the cursor after them. -/
def accessors (c : Cursor) : List String × Cursor :=
  let found := Extent.accessors c.ahead
  (found.texts, c.advance found.length)

end Cursor

/-! ### Headers -/

/-- A routine or property header, taken apart. -/
structure Header where
  /-- What it declares. -/
  kind : EntryKind
  /-- The name; empty when it is missing. -/
  name : String
  /-- Everything before the last dot of the name. -/
  qualifier : Option String
  /-- The header without its semicolon and directives. -/
  signature : String
  /-- The parameters, with their brackets. -/
  args : String
  /-- The result type or the type of the property. -/
  typeText : String
  /-- `class`, accessors and directives. -/
  specifiers : List String
  /-- The place before the first token. -/
  start : Location
  /-- The place after the last token, directives included. -/
  stop : Location
  /-- The place where the name was expected. -/
  nameAt : Location
deriving DecidableEq, Repr, Inhabited

namespace Header

/-- Whether a specifier says that the routine is defined elsewhere. -/
def isForwardSpecifier (specifier : String) : Bool :=
  isOneOf (String.ofList (firstWord specifier.toList)) ["forward", "external"]

/-- Whether the directives say that the routine is defined elsewhere. -/
def isForward (h : Header) : Bool :=
  h.specifiers.any isForwardSpecifier

/-- The entry that a header declares. -/
def toEntry (h : Header) : Entry :=
  { kind := h.kind, name := h.name, qualifier := h.qualifier, signature := h.signature,
    args := h.args, typeText := h.typeText, specifiers := h.specifiers,
    start := h.start, stop := h.stop }

/-- The kind of routine that a keyword introduces. -/
def routineKind? : Keyword → Option EntryKind
  | .procedure => some .procedure
  | .function => some .function
  | .constructor => some .constructor
  | .destructor => some .destructor
  | .operator => some .operator
  | _ => none

/-- The specifier for a leading `class`. -/
def classSpecifier (c : Cursor) : List String :=
  if c.atKeyword .class_ then ["class"] else []

/-- The name of a routine of a kind. -/
def routineName (kind : EntryKind) (ts : List Token) : Extent.QualifiedName :=
  if kind = .operator then Extent.operatorName ts else Extent.qualifiedName ts

/-- Whether the result of an operator is named here, as in
    `operator +(a, b: T) r: T`. -/
def namesResult (kind : EntryKind) (c : Cursor) : Bool :=
  kind = .operator && c.nthIsIdent 0 && c.nthIsSymbol 1 ":"

/-- The header of a routine that begins here, with its directives, and the
    cursor after it; nothing if none begins here. -/
def routine? (c : Cursor) : Option (Header × Cursor) := do
  let introduced := c.passKeyword .class_
  let kind ← introduced.keyword?.bind routineKind?
  let atName := introduced.next
  let name := routineName kind atName.ahead
  let atArgs := atName.advance name.length
  let afterArgs := atArgs.passGroup "(" ")"
  let (typeText, afterType) :=
    (afterArgs.nextIf (namesResult kind afterArgs)).typeExprAfter [":"] []
  let terminator := afterType.passHeaderRest
  let (directives, done) := (terminator.passSymbol ";").directives
  return ({
    kind
    name := name.name
    qualifier := name.qualifier
    signature := c.textUpTo terminator
    args := atArgs.textUpTo afterArgs
    typeText
    specifiers := classSpecifier c ++ directives
    start := c.location
    stop := done.prevStop
    nameAt := atName.location }, done)

/-- The header of a property that begins here, with its directives, and the
    cursor after it; nothing if none begins here. -/
def property? (c : Cursor) : Option (Header × Cursor) :=
  let introduced := c.passKeyword .class_
  if introduced.atKeyword .property then
    let atName := introduced.next
    let atArgs := atName.nextIf atName.atName
    let afterArgs := atArgs.passGroup "[" "]"
    let (typeText, afterType) := afterArgs.typeExprAfter [":"] Extent.accessorWords
    let (accessors, afterAccessors) := afterType.accessors
    let terminator := afterAccessors.passHeaderRest
    let afterTerminator := terminator.passSymbol ";"
    let marks := Extent.defaultMarks afterTerminator.ahead
    let (directives, done) := (afterTerminator.advance (2 * marks)).directives
    some ({
      kind := .property
      name := atName.textUpTo atArgs
      qualifier := none
      signature := c.textUpTo terminator
      args := atArgs.textUpTo afterArgs
      typeText
      specifiers := classSpecifier c ++ accessors ++ List.replicate marks "default" ++ directives
      start := c.location
      stop := done.prevStop
      nameAt := atName.location }, done)
  else none

end Header

end PascalOutline
