import PascalOutline.Recognizer.State

/-! # Declarations

  One function for each form of declaration: module headers, `uses` clauses,
  routines, properties, types, constants, variables and fields. Each one
  begins at the first token of its form, makes the entries and moves the
  cursor past what it read.
-/

namespace PascalOutline.State

/-! ### Modules -/

/-- A module header such as `unit System.Foo;` or `program P(input, output);`.
    Its entry becomes the root. -/
def moduleHeader (s : State) (kind : EntryKind) : State :=
  let (doc, s) := s.takeLeading
  let first := s.cursor
  let atName := first.next
  let qualified := Extent.qualifiedName atName.ahead
  let name := match qualified.qualifier with
    | some qualifier => qualifier ++ "." ++ qualified.name
    | none => qualified.name
  let atArgs := atName.advance qualified.length
  let afterArgs := atArgs.passGroup "(" ")"
  let terminator := afterArgs.passHeaderRest
  let done := terminator.passSymbol ";"
  ((s.moveTo done).checkName name kind atName.location).pushItem {
    kind, name, doc
    signature := first.textUpTo terminator
    args := atArgs.textUpTo afterArgs
    start := first.location
    stop := done.prevStop }

/-- A `uses`, `requires` or `contains` clause of a module. -/
def usesClause (s : State) (module : EntryId) : State :=
  let c := s.cursor.next
  let found := Clause.units c.ahead
  (s.moveTo (c.advance found.length)).build
    (·.modify module fun e => { e with uses := e.uses ++ found.texts })

/-- An `initialization` or `finalization` section. -/
def openSection (s : State) : State :=
  let (doc, s) := s.takeLeading
  let first := s.cursor
  let done := first.next
  (s.moveTo done).openItem {
    kind := .section_
    name := lowered first.text
    signature := first.textUpTo done
    doc
    start := first.location
    stop := done.prevStop } .statements

/-! ### Routines and properties -/

/-- A routine. A member of a type, a routine of the interface part and one
    that is defined elsewhere are complete with their header; any other one
    is open until its body was read. -/
def routineDecl (s : State) (member : Option Visibility) : State :=
  let (doc, s) := s.takeLeading
  match Header.routine? s.cursor with
  | none => s.next
  | some (header, done) =>
    let forward := member.isSome || s.inInterface || header.isForward
    let e := { header.toEntry with doc, forward, visibility := member }
    let s := (s.moveTo done).checkName header.name header.kind header.nameAt
    if forward then s.addItem e else s.openItem e (.routine .declarations .none)

/-- A property of a type. -/
def propertyDecl (s : State) (visibility : Visibility) : State :=
  let (doc, s) := s.takeLeading
  match Header.property? s.cursor with
  | none => s.next
  | some (header, done) =>
    ((s.moveTo done).checkName header.name header.kind header.nameAt).addItem
      { header.toEntry with doc, visibility := some visibility }

/-! ### Types -/

/-- A type that is only announced, as in `TFoo = class;`, from its keyword on.
    `first` stands before the declaration. -/
def forwardType (s : State) (first : Cursor) (e : Entry) (kind : EntryKind) : State :=
  let terminator := s.cursor.next
  let done := terminator.passSymbol ";"
  (s.moveTo done).addItem
    { e with kind, forward := true, signature := first.textUpTo terminator, stop := done.prevStop }

/-- A class-like type from its keyword on. It holds members unless its header
    ends in a semicolon, as in `class(Exception);`. -/
def containerType (s : State) (first : Cursor) (e : Entry) (kind : EntryKind) : State :=
  let c := s.cursor.next
  let modifiers := Clause.modifiers c.ahead
  let c := c.advance modifiers.length
  let bases := Clause.bases c.ahead
  let c := c.advance bases.length
  let e := { e with
    kind
    specifiers := modifiers.specifiers
    bases := modifiers.bases ++ bases.texts
    signature := first.textUpTo c }
  if c.atSymbol ";" then (s.moveTo c.next).addItem { e with stop := c.next.prevStop }
  else (s.moveTo c).openItem { e with stop := c.prevStop } (.container kind .public_ .fields)

/-- One value of an enumeration. -/
def enumValue (s : State) (value : Clause.EnumValue) : State :=
  let (doc, s) := (s.moveTo value.before).takeLeading
  (s.moveTo value.after).addItem {
    kind := .enumValue
    name := value.name
    signature := value.signature
    initializer := value.initializer
    doc
    start := value.before.location
    stop := value.after.prevStop }

/-- An enumeration from its opening parenthesis on, with an entry for each
    value. -/
def enumType (s : State) (first : Cursor) (e : Entry) : State :=
  let opening := s.cursor
  let id := s.nextId
  let (values, closing) := Clause.enumValues opening.next
  let terminator := closing.passTypeExpr []
  let done := terminator.passSymbol ";"
  let s := s.pushItem { e with stop := opening.location }
  let s := (values.foldl enumValue s).moveTo done
  let complete (e : Entry) : Entry :=
    { e with typeText := opening.textUpTo closing, signature := first.textUpTo terminator }
  (s.build fun b => (b.modify id complete).pop done.prevStop).itemDone [id]

/-- Any other type: an alias, a range, an array, a set, a pointer, a class
    reference or a routine type with its directives. -/
def plainType (s : State) (first : Cursor) (e : Entry) : State :=
  let (typeText, terminator) := s.cursor.typeExpr []
  let (specifiers, done) := (terminator.passSymbol ";").directives
  (s.moveTo done).addItem
    { e with typeText, specifiers, signature := first.textUpTo terminator, stop := done.prevStop }

/-- The right side of a type declaration. -/
def typeBody (s : State) (first : Cursor) (e : Entry) : State :=
  let terminated := s.cursor.nthIsSymbol 1 ";"
  match s.cursor.keyword? with
  | some .class_ =>
    if terminated then s.forwardType first e .class_
    else if s.cursor.nthKeyword? 1 = some .of_ then s.plainType first e
    else s.containerType first e .class_
  | some .interface | some .dispInterface =>
    if terminated then s.forwardType first e .interface else s.containerType first e .interface
  | some .object => s.containerType first e .object
  | some .record => s.containerType first e .record
  | _ => if s.cursor.atSymbol "(" then s.enumType first e else s.plainType first e

/-- A type declaration such as `TFoo<T> = packed record ... end;`. Without an
    equals sign it is passed over. -/
def typeDecl (s : State) (member : Option Visibility) : State :=
  let (doc, s) := s.takeLeading
  let first := s.cursor
  let atName := first.passWord "generic"
  if atName.atName then
    let afterName := atName.next
    let generics :=
      if afterName.atSymbol "<" then Extent.generics afterName.ahead else ⟨0, false⟩
    let c := afterName.advance generics.length
    if generics.tookEquals || c.atSymbol "=" then
      let c := (c.nextIf (!generics.tookEquals)).passKeyword .type_
      (s.moveTo (c.advance (Clause.packing c.ahead))).typeBody first
        { kind := .type_, name := atName.text, doc, start := first.location, visibility := member }
    else s.moveTo ((c.passTypeExpr []).passSymbol ";")
  else s.moveTo atName.next

/-! ### Values -/

/-- Constants, variables or fields: one entry for each name, with the type,
    the value and the documentation that they share. -/
def valueDecl (s : State) (kind : EntryKind) (member : Option Visibility) (classField : Bool) :
    State :=
  let (doc, s) := s.takeLeading
  let first := s.cursor
  let (names, n) := Clause.declaredNames first.ahead
  if names.isEmpty then s.next
  else
    let (typeText, afterType) := (first.advance n).typeExprAfter [":"] ["="]
    let (initializer, afterValue) := afterType.typeExprAfter ["=", ":="] []
    let terminator :=
      if afterValue.atSymbol ";" then afterValue else afterValue.passTypeExpr []
    let ended := terminator.passSymbol ";"
    -- Only a variable may have directives: `X: cint; cvar; external;`
    let (directives, done) := if kind = .var then ended.directives else ([], ended)
    let entryOf (t : Token) (stop : Location) : Entry :=
      { kind, name := t.text, typeText, initializer, doc
        signature := first.textUpTo terminator
        specifiers := (if classField then ["class"] else []) ++ directives
        visibility := member
        start := t.start
        stop }
    let others := names.dropLast.map fun t => entryOf t t.stop
    let last := names.getLast?.toList.map fun t => entryOf t done.prevStop
    let ids := List.range' s.nextId names.length
    let s := s.build fun b => (others ++ last).foldl Builder.addLeaf b
    (s.moveTo done).itemDone ids

/-- The variant part of a record, `case [Tag:] TTag of`. The tag becomes a
    field; the fields of the variants follow in parentheses. -/
def variantPart (s : State) (visibility : Visibility) (decls : DeclPart) : State :=
  let depth := match decls with
    | .variant depth => depth
    | _ => 0
  let s :=
    if s.cursor.nthIsName 1 && s.cursor.nthIsSymbol 2 ":" then
      let (doc, s) := s.takeLeading
      let tag := s.cursor.next
      let (typeText, done) := (tag.advance 2).typeExpr ["of"]
      (s.moveTo done).addItem {
        kind := .field
        name := tag.text
        typeText, doc
        signature := tag.textUpTo done
        visibility := some visibility
        start := tag.location
        stop := done.prevStop }
    else s.moveTo (s.cursor.next.passTypeExpr ["of"])
  (s.moveTo (s.cursor.passKeyword .of_)).setDecls (.variant depth)

/-! ### What makes no entry -/

/-- An attribute or interface identifier in brackets. Documentation before it
    belongs to what follows it. -/
def skipAttribute (s : State) : State :=
  let c := s.cursor.passGroup "[" "]"
  { s with cursor := c, draft := (s.draft.sync s.cursor).skipTransparent c }

/-- A `label` or `exports` clause. -/
def skipStatement (s : State) : State :=
  let c := s.cursor.next
  s.moveTo (c.advance (Clause.statementRest c.ahead))

end PascalOutline.State
