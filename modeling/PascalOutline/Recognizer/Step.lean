import PascalOutline.Recognizer.Declaration

/-! # One step of the recognizer

  A step looks at the innermost block and the token at the cursor. It either
  passes at least one token or closes at least one block, so the recognizer
  comes to an end on every source.

  Malformed sources are mended: a word that begins a part of the module closes
  everything that was left open, a `begin` inside a type closes the type, an
  `end` closes a routine without a body, and an `end` with nothing to close is
  passed over.
-/

namespace PascalOutline.State

/-! ### Closing blocks -/

/-- Closes the innermost block without passing a token, unless it is the
    module. -/
def closeTop (s : State) (stop : Location) : State :=
  match s.blocks with
  | [] => s
  | .statements _ :: blocks => { s with blocks }
  | .entry _ (.module _ _) :: _ => s
  | .entry _ _ :: blocks => { s.build (·.pop stop) with blocks }

/-- Closes a number of blocks. -/
def closeTimes (s : State) (stop : Location) : Nat → State
  | 0 => s
  | n + 1 => (s.closeTop stop).closeTimes stop n

/-- The number of blocks, from the innermost one on, that satisfy a test. -/
def countBlocks (s : State) (p : Block → Bool) : Nat :=
  (s.blocks.takeWhile p).length

/-- Closes everything inside of the module, at a word that begins one of its
    parts. -/
def closeToModule (s : State) : State :=
  let n := s.countBlocks fun block => !block.isModule
  let closed := s.closeTimes s.cursor.prevStop n
  if n = 0 then closed
  else closed.log (.blocksAbandoned s.cursor.text n s.cursor.location.line)

/-- Closes types that were left open, at the `begin` of a body. -/
def closeContainers (s : State) : State :=
  let n := s.countBlocks Block.isContainer
  (s.closeTimes s.cursor.prevStop n).log (.typesAbandoned s.cursor.location.line)

/-- Closes everything but the outermost block, at the final `end.` -/
def closeAll (s : State) : State :=
  { s.closeTimes s.cursor.prevStop (s.blocks.length - 1) with stopped := true }

/-- Closes a routine without a body at an `end` that belongs to the block
    around it. -/
def closeBodiless (s : State) : State :=
  (s.log (.bodilessRoutine s.cursor.location.line)).closeTop s.cursor.prevStop

/-- Closes an open entry whose `end` was just passed. A type may have
    directives after its `end`. -/
def closeEntry (s : State) (id : EntryId) (scope : Scope) : State :=
  let (hints, c) := match scope with
    | .container _ _ _ => s.cursor.directives
    | _ => ([], s.cursor)
  let done := c.passSymbol ";"
  let addHints (e : Entry) : Entry := { e with specifiers := e.specifiers ++ hints }
  let s := { s with blocks := s.blocks.tail }
  ((s.moveTo done).build fun b => (b.modify id addHints).pop done.prevStop).itemDone [id]

/-- Passes an `end` and closes the innermost block. The final `end.` closes
    everything and stops the recognizer. -/
def closeBlock (s : State) : State :=
  let synced := { s with draft := s.draft.sync s.cursor }
  if s.cursor.nthIsSymbol 1 "." then (synced.moveTo (s.cursor.advance 2)).closeAll
  else
    let passed := synced.next
    match s.blocks with
    | .statements _ :: blocks => { passed with blocks }
    | .entry id scope :: _ =>
      match scope with
      | .module _ _ => passed.log (.surplusEnd passed.cursor.prevStop.line)
      | _ => passed.closeEntry id scope
    | [] => passed.log (.surplusEnd passed.cursor.prevStop.line)

/-! ### Steps by block -/

/-- Passes a word after which names begin declarations of some form. -/
def beginPart (s : State) (decls : DeclPart) : State :=
  s.nextTransparent.setDecls decls

/-- A name where a constant, type or variable of a module or routine may be
    declared. -/
def nameStep (s : State) (decls : DeclPart) : State :=
  match decls with
  | .types => s.typeDecl none
  | .constants => s.valueDecl .const none false
  | .variables => s.valueDecl .var none false
  | _ => s.next

/-- A token that is no keyword, in a module or routine. -/
def plainStep (s : State) (decls : DeclPart) : State :=
  if s.cursor.atSymbol "[" then s.skipAttribute
  else if s.cursor.atName then s.nameStep decls
  else s.next

/-- A step directly inside of the module. -/
def moduleStep (s : State) (id : EntryId) (decls : DeclPart) : State :=
  match s.keyword? with
  | some .interface => s.nextTransparent.setScope (.module .interface .none)
  | some .implementation => s.nextTransparent.setScope (.module .implementation .none)
  | some .uses | some .requires | some .contains => s.usesClause id
  | some .type_ => s.beginPart .types
  | some .const | some .resourceString => s.beginPart .constants
  | some .var | some .threadVar => s.beginPart .variables
  | some .label | some .exports => s.skipStatement.setDecls .none
  | some .initialization | some .finalization => s.openSection
  | some .begin => s.next.openBlock (.statements false)
  | some .asm => s.next.openBlock (.statements true)
  | some .end_ => s.closeBlock
  | some .class_ => if s.classMemberFollows then s.routineDecl none else s.next
  | some kw => if kw.isRoutine then s.routineDecl none else s.next
  | none => s.plainStep decls

/-- The visibility that the words at the cursor set for the members after
    them. -/
def visibility? (s : State) : Option Visibility :=
  match s.keyword? with
  | some .private_ => some .private_
  | some .protected_ => some .protected_
  | some .public_ => some .public_
  | some .published => some .published
  | some .automated => some .automated
  | some .strict =>
    match s.cursor.nthKeyword? 1 with
    | some .private_ => some .strictPrivate
    | some .protected_ => some .strictProtected
    | _ => none
  | _ => none

/-- Passes the words that set a visibility. -/
def visibilityStep (s : State) (kind : EntryKind) (visibility : Visibility) : State :=
  let s := if s.cursor.atKeyword .strict then s.nextTransparent else s
  s.nextTransparent.setScope (.container kind visibility .fields)

/-- A name inside of a class-like type. -/
def memberNameStep (s : State) (visibility : Visibility) (decls : DeclPart) : State :=
  match decls with
  | .types => s.typeDecl (some visibility)
  | .constants => s.valueDecl .const (some visibility) false
  | .classFields => s.valueDecl .field (some visibility) true
  | .variant 0 => s.next
  | _ => s.valueDecl .field (some visibility) false

/-- A token inside of a class-like type that is neither a keyword nor a name.
    Parentheses in a variant part are counted. -/
def memberSymbolStep (s : State) (decls : DeclPart) : State :=
  match decls with
  | .variant depth =>
    if s.cursor.atSymbol "(" then (s.setDecls (.variant (depth + 1))).next
    else if s.cursor.atSymbol ")" then (s.setDecls (.variant (depth - 1))).next
    else s.next
  | _ => s.next

/-- A token that is no keyword, inside of a class-like type. -/
def plainMemberStep (s : State) (visibility : Visibility) (decls : DeclPart) : State :=
  let inVariant := match decls with
    | .variant _ => true
    | _ => false
  if s.cursor.atSymbol "[" && !inVariant then s.skipAttribute
  else if s.cursor.atName then s.memberNameStep visibility decls
  else s.memberSymbolStep decls

/-- The word `class` inside of a class-like type. -/
def classWordStep (s : State) (visibility : Visibility) : State :=
  if s.cursor.nthKeyword? 1 = some .var then
    s.nextTransparent.nextTransparent.setDecls .classFields
  else if s.cursor.nthKeyword? 1 = some .property then s.propertyDecl visibility
  else if s.classMemberFollows then s.routineDecl (some visibility)
  else s.next

/-- A member of a class-like type, or a word between members. -/
def memberStep (s : State) (kind : EntryKind) (visibility : Visibility) (decls : DeclPart) :
    State :=
  match s.keyword? with
  | some .var => s.beginPart .fields
  | some .class_ => s.classWordStep visibility
  | some .const => s.beginPart .constants
  | some .type_ => s.beginPart .types
  | some .property => s.propertyDecl visibility
  | some .case_ =>
    if kind = .record ∨ kind = .object then s.variantPart visibility decls else s.next
  | some .end_ => s.closeBlock
  | some .implementation | some .initialization | some .finalization => s.closeToModule
  | some .begin => s.closeContainers
  | some kw => if kw.isRoutine then s.routineDecl (some visibility) else s.next
  | none => s.plainMemberStep visibility decls

/-- A step inside of a class-like type. -/
def containerStep (s : State) (kind : EntryKind) (visibility : Visibility) (decls : DeclPart) :
    State :=
  match s.visibility? with
  | some newVisibility => s.visibilityStep kind newVisibility
  | none => s.memberStep kind visibility decls

/-- A step in the declarations of a routine, before its body. -/
def routineStep (s : State) (decls : DeclPart) : State :=
  match s.keyword? with
  | some .begin => s.next.setScope (.routine .body decls)
  | some .asm => s.next.setScope (.routine .asm decls)
  | some .type_ => s.beginPart .types
  | some .const | some .resourceString => s.beginPart .constants
  | some .var | some .threadVar => s.beginPart .variables
  | some .label => s.skipStatement
  | some .class_ => if s.classMemberFollows then s.routineDecl none else s.next
  | some .end_ => s.closeBodiless
  | some .implementation | some .initialization | some .finalization => s.closeToModule
  | some kw => if kw.isRoutine then s.routineDecl none else s.next
  | none => s.plainStep decls

/-- A step inside of statements. -/
def statementStep (s : State) : State :=
  match s.cursor.keyword? with
  | some .begin | some .try_ | some .case_ | some .record => s.next.openBlock (.statements false)
  | some .asm => s.next.openBlock (.statements true)
  | some .end_ => s.closeBlock
  | some .implementation | some .initialization | some .finalization => s.closeToModule
  | _ => s.next

/-- A step inside of assembler code, in which only `end` has a meaning. -/
def asmStep (s : State) : State :=
  if s.cursor.atKeyword .end_ then s.closeBlock else s.next

/-- One step. -/
def step (s : State) : State :=
  match s.blocks with
  | [] => { s with stopped := true }
  | .statements asm :: _ => if asm then s.asmStep else s.statementStep
  | .entry id scope :: _ =>
    match scope with
    | .module _ decls => s.moduleStep id decls
    | .container kind visibility decls => s.containerStep kind visibility decls
    | .routine .declarations decls => s.routineStep decls
    | .routine .body _ => s.statementStep
    | .routine .asm _ => s.asmStep
    | .statements => s.statementStep

end PascalOutline.State
