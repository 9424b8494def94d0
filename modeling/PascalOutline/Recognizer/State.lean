import PascalOutline.Draft
import PascalOutline.Token.Clause

/-! # The state of the recognizer

  The recognizer reads the declarations of a source in one pass over its
  tokens. Its state is a cursor, the outline drafted so far, and the stack of
  open blocks. A block is an open entry with the scope that it establishes,
  or a nameless block of statements.
-/

namespace PascalOutline

/-- The part of a unit that declarations stand in. -/
inductive UnitPart where
  /-- Before any part. -/
  | heading
  /-- After `interface`. -/
  | interface
  /-- After `implementation`. -/
  | implementation
deriving DecidableEq, Repr, Inhabited

/-- What a name begins when it stands where a declaration is expected. -/
inductive DeclPart where
  /-- No declaration. -/
  | none
  /-- A type, after `type`. -/
  | types
  /-- A constant, after `const`. -/
  | constants
  /-- A variable, after `var`. -/
  | variables
  /-- A field. -/
  | fields
  /-- A field of the class itself, after `class var`. -/
  | classFields
  /-- A field of a variant, inside `depth` parentheses after `case ... of`;
      outside of them, a label. -/
  | variant (depth : Nat)
deriving DecidableEq, Repr, Inhabited

/-- How far a routine was read. -/
inductive Phase where
  /-- Before its `begin` or `asm`. -/
  | declarations
  /-- Inside of its statements. -/
  | body
  /-- Inside of its assembler code. -/
  | asm
deriving DecidableEq, Repr, Inhabited

/-- What an open entry makes of the tokens inside of it. -/
inductive Scope where
  /-- The module itself. -/
  | module (unitPart : UnitPart) (decls : DeclPart)
  /-- A class-like type, with the visibility of its next member. -/
  | container (kind : EntryKind) (visibility : Visibility) (decls : DeclPart)
  /-- A routine. -/
  | routine (phase : Phase) (decls : DeclPart)
  /-- The statements after `initialization` or `finalization`. -/
  | statements
deriving DecidableEq, Repr, Inhabited

/-- Something that an `end` closes. -/
inductive Block where
  /-- An open entry. -/
  | entry (id : EntryId) (scope : Scope)
  /-- A nameless block of statements, or of assembler code. -/
  | statements (asm : Bool)
deriving DecidableEq, Repr, Inhabited

namespace Block

/-- Whether a block is the module. -/
def isModule : Block → Bool
  | entry _ (.module _ _) => true
  | _ => false

/-- Whether a block is a class-like type. -/
def isContainer : Block → Bool
  | entry _ (.container _ _ _) => true
  | _ => false

/-- The entry that a block holds open. -/
def entryId? : Block → Option EntryId
  | entry id _ => some id
  | statements _ => none

end Block

/-- The state of the recognizer. -/
structure State where
  /-- The place in the source. -/
  cursor : Cursor
  /-- The outline so far. -/
  draft : Draft
  /-- The open blocks, innermost first. -/
  blocks : List Block := []
  /-- The problems found so far. -/
  diagnostics : Array Diagnostic := #[]
  /-- Whether the final `end.` was read. -/
  stopped : Bool := false
deriving DecidableEq, Repr, Inhabited

namespace State

/-! ### Looking -/

/-- The symbols that make a name of a contextual keyword before them. -/
def namingSymbols (kw : Keyword) : List String :=
  if kw = .operator then [":", ","] else [":", ",", "=", ":="]

/-- The keyword at the cursor, unless it is a contextual one used as a name,
    as in `Public: Boolean`. -/
def keyword? (s : State) : Option Keyword :=
  s.cursor.keyword?.filter fun kw =>
    !(kw.isContextual && s.cursor.nthIsSymbolIn 1 (namingSymbols kw))

/-- Whether a routine or a property follows the word at the cursor. -/
def classMemberFollows (s : State) : Bool :=
  (s.cursor.nthKeyword? 1).any fun kw => kw.isRoutine || kw = .property

/-- Whether the innermost block is the interface part of a unit. -/
def inInterface (s : State) : Bool :=
  match s.blocks with
  | .entry _ (.module .interface _) :: _ => true
  | _ => false

/-! ### Moving -/

/-- Moves the cursor. -/
def moveTo (s : State) (c : Cursor) : State :=
  { s with cursor := c }

/-- Passes one token. -/
def next (s : State) : State :=
  s.moveTo s.cursor.next

/-- Passes one token that does not part documentation from what follows. -/
def nextTransparent (s : State) : State :=
  let c := s.cursor.next
  { s with cursor := c, draft := (s.draft.sync s.cursor).skipTransparent c }

/-! ### Changing parts -/

/-- Notes an event. -/
def log (s : State) (e : Event) : State :=
  { s with draft := s.draft.log e }

/-- Changes the scope of the innermost block. -/
def setScope (s : State) (scope : Scope) : State :=
  match s.blocks with
  | .entry id _ :: blocks => { s with blocks := .entry id scope :: blocks }
  | _ => s

/-- Changes what a name begins in the innermost block. -/
def setDecls (s : State) (decls : DeclPart) : State :=
  match s.blocks with
  | .entry _ (.module unitPart _) :: _ => s.setScope (.module unitPart decls)
  | .entry _ (.container kind visibility _) :: _ => s.setScope (.container kind visibility decls)
  | .entry _ (.routine phase _) :: _ => s.setScope (.routine phase decls)
  | _ => s

/-- Opens a block. -/
def openBlock (s : State) (block : Block) : State :=
  { s with blocks := block :: s.blocks }

/-- Changes the outline. -/
def build (s : State) (f : Builder → Builder) : State :=
  { s with draft := { s.draft with builder := f s.draft.builder } }

/-- The handle that the next new entry gets. -/
def nextId (s : State) : EntryId :=
  s.draft.builder.nextId

/-- Reports a missing name. -/
def missingName (s : State) (kind : EntryKind) (place : Location) : State :=
  { s with diagnostics := s.diagnostics.push (.at_ (.missingName kind) place) }

/-- Reports a missing name if the name is empty. -/
def checkName (s : State) (name : String) (kind : EntryKind) (place : Location) : State :=
  if name = "" then s.missingName kind place else s

/-! ### Documentation -/

/-- Hands over the documentation for a declaration that begins at the cursor. -/
def takeLeading (s : State) : String × State :=
  let (doc, draft) := s.draft.takeLeading s.cursor
  (doc, { s with draft })

/-- Notes that entries were just made from the tokens before the cursor. -/
def itemDone (s : State) (ids : List EntryId) : State :=
  { s with draft := s.draft.itemDone s.cursor ids }

/-! ### Making entries -/

/-- Makes a complete entry from the tokens before the cursor. -/
def addItem (s : State) (e : Entry) : State :=
  let id := s.nextId
  (s.build (·.addLeaf e)).itemDone [id]

/-- Makes an entry from the tokens before the cursor and leaves it open. -/
def pushItem (s : State) (e : Entry) : State :=
  let id := s.nextId
  (s.build (·.push e)).itemDone [id]

/-- Makes an entry from the tokens before the cursor and opens its scope. -/
def openItem (s : State) (e : Entry) (scope : Scope) : State :=
  let id := s.nextId
  (s.pushItem e).openBlock (.entry id scope)

end State

end PascalOutline
