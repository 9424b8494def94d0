import PascalOutline.Comment.Doc
import PascalOutline.Cursor
import PascalOutline.Event
import PascalOutline.Outline.Builder

/-! # Attaching documentation

  A draft is an outline in the making together with the documentation that
  was read but not attached yet. Lexemes are examined in source order, each
  one once, whenever an entry is about to be made or was just made:

  - a documentation comment on the line on which the last item ended, or one
    that is marked as trailing, documents that item; a trailing comment
    without such an item is dropped;
  - any other documentation comment waits for the declaration that follows;
  - code drops what is waiting and ends the last item's claim on comments.
-/

namespace PascalOutline

/-- Documentation that waits for a declaration. -/
structure Pending where
  /-- The text so far. -/
  text : String
  /-- The line on which its last comment ends. -/
  lastLine : Nat
deriving DecidableEq, Repr, Inhabited

/-- The item that trailing documentation belongs to. -/
structure LastItem where
  /-- Its entries; several when one declaration introduces several names. -/
  ids : List EntryId
  /-- The line on which it ended. -/
  line : Nat
deriving DecidableEq, Repr, Inhabited

/-- An outline in the making, and the state of its documentation. -/
structure Draft where
  /-- How the source is read. -/
  options : Options
  /-- The outline so far. -/
  builder : Builder
  /-- The lexemes that were not examined yet. -/
  unexamined : List Lexeme
  /-- The number of lexemes that were examined. -/
  examined : Nat := 0
  /-- What waits for a declaration. -/
  pending : Option Pending := none
  /-- What trailing documentation belongs to. -/
  lastItem : Option LastItem := none
  /-- What happened so far. -/
  events : Array Event := #[]
deriving DecidableEq, Repr, Inhabited

namespace Draft

/-! ### Parts -/

/-- Notes an event. -/
def log (d : Draft) (e : Event) : Draft :=
  { d with events := d.events.push e }

/-- Notes an event if a condition holds. -/
def logIf (d : Draft) (condition : Bool) (e : Event) : Draft :=
  if condition then d.log e else d

/-- Adds a paragraph of documentation to some entries. -/
def addDoc (d : Draft) (ids : List EntryId) (text : String) : Draft :=
  { d with builder := ids.foldl (fun b id => b.addDoc id text) d.builder }

/-- Drops the documentation that is waiting. -/
def dropPending (d : Draft) : Draft :=
  match d.pending with
  | some p => { d with pending := none }.log (.documentationDropped p.lastLine)
  | none => d

/-- Whether more blank lines lie between two lines than the gap limit allows. -/
def exceedsGap (d : Draft) (lastLine nextLine : Nat) : Bool :=
  d.options.docGap.any fun limit => limit < nextLine - (lastLine + 1)

/-- The entry that documentation belongs to when it is too far from what
    follows: the last child of the innermost open entry, or that entry. -/
def orphanage (d : Draft) : List EntryId :=
  match d.builder.top? with
  | some top => [(d.builder.lastChild? top).getD top]
  | none => []

/-- Documentation with more text after it: on the next line if no blank line
    lies between, else in a new paragraph. -/
def joinDocs (p : Pending) (doc : DocComment) : Pending :=
  let gap := if p.text = "" ∨ doc.text = "" then ""
    else if doc.line ≤ p.lastLine + 1 then "\n" else "\n\n"
  ⟨p.text ++ gap ++ doc.text, doc.lastLine⟩

/-! ### Examining lexemes -/

/-- Takes up a documentation comment that documents what follows it. -/
def hold (d : Draft) (doc : DocComment) : Draft :=
  match d.pending with
  | none => { d with pending := some ⟨doc.text, doc.lastLine⟩ }
  | some p =>
    if d.exceedsGap p.lastLine doc.line then
      { d.addDoc d.orphanage p.text with pending := some ⟨doc.text, doc.lastLine⟩ }
    else { d with pending := some (joinDocs p doc) }

/-- Takes up a documentation comment. -/
def takeUp (d : Draft) (doc : DocComment) : Draft :=
  match d.lastItem with
  | some item =>
    if doc.trailing || doc.line == item.line then d.addDoc item.ids doc.text else d.hold doc
  | none => if doc.trailing then d.log (.trailerDropped doc.line) else d.hold doc

/-- Examines a lexeme: a comment is taken up if it documents, other trivia is
    passed over, and code parts what stands before it from what follows. -/
def examine (d : Draft) (l : Lexeme) : Draft :=
  if l.isTrivia then ((DocComment.ofLexeme? d.options l).map d.takeUp).getD d
  else { d.dropPending with lastItem := none }

/-- Examines a lexeme of a word that stands between documentation and its
    declaration without parting them. -/
def examineTransparent (d : Draft) (l : Lexeme) : Draft :=
  if l.isTrivia then d.examine l else d

/-- Examines a lexeme inside of some entries, whose documentation it is. -/
def examineInside (ids : List EntryId) (d : Draft) (l : Lexeme) : Draft :=
  match DocComment.ofLexeme? d.options l with
  | some doc => d.addDoc ids doc.text
  | none => d

/-- Examines the lexemes up to a place among all lexemes. -/
def examineTo (d : Draft) (examine : Draft → Lexeme → Draft) (place : Nat) : Draft :=
  let found := d.unexamined.take (place - d.examined)
  found.foldl examine
    { d with
      unexamined := d.unexamined.drop (place - d.examined)
      examined := d.examined + found.length }

/-! ### At a declaration -/

/-- Examines everything before the cursor. -/
def sync (d : Draft) (c : Cursor) : Draft :=
  d.examineTo examine c.lexemeIndex

/-- Examines everything up to the last token that was passed, without parting
    documentation from what follows. -/
def skipTransparent (d : Draft) (c : Cursor) : Draft :=
  d.examineTo examineTransparent c.indexAfterPrev

/-- Hands over the documentation for a declaration that begins at the cursor.
    If it is too far away it goes to what stands before it. -/
def takeLeading (d : Draft) (c : Cursor) : String × Draft :=
  let synced := { d.sync c with lastItem := none }
  match synced.pending with
  | none => ("", synced)
  | some p =>
    let taken := { synced with pending := none }
    if taken.exceedsGap p.lastLine c.location.line then ("", taken.addDoc taken.orphanage p.text)
    else (p.text, taken)

/-- Notes that some entries were just made from the tokens before the cursor:
    the comments among these tokens document them, and so do the comments
    after them on the same line. -/
def itemDone (d : Draft) (c : Cursor) (ids : List EntryId) : Draft :=
  let inside := d.dropPending.examineTo (examineInside ids) c.indexAfterPrev
  { inside with lastItem := some ⟨ids, c.prevStop.line⟩ }

/-- Examines the rest of the source. What still waits documents the innermost
    open entry. -/
def finish (d : Draft) (c : Cursor) : Draft :=
  let last := d.examineTo examine c.lexemeCount
  match last.pending with
  | some p => { last.addDoc last.builder.top?.toList p.text with pending := none }
  | none => last

end Draft

end PascalOutline
