import PascalOutline.Path

/-! # File trees

  The files and folders that a command finds, with the operations that it
  needs: finding, listing, reading and writing. A path that begins with a slash
  leads from the root, any other path from the working folder.
-/

namespace PascalOutline

/-- A place: the names that lead to it from the root. -/
abbrev Place := List String

/-- Files and folders, and the working folder among them. -/
structure FileTree where
  /-- The files with their contents. -/
  files : List (Place × ByteArray)
  /-- Folders. One that something lies in need not be listed. -/
  folders : List Place := []
  /-- The working folder. -/
  home : Place := []
deriving Inhabited

namespace FileTree

/-! ### Looking -/

/-- The content of the file at a place. -/
def contentAt? (t : FileTree) (place : Place) : Option ByteArray :=
  t.files.lookup place

/-- Whether a place lies strictly inside of another one. -/
def isInside (inner outer : Place) : Bool :=
  outer.isPrefixOf inner && outer.length < inner.length

/-- Every place that is named by the tree. -/
def named (t : FileTree) : List Place :=
  t.files.map Prod.fst ++ t.folders ++ [t.home]

/-- Whether there is a folder at a place. -/
def hasFolder (t : FileTree) (place : Place) : Bool :=
  place = [] || place = t.home || t.folders.contains place || t.named.any (isInside · place)

/-- The place that pieces of a path lead to from another place. Every piece
    needs a folder to start from, and the last one has to lead to something.
    Above the root is the root. -/
def locateFrom (t : FileTree) (place : Place) : List (List Char) → Option Place
  | [] => if t.hasFolder place || (t.contentAt? place).isSome then some place else none
  | piece :: pieces =>
    if !t.hasFolder place then none
    else if piece = [] ∨ piece = ['.'] then t.locateFrom place pieces
    else if piece = ['.', '.'] then t.locateFrom place.dropLast pieces
    else t.locateFrom (place ++ [String.ofList piece]) pieces

/-- The place that a path leads from. -/
def origin (t : FileTree) (path : String) : Place :=
  if path.toList.head? = some '/' then [] else t.home

/-- The place that a path leads to, if there is something. -/
def locate? (t : FileTree) (path : String) : Option Place :=
  if path = "" then none
  else t.locateFrom (t.origin path) (Path.splitSlashes path.toList)

/-- The content of the file that a path leads to. -/
def read? (t : FileTree) (path : String) : Option ByteArray :=
  (t.locate? path).bind t.contentAt?

/-- Whether a path leads to a file. -/
def isFile (t : FileTree) (path : String) : Bool :=
  (t.read? path).isSome

/-- Whether a path leads to a folder. -/
def isFolder (t : FileTree) (path : String) : Bool :=
  (t.locate? path).any t.hasFolder

/-- Whether a path leads to something. -/
def pathExists (t : FileTree) (path : String) : Bool :=
  (t.locate? path).isSome

/-! ### Listing -/

/-- Every place inside of a place, given from there, folders that hold it
    included. -/
def below (t : FileTree) (place : Place) : List Place :=
  let inner := t.named.filterMap fun p =>
    if isInside p place then some (p.drop place.length) else none
  (inner.flatMap fun p => (List.range p.length).map fun n => p.take (n + 1)).eraseDups

/-- The names of what lies directly in the folder that a path leads to. -/
def names (t : FileTree) (path : String) : List String :=
  match t.locate? path with
  | none => []
  | some place => (t.below place).filterMap fun p => if p.length = 1 then p.head? else none

/-! ### Changing -/

/-- The tree with a file at a place. -/
def setFile (t : FileTree) (place : Place) (content : ByteArray) : FileTree :=
  { t with files := (t.files.filter fun f => f.1 ≠ place) ++ [(place, content)] }

/-- Makes the folders that pieces of a path lead through from a place; nothing
    if there is a file in the way. -/
def makeFoldersFrom (t : FileTree) (place : Place) : List (List Char) → Option FileTree
  | [] => some t
  | piece :: pieces =>
    if piece = [] ∨ piece = ['.'] then t.makeFoldersFrom place pieces
    else if piece = ['.', '.'] then t.makeFoldersFrom place.dropLast pieces
    else
      let inner := place ++ [String.ofList piece]
      if (t.contentAt? inner).isSome then none
      else { t with folders := t.folders.erase place ++ [inner] }.makeFoldersFrom inner pieces

/-- The way to the last name of a path that asks for it with a `.` behind it,
    as `a/b/.` does; nothing for other paths. -/
def wayToDotted? (path : String) (pieces : List (List Char)) : Option (List (List Char)) :=
  let backward := pieces.reverse.filter (· ≠ [])
  if backward.head? = some ['.'] ∧ (Path.fileName? path).isSome then
    some ((backward.dropWhile (· = ['.'])).drop 1).reverse
  else none

/-- Makes the folder that a path leads to, and all folders on the way; nothing
    if there is a file in the way. A `.` at the end asks for a folder that is
    there: then only the folders on the way are made. -/
def makeFolders? (t : FileTree) (path : String) : Option FileTree :=
  let pieces := Path.splitSlashes path.toList
  match wayToDotted? path pieces with
  | none => t.makeFoldersFrom (t.origin path) pieces
  | some way => (t.makeFoldersFrom (t.origin path) way).filter (·.isFolder path)

/-- Writes a file into the folder that a path leads to; nothing if it leads to
    none, or if there is a folder in the place of the file. -/
def write? (t : FileTree) (folder name : String) (content : String) : Option FileTree :=
  match (t.locate? folder).filter t.hasFolder with
  | none => none
  | some place =>
    if t.hasFolder (place ++ [name]) then none
    else some (t.setFile (place ++ [name]) content.toUTF8)

/-- The files that are new or have another content than before. -/
def changesSince (t before : FileTree) : List (Place × ByteArray) :=
  t.files.filter fun f => (before.contentAt? f.1).map ByteArray.data ≠ some f.2.data

end FileTree

end PascalOutline
