/-! # Paths

  File paths with `/` between their components. Repeated slashes, a slash at
  the end and a `.` anywhere but at the beginning mean nothing.
-/

namespace PascalOutline

/-- One component of a path. -/
inductive PathPart where
  /-- The leading slash of an absolute path. -/
  | root
  /-- A leading `.` -/
  | here
  /-- The directory above, `..` -/
  | above
  /-- The name of a file or directory. -/
  | name (name : String)
deriving DecidableEq, Repr, Inhabited

namespace Path

/-- Splits a text at every slash. -/
def splitSlashes : List Char → List (List Char)
  | [] => [[]]
  | c :: cs =>
    if c = '/' then [] :: splitSlashes cs
    else match splitSlashes cs with
      | [] => [[c]]
      | piece :: pieces => (c :: piece) :: pieces

/-- The component for a piece between slashes, if it has a meaning there. -/
def partOf? (first : Bool) (piece : List Char) : Option PathPart :=
  if piece = [] then none
  else if piece = ['.'] then if first then some .here else none
  else if piece = ['.', '.'] then some .above
  else some (.name (String.ofList piece))

/-- The components of a path. -/
def parts (path : String) : List PathPart :=
  match path.toList with
  | '/' :: cs => .root :: (splitSlashes cs).filterMap (partOf? false)
  | cs =>
    match splitSlashes cs with
    | [] => []
    | piece :: pieces => (partOf? true piece).toList ++ pieces.filterMap (partOf? false)

/-- The name of the file that a path leads to; none if it ends in `..` or is
    empty. -/
def fileName? (path : String) : Option String :=
  match (parts path).getLast? with
  | some (.name name) => some name
  | _ => none

/-- A file name cut at its last dot. A dot at the beginning does not count. -/
def splitName (name : String) : String × Option String :=
  let reversed := name.toList.reverse
  let extension := (reversed.takeWhile (· ≠ '.')).reverse
  let rest := (reversed.dropWhile (· ≠ '.')).drop 1
  if rest = [] then (name, none)
  else (String.ofList rest.reverse, some (String.ofList extension))

/-- The file name without its extension. -/
def stem? (path : String) : Option String :=
  (fileName? path).map fun name => (splitName name).1

/-- The extension of the file name, without its dot. -/
def extension? (path : String) : Option String :=
  (fileName? path).bind fun name => (splitName name).2

/-- A path with one more component. -/
def join (folder name : String) : String :=
  if folder = "" ∨ folder.toList.getLast? = some '/' then folder ++ name
  else folder ++ "/" ++ name

/-! ### Order -/

/-- The rank of a component: the root, `.`, `..`, then names. -/
def rank : PathPart → Nat
  | .root => 0
  | .here => 1
  | .above => 2
  | .name _ => 3

/-- Whether a component stands before another one: by rank, names by their
    characters. -/
def partLt : PathPart → PathPart → Bool
  | .name a, .name b => a < b
  | a, b => rank a < rank b

/-- Whether a list of components stands at or before another one. -/
def partsLe : List PathPart → List PathPart → Bool
  | [], _ => true
  | _ :: _, [] => false
  | a :: as, b :: bs => partLt a b || (a == b && partsLe as bs)

/-- Whether a path stands at or before another one, component by component. -/
def le (a b : String) : Bool :=
  partsLe (parts a) (parts b)

/-- Whether two texts are the same path. -/
def same (a b : String) : Bool :=
  parts a == parts b

/-- A list without the paths that are the same as the one before them. -/
def dedup : List String → List String
  | [] => []
  | [path] => [path]
  | a :: b :: rest => if same a b then dedup (a :: rest) else a :: dedup (b :: rest)

/-- Paths in order, each one once, in the spelling that was given first. -/
def sorted (paths : List String) : List String :=
  dedup (paths.mergeSort le)

end Path

end PascalOutline
