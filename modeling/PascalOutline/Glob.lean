import PascalOutline.FileTree

/-! # File patterns

  Patterns over paths. In a component, `?` stands for a character, `*` for any
  number of characters, and `[ab]`, `[a-z]` or `[!ab]` for a character of a
  class. The component `**` stands for folders to any depth, none included.
  Names that begin with a dot are not treated differently.
-/

namespace PascalOutline.Glob

/-! ### Patterns -/

/-- What one or more characters of a name are matched with. -/
inductive Mark where
  /-- This character. -/
  | char (c : Char)
  /-- Any character. -/
  | any
  /-- Any number of characters. -/
  | sequence
  /-- A character in one of the ranges, both ends included. -/
  | within (ranges : List (Char × Char))
  /-- A character in none of the ranges. -/
  | outside (ranges : List (Char × Char))
deriving DecidableEq, Repr, Inhabited

/-- A component of a pattern. -/
inductive Component where
  /-- Folders to any depth. -/
  | anyDepth
  /-- One name. -/
  | name (marks : List Mark)
deriving DecidableEq, Repr, Inhabited

/-- The ranges in a class of characters. -/
def ranges : List Char → List (Char × Char)
  | [] => []
  | a :: '-' :: b :: cs => (a, b) :: ranges cs
  | a :: cs => (a, a) :: ranges cs

/-- The text of a class of characters and what follows its closing bracket,
    for the text after its opening bracket. A class is not empty, so a
    closing bracket at its beginning belongs to it. -/
def classText? : List Char → Option (List Char × List Char)
  | [] => none
  | c :: cs =>
    if ']' ∈ cs then
      let inner := cs.takeWhile (· ≠ ']')
      some (c :: inner, cs.drop (inner.length + 1))
    else none

/-- A class of characters and what follows it, for the text after its opening
    bracket. -/
def class? : List Char → Option (Mark × List Char)
  | '!' :: cs => (classText? cs).map fun (text, rest) => (.outside (ranges text), rest)
  | cs => (classText? cs).map fun (text, rest) => (.within (ranges text), rest)

theorem length_classText?_rest {cs text rest : List Char} (h : classText? cs = some (text, rest)) :
    rest.length < cs.length := by
  unfold classText? at h
  split at h
  · simp at h
  · split at h
    · simp only [Option.some.injEq, Prod.mk.injEq] at h
      rw [← h.2, List.length_drop, List.length_cons]
      omega
    · simp at h

theorem length_class?_rest {cs rest : List Char} {mark : Mark} (h : class? cs = some (mark, rest)) :
    rest.length < cs.length := by
  unfold class? at h
  split at h
  · simp only [Option.map_eq_some_iff, Prod.mk.injEq, Prod.exists] at h
    obtain ⟨_, _, found, _, rfl⟩ := h
    exact Nat.lt_succ_of_lt (length_classText?_rest found)
  · simp only [Option.map_eq_some_iff, Prod.mk.injEq, Prod.exists] at h
    obtain ⟨_, _, found, _, rfl⟩ := h
    exact length_classText?_rest found

/-- The marks of a component; nothing if a class is not closed, or if two
    stars stand together. -/
def marks? : List Char → Option (List Mark)
  | [] => some []
  | c :: cs =>
    if c = '?' then (marks? cs).map (Mark.any :: ·)
    else if c = '*' then
      if cs.head? = some '*' then none else (marks? cs).map (Mark.sequence :: ·)
    else if c = '[' then
      match _ : class? cs with
      | none => none
      | some (mark, rest) => (marks? rest).map (mark :: ·)
    else (marks? cs).map (Mark.char c :: ·)
termination_by cs => cs.length
decreasing_by
  · simp
  · simp
  · have := length_class?_rest ‹_›
    simp only [List.length_cons]
    omega
  · simp

/-- The component that a piece between slashes is. -/
def component? (piece : List Char) : Option Component :=
  if piece = ['*', '*'] then some .anyDepth else (marks? piece).map .name

/-- The pieces of a pattern; a slash at its end adds none. -/
def pieces (pattern : List Char) : List (List Char) :=
  let all := Path.splitSlashes pattern
  if all.getLast? = some [] then all.dropLast else all

/-- The components without those that repeat the depth before them. -/
def collapse : List Component → List Component
  | .anyDepth :: .anyDepth :: rest => collapse (.anyDepth :: rest)
  | c :: rest => c :: collapse rest
  | [] => []

/-- The components of a pattern; nothing if it is malformed. -/
def components? (pattern : String) : Option (List Component) :=
  ((pieces pattern.toList).mapM component?).map collapse

/-! ### Matching names -/

/-- Whether a character is in one of the ranges. -/
def inRanges (ranges : List (Char × Char)) (c : Char) : Bool :=
  ranges.any fun range => range.1 ≤ c && c ≤ range.2

/-- Whether a mark other than a sequence matches a character. -/
def Mark.matchesChar (mark : Mark) (c : Char) : Bool :=
  match mark with
  | .char d => c == d
  | .any => true
  | .sequence => false
  | .within ranges => inRanges ranges c
  | .outside ranges => !inRanges ranges c

/-- Which ends of a list of marks match the empty name, the whole list first.
    Only sequences do. -/
def endsMatchingNothing : List Mark → List Bool
  | [] => [true]
  | mark :: marks =>
    let shorter := endsMatchingNothing marks
    (mark == .sequence && shorter.headD false) :: shorter

/-- Which ends of a list of marks match a name, the whole list first, from
    those that match the name without its first character. -/
def endsMatchingCons (c : Char) : List Mark → List Bool → List Bool
  | [], _ => [false]
  | mark :: marks, before =>
    let shorter := endsMatchingCons c marks before.tail
    let first :=
      if mark = .sequence then shorter.headD false || before.headD false
      else mark.matchesChar c && before.tail.headD false
    first :: shorter

/-- Which ends of a list of marks match a name, the whole list first. Every
    end is decided once for each character of the name, so a pattern with many
    sequences costs no more than one without. -/
def matchingEnds (marks : List Mark) : List Char → List Bool
  | [] => endsMatchingNothing marks
  | c :: cs => endsMatchingCons c marks (matchingEnds marks cs)

/-- Whether marks match a whole name. -/
def matchesName (marks : List Mark) (name : List Char) : Bool :=
  (matchingEnds marks name).headD false

@[simp] theorem tail_matchingEnds_cons (mark : Mark) (marks : List Mark) (name : List Char) :
    (matchingEnds (mark :: marks) name).tail = matchingEnds marks name := by
  induction name with
  | nil => rfl
  | cons c cs ih => simp only [matchingEnds, endsMatchingCons, List.tail_cons, ih]

/-- No marks match the empty name only. -/
theorem matchesName_nil (name : List Char) : matchesName [] name = name.isEmpty := by
  cases name <;> rfl

/-- A sequence matches nothing, or a character and what a sequence matches. -/
theorem matchesName_sequence_cons (marks : List Mark) (c : Char) (cs : List Char) :
    matchesName (.sequence :: marks) (c :: cs) =
      (matchesName marks (c :: cs) || matchesName (.sequence :: marks) cs) := by
  simp [matchesName, matchingEnds, endsMatchingCons]

/-- A sequence matches nothing. -/
theorem matchesName_sequence_nil (marks : List Mark) :
    matchesName (.sequence :: marks) [] = matchesName marks [] := by
  simp [matchesName, matchingEnds, endsMatchingNothing]

/-- A mark other than a sequence matches one character. -/
theorem matchesName_cons_cons {mark : Mark} (h : mark ≠ .sequence) (marks : List Mark) (c : Char)
    (cs : List Char) :
    matchesName (mark :: marks) (c :: cs) = (mark.matchesChar c && matchesName marks cs) := by
  simp [matchesName, matchingEnds, endsMatchingCons, h]

/-- A mark other than a sequence does not match nothing. -/
theorem matchesName_cons_nil {mark : Mark} (h : mark ≠ .sequence) (marks : List Mark) :
    matchesName (mark :: marks) [] = false := by
  simp [matchesName, matchingEnds, endsMatchingNothing, h]

/-- The name that marks stand for, if they stand for one only. -/
def literal? (marks : List Mark) : Option (List Char) :=
  marks.mapM fun
    | .char c => some c
    | _ => none

/-- Whether a component matches the last name of a path. -/
def Component.matchesPath (c : Component) (path : String) : Bool :=
  match c with
  | .anyDepth => false
  | .name marks => (Path.fileName? path).any fun name => matchesName marks name.toList

/-! ### Searching -/

/-- A path inside of a folder. What lies in the working folder is spelled
    without a leading `./` -/
def extend (folder name : String) : String :=
  if Path.parts folder = [.here] then name else Path.join folder name

/-- The path of a place inside of a folder. -/
def extendPlace (folder : String) (place : Place) : String :=
  match place with
  | [] => folder
  | name :: names => names.foldl Path.join (extend folder name)

/-- The path that a literal name leads to in a folder, if there is something. -/
def literalIn (tree : FileTree) (folder name : String) : List String :=
  let path := extend folder name
  let found :=
    if name = "." ∨ name = ".." then tree.isFolder folder else tree.pathExists path
  if found then [path] else []

/-- The paths in a folder whose names match. The folder itself and the one
    above match only marks that begin with a dot. -/
def namesIn (tree : FileTree) (folder : String) (marks : List Mark) : List String :=
  if tree.isFolder folder then
    let found := (tree.names folder).filter fun name => matchesName marks name.toList
    let special := [".", ".."].filter fun name =>
      marks.head? = some (.char '.') && matchesName marks name.toList
    found.map (extend folder) ++ special.map (Path.join folder)
  else []

/-- The paths in a folder that match one component. -/
def stepIn (tree : FileTree) (folder : String) (marks : List Mark) : List String :=
  match literal? marks with
  | some name => literalIn tree folder (String.ofList name)
  | none => namesIn tree folder marks

/-- The paths to any depth inside of a folder. -/
def pathsBelow (tree : FileTree) (folder : String) : List String :=
  match tree.locate? folder with
  | none => []
  | some place => (tree.below place).map (extendPlace folder)

/-- The paths that match components, starting from some folders. After `**`,
    the next component is matched with what lies at any depth; at the end,
    `**` stands for folders only. A path that is reached in several ways is
    followed once. -/
def search (tree : FileTree) (folders : List String) : List Component → List String
  | [] => folders
  | [.anyDepth] => (folders.flatMap (pathsBelow tree)).eraseDups.filter tree.isFolder
  | .anyDepth :: c :: rest =>
    search tree ((folders.flatMap (pathsBelow tree)).eraseDups.filter c.matchesPath) rest
  | .name marks :: rest =>
    search tree (folders.flatMap fun folder => stepIn tree folder marks).eraseDups rest

/-- A pattern that is malformed. -/
structure Malformed where
  /-- The pattern. -/
  pattern : String
deriving DecidableEq, Repr, Inhabited

/-- A way to find the files of a tree that a pattern matches. -/
abbrev Finder := FileTree → String → Except Malformed (List String)

/-- The files that a pattern matches. A pattern with a slash at its beginning
    starts from the root; one with a slash at its end matches folders only. -/
def files : Finder := fun tree pattern =>
  match components? pattern with
  | none => .error ⟨pattern⟩
  | some components =>
    let cs := pattern.toList
    if cs = [] ∨ cs.getLast? = some '/' then .ok []
    else
      let start := if cs.head? = some '/' then "/" else "."
      .ok ((search tree [start] components).filter tree.isFile)

end PascalOutline.Glob
