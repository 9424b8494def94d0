import PascalOutline.Entry

/-! # Outlines

  An outline is the tree of entries of one file. The entries lie in one array
  in the order in which they begin in the source, the root first, and point
  to each other by their place in it.
-/

namespace PascalOutline

/-- The tree of entries of one file. -/
structure Outline where
  /-- The file. -/
  file : String
  /-- The entries; each one stands after the entry that holds it. -/
  entries : Array Entry
  /-- There is a root. -/
  nonempty : 0 < entries.size
deriving DecidableEq, Repr

namespace Outline

/-- The root entry. -/
def root (o : Outline) : Entry :=
  have := o.nonempty
  o.entries[0]

/-- The number of entries. -/
def size (o : Outline) : Nat :=
  o.entries.size

/-- The entry with a handle. -/
def get? (o : Outline) (id : EntryId) : Option Entry :=
  o.entries[id]?

/-- The entries that an entry holds. -/
def children (o : Outline) (id : EntryId) : List Entry :=
  ((o.get? id).map fun e => e.children.toList).getD [] |>.filterMap o.get?

/-- The entry that holds an entry. -/
def parent? (o : Outline) (id : EntryId) : Option Entry :=
  (o.get? id).bind fun e => e.parent.bind o.get?

/-- The first entry with a name, in any case. -/
def find? (o : Outline) (name : String) : Option Entry :=
  o.entries.find? fun e => sameWord e.name name

/-- Follows names downwards from an entry; of several children with the same
    name, the first one is taken. -/
def follow (o : Outline) (e : Entry) : List String → Option Entry
  | [] => some e
  | name :: names =>
    ((o.children e.id).find? fun child => sameWord child.name name).bind fun child =>
      o.follow child names

/-- Follows names downwards from the root. -/
def findPath? (o : Outline) (names : List String) : Option Entry :=
  o.follow o.root names

/-- Visits the entries that are waiting, each one before the entries that it
    holds; `limit` bounds the number of visits. -/
def walkFrom (o : Outline) : (limit : Nat) → List (Nat × EntryId) → List (Nat × Entry)
  | 0, _ => []
  | _, [] => []
  | limit + 1, (depth, id) :: waiting =>
    match o.get? id with
    | none => []
    | some e => (depth, e) :: o.walkFrom limit (e.children.toList.map (depth + 1, ·) ++ waiting)

/-- Every entry with its depth below the root, each one before the entries
    that it holds. -/
def walk (o : Outline) : List (Nat × Entry) :=
  o.walkFrom o.size [(0, 0)]

end Outline

end PascalOutline
