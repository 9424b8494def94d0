import PascalOutline.Render.Listing
import PascalOutline.Render.Structured

/-! # Output formats

  The formats that a report or a single entry can be written in, by name.
-/

namespace PascalOutline

/-- An output format. -/
inductive Format where
  /-- An indented listing. -/
  | tree
  /-- JSON. -/
  | json
deriving DecidableEq, Repr, Inhabited

/-- A name that no format has. -/
structure UnknownFormat where
  /-- The name. -/
  name : String
deriving DecidableEq, Repr, Inhabited

/-- The wording for an unknown format. -/
def UnknownFormat.message (e : UnknownFormat) : String :=
  "unknown format: " ++ e.name ++ ". Use tree or json"

namespace Format

/-- The format with a name. -/
def named (name : String) : Except UnknownFormat Format :=
  if name = "tree" ∨ name = "text" then .ok .tree
  else if name = "json" then .ok .json
  else .error ⟨name⟩

/-- The extension of files in a format. -/
def extension : Format → String
  | tree => "txt"
  | json => "json"

/-- Writes a report. -/
def report (f : Format) (r : Report) : String :=
  match f with
  | tree => r.listing
  | json => r.toJson.document

/-- Writes a single entry. -/
def entry (f : Format) (e : Entry) : String :=
  match f with
  | tree => e.detailedListing
  | json => e.toJson.document

end Format

end PascalOutline
