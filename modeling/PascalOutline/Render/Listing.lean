import PascalOutline.Scan
import PascalOutline.Text.Lines

/-! # Plain listings

  An outline as indented text: a line for each entry, its documentation below
  it, and the diagnostics at the end.

      unit Shapes (1:1)
        class TShape [public] (5:3)
          /// Base of all shapes.
-/

namespace PascalOutline

/-- A line of text with its line end. -/
def textLine (pieces : List String) : String :=
  String.join pieces ++ "\n"

/-- The indentation at a depth. -/
def indentation (depth : Nat) : String :=
  String.ofList (List.replicate (2 * depth) ' ')

namespace Entry

/-- The name of an entry with its owner in front. -/
def fullName (e : Entry) : String :=
  match e.qualifier with
  | some qualifier => qualifier ++ "." ++ e.name
  | none => e.name

/-- What stands in brackets after the name: visibility, `forward`, specifiers. -/
def flags (e : Entry) : List String :=
  (e.visibility.map Visibility.words).toList ++ (if e.forward then ["forward"] else [])
    ++ e.specifiers

/-- The line for an entry, without indentation. -/
def headline (e : Entry) : String :=
  e.kind.word
    ++ (if e.fullName = "" then "" else " " ++ e.fullName)
    ++ (if e.flags = [] then "" else " [" ++ ", ".intercalate e.flags ++ "]")
    ++ " (" ++ toString e.start.line ++ ":" ++ toString e.start.column ++ ")"

/-- The documentation of an entry, line by line. -/
def docLines (e : Entry) : List String :=
  (shownLines e.doc.toList).map fun line =>
    if line = [] then "///" else "/// " ++ String.ofList line

/-- The lines for an entry at a depth. -/
def listing (e : Entry) (depth : Nat) : String :=
  textLine [indentation depth, e.headline]
    ++ String.join (e.docLines.map fun line => textLine [indentation (depth + 1), line])

/-- A detail of an entry that is shown on its own. -/
def detail (name value : String) : String :=
  if value = "" then "" else textLine ["  ", name, ": ", value]

/-- The listing of an entry that is shown on its own, with its details. -/
def detailedListing (e : Entry) : String :=
  e.listing 0 ++ detail "signature" e.signature ++ detail "args" e.args
    ++ detail "type" e.typeText

end Entry

/-- The listing of a report. -/
def Report.listing (r : Report) : String :=
  String.join (r.outline.walk.map fun (depth, e) => e.listing depth)
    ++ String.join (r.diagnostics.map fun d => textLine ["! ", d.describe])

end PascalOutline
