import PascalOutline.Render.JsonText
import PascalOutline.Scan

/-! # Structured output

  Outlines as JSON values: the entries in their order, pointing to each other
  by their handles, then the diagnostics. Fields of an entry that are empty or
  absent are left out, apart from those that every reader needs.
-/

namespace PascalOutline

/-- A location as a JSON value. -/
def Location.toJson (l : Location) : Json :=
  .object [("line", .number l.line), ("column", .number l.column), ("offset", .number l.offset)]

/-- An entry as a JSON value. -/
def Entry.toJson (e : Entry) : Json :=
  .object <|
    [("id", .number e.id), ("kind", .string e.kind.word), ("name", .string e.name)]
    ++ Json.optionMember "qualifier" (e.qualifier.map .string)
    ++ [("signature", .string e.signature)]
    ++ Json.textMember "args" e.args
    ++ Json.textMember "type_text" e.typeText
    ++ Json.textMember "initializer" e.initializer
    ++ Json.textsMember "bases" e.bases
    ++ Json.textsMember "specifiers" e.specifiers
    ++ Json.textsMember "uses" e.uses
    ++ [("doc", .string e.doc)]
    ++ Json.optionMember "visibility" (e.visibility.map fun v => .string v.label)
    ++ [("forward", .bool e.forward), ("file", .string e.file),
        ("start", e.start.toJson), ("end", e.stop.toJson)]
    ++ Json.optionMember "parent" (e.parent.map .number)
    ++ [("children", .array (e.children.toList.map .number))]

/-- A diagnostic as a JSON value. -/
def Diagnostic.toJson (d : Diagnostic) : Json :=
  .object [("kind", .string d.problem.label), ("message", .string d.problem.message),
    ("line", .number d.line), ("column", .number d.column)]

/-- An outline as a JSON value. -/
def Outline.toJson (o : Outline) : Json :=
  .object [("file", .string o.file), ("entries", .array (o.entries.toList.map Entry.toJson))]

/-- A report as a JSON value. -/
def Report.toJson (r : Report) : Json :=
  .object [("tree", r.outline.toJson),
    ("diagnostics", .array (r.diagnostics.map Diagnostic.toJson))]

end PascalOutline
