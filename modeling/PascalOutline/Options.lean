/-! # Scan options

  The choices that a caller has when a source is read, and how they are
  decoded from a settings object with names such as `doc-gap`.
-/

namespace PascalOutline

/-- How a source is read. -/
structure Options where
  /-- Whether comments of the same style nest. -/
  nestedComments : Bool := false
  /-- Whether plain `{ ... }` comments document, and not only `{! ... }`. -/
  braceDocs : Bool := true
  /-- How many blank lines may lie between a comment and the declaration that
      it documents; any number when absent. -/
  docGap : Option Nat := none
deriving DecidableEq, Repr, Inhabited

/-- The value of a setting, as far as it matters here. -/
inductive Setting where
  /-- No value. -/
  | null
  /-- A truth value. -/
  | bool (value : Bool)
  /-- A natural number, written without a fraction. -/
  | nat (value : Nat)
  /-- Any other value. -/
  | unsuitable
deriving DecidableEq, Repr, Inhabited

namespace Options

/-- The largest gap that can be set. -/
def maxDocGap : Nat := 4294967295

/-- A truth value, or the default when the setting is absent. -/
def readBool (default_ : Bool) : Option Setting → Option Bool
  | none => some default_
  | some (.bool value) => some value
  | some _ => none

/-- A gap limit, none when the setting is absent or has no value. -/
def readGap : Option Setting → Option (Option Nat)
  | none | some .null => some none
  | some (.nat value) => if value ≤ maxDocGap then some (some value) else none
  | some _ => none

/-- Options from the settings for its three fields. -/
def ofSettings? (nested brace gap : Option Setting) : Option Options := do
  let defaults : Options := {}
  return {
    nestedComments := ← readBool defaults.nestedComments nested
    braceDocs := ← readBool defaults.braceDocs brace
    docGap := ← readGap gap }

/-- Options from named settings; names that mean nothing are passed over. -/
def ofFields? (fields : List (String × Setting)) : Option Options :=
  ofSettings? (fields.lookup "nested-comments") (fields.lookup "brace-docs")
    (fields.lookup "doc-gap")

/-- Options from a list of settings in the order of the fields. -/
def ofValues? (values : List Setting) : Option Options :=
  if values.length ≤ 3 then ofSettings? values[0]? values[1]? values[2]? else none

end Options

end PascalOutline
