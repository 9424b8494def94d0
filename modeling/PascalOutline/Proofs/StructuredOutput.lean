import Mathlib.Data.List.Basic
import PascalOutline.Format
import PascalOutline.Proofs.Render.JsonText

/-! # Structured output loses nothing

  The JSON text of a report determines the report, and the text of an entry
  the entry. A JSON text has one reading, so it is enough that the JSON values
  determine what they were made of. The fields of an entry are found in its
  value by their names; one that was left out is absent or empty.

  A diagnostic stands in the output with its class and its wording. Nothing is
  assumed of them: any two notices with the same value are equal, and a
  problem is known by its class and wording.
-/

namespace PascalOutline

/-! ### Fields by name -/

namespace Json

/-- The field of an object with a name. -/
def field? (name : String) : Json → Option Json
  | object members => members.lookup name
  | _ => none

/-- The field for a text. -/
def textField (value : String) : Option Json :=
  if value = "" then none else some (string value)

/-- The field for a list of texts. -/
def textsField (values : List String) : Option Json :=
  if values = [] then none else some (array (values.map string))

@[simp] theorem lookup_member_cons (name key : String) (value : Json)
    (members : List (String × Json)) :
    ((key, value) :: members).lookup name
      = if name = key then some value else members.lookup name := by
  rw [List.lookup_cons]
  by_cases h : name = key
  · rw [h, if_pos rfl, beq_self_eq_true]
  · rw [if_neg h, beq_false_of_ne h]

@[simp] theorem lookup_textMember (name key value : String) :
    (textMember key value).lookup name = if name = key then textField value else none := by
  unfold textMember textField
  by_cases hvalue : value = "" <;> simp [hvalue]

@[simp] theorem lookup_textsMember (name key : String) (values : List String) :
    (textsMember key values).lookup name = if name = key then textsField values else none := by
  unfold textsMember textsField
  by_cases hvalues : values = [] <;> simp [hvalues]

@[simp] theorem lookup_optionMember (name key : String) (value : Option Json) :
    (optionMember key value).lookup name = if name = key then value else none := by
  unfold optionMember
  cases value <;> simp

theorem string_injective : Function.Injective string :=
  fun _ _ h => string.inj h

theorem number_injective : Function.Injective number :=
  fun _ _ h => number.inj h

/-- A field that was left out was empty. -/
theorem textField_injective : Function.Injective textField := by
  intro s t h
  unfold textField at h
  split at h <;> split at h <;> simp_all

theorem textsField_injective : Function.Injective textsField := by
  intro values values' h
  unfold textsField at h
  split at h <;> split at h <;> simp_all [string_injective.list_map.eq_iff]

end Json

/-! ### Entries -/

theorem Location.toJson_injective : Function.Injective Location.toJson := by
  rintro ⟨line, column, offset⟩ ⟨line', column', offset'⟩ h
  simpa [Location.toJson] using h

theorem Visibility.field_injective :
    Function.Injective fun v : Visibility => Json.string v.label :=
  Json.string_injective.comp label_injective

attribute [ext] Entry

theorem Entry.toJson_injective : Function.Injective Entry.toJson := by
  intro e e' h
  have hfield (name : String) : e.toJson.field? name = e'.toJson.field? name := by rw [h]
  simp only [Entry.toJson, Json.field?, List.lookup_append] at hfield
  apply Entry.ext
  case id => simpa using hfield "id"
  case kind => exact EntryKind.word_injective (by simpa using hfield "kind")
  case name => simpa using hfield "name"
  case qualifier =>
    exact Option.map_injective Json.string_injective (by simpa using hfield "qualifier")
  case signature => simpa using hfield "signature"
  case args => exact Json.textField_injective (by simpa using hfield "args")
  case typeText => exact Json.textField_injective (by simpa using hfield "type_text")
  case initializer => exact Json.textField_injective (by simpa using hfield "initializer")
  case bases => exact Json.textsField_injective (by simpa using hfield "bases")
  case specifiers => exact Json.textsField_injective (by simpa using hfield "specifiers")
  case uses => exact Json.textsField_injective (by simpa using hfield "uses")
  case doc => simpa using hfield "doc"
  case visibility =>
    exact Option.map_injective Visibility.field_injective (by simpa using hfield "visibility")
  case forward => simpa using hfield "forward"
  case file => simpa using hfield "file"
  case start => exact Location.toJson_injective (by simpa using hfield "start")
  case stop => exact Location.toJson_injective (by simpa using hfield "end")
  case parent => exact Option.map_injective Json.number_injective (by simpa using hfield "parent")
  case children =>
    have hids := Json.number_injective.list_map (by simpa using hfield "children")
    exact Array.toList_inj.mp hids

theorem Outline.toJson_injective : Function.Injective Outline.toJson := by
  rintro ⟨file, entries, hentries⟩ ⟨file', entries', hentries'⟩ h
  simp only [Outline.toJson, Json.object.injEq, List.cons.injEq, Prod.mk.injEq,
    Json.string.injEq, Json.array.injEq, true_and, and_true] at h
  obtain ⟨rfl, hmap⟩ := h
  obtain rfl := Array.toList_inj.mp (Entry.toJson_injective.list_map hmap)
  rfl

/-! ### Diagnostics -/

/-- A diagnostic as structured output shows it. -/
structure Notice where
  /-- The class of the problem. -/
  label : String
  /-- The wording. -/
  message : String
  /-- The line. -/
  line : Nat
  /-- The column. -/
  column : Nat
deriving DecidableEq, Repr

namespace Notice

/-- A notice as a JSON value. -/
def toJson (n : Notice) : Json :=
  .object [("kind", .string n.label), ("message", .string n.message), ("line", .number n.line),
    ("column", .number n.column)]

theorem toJson_injective : Function.Injective toJson := by
  rintro ⟨label, message, line, column⟩ ⟨label', message', line', column'⟩ h
  simpa [toJson] using h

end Notice

/-- What is shown of a diagnostic. -/
def Diagnostic.notice (d : Diagnostic) : Notice :=
  ⟨d.problem.label, d.problem.message, d.line, d.column⟩

theorem Diagnostic.toJson_notice (d : Diagnostic) : d.notice.toJson = d.toJson := rfl

theorem Diagnostic.notice_injective : Function.Injective Diagnostic.notice := by
  rintro ⟨problem, line, column⟩ ⟨problem', line', column'⟩ h
  obtain ⟨hlabel, hmessage, hline, hcolumn⟩ := Notice.mk.inj h
  exact congr (congr (congrArg mk (Problem.eq_of_label_message hlabel hmessage)) hline) hcolumn

/-! ### Reports -/

/-- An outline and notices as a JSON value. -/
def Outline.reportJson (o : Outline) (notices : List Notice) : Json :=
  .object [("tree", o.toJson), ("diagnostics", .array (notices.map Notice.toJson))]

theorem Report.toJson_eq_reportJson (r : Report) :
    r.toJson = r.outline.reportJson (r.diagnostics.map Diagnostic.notice) := by
  have hnotices : Notice.toJson ∘ Diagnostic.notice = Diagnostic.toJson :=
    funext Diagnostic.toJson_notice
  rw [Report.toJson, Outline.reportJson, List.map_map, hnotices]

theorem Outline.reportJson_inj {o o' : Outline} {notices notices' : List Notice}
    (h : o.reportJson notices = o'.reportJson notices') : o = o' ∧ notices = notices' := by
  simp only [reportJson, Json.object.injEq, List.cons.injEq, Prod.mk.injEq, Json.array.injEq,
    true_and, and_true] at h
  exact ⟨Outline.toJson_injective h.1, Notice.toJson_injective.list_map h.2⟩

/-- The JSON output loses nothing. The text of a report is that of its outline
    and of what is shown of its diagnostics, and it determines both, whatever
    the entries, classes and wordings are; so it determines the report. The
    text of an entry determines the entry. -/
theorem json_text_determines :
    (∀ r : Report, Format.json.report r
      = (r.outline.reportJson (r.diagnostics.map Diagnostic.notice)).document) ∧
    (∀ (o o' : Outline) (notices notices' : List Notice),
      (o.reportJson notices).document = (o'.reportJson notices').document →
        o = o' ∧ notices = notices') ∧
    (∀ r r' : Report, Format.json.report r = Format.json.report r' → r = r') ∧
    (∀ e e' : Entry, Format.json.entry e = Format.json.entry e' → e = e') := by
  refine ⟨fun r => congrArg Json.document r.toJson_eq_reportJson, ?_, ?_, ?_⟩
  · intro o o' notices notices' h
    exact Outline.reportJson_inj (Json.document_injective h)
  · rintro ⟨outline, diagnostics⟩ ⟨outline', diagnostics'⟩ h
    have hvalues := Json.document_injective h
    rw [Report.toJson_eq_reportJson, Report.toJson_eq_reportJson] at hvalues
    obtain ⟨houtline, hnotices⟩ := Outline.reportJson_inj hvalues
    exact congrArg₂ Report.mk houtline (Diagnostic.notice_injective.list_map hnotices)
  · intro e e' h
    exact Entry.toJson_injective (Json.document_injective h)

/-- An entry whose name looks like JSON and whose documentation was given in
    two parts: its text is that of the entry with the whole documentation. -/
theorem json_text_determines_of_two_paragraphs :
    let e := (({ name := "\",\n\\" } : Entry).addDoc "a\x01").addDoc "b"
    let e' : Entry := { name := "\",\n\\", doc := "a\x01\n\nb" }
    Format.json.entry e = Format.json.entry e' ∧ e = e' := by
  intro e e'
  have hprint : e.toJson.print 0 = e'.toJson.print 0 := by decide +kernel
  have htexts : Format.json.entry e = Format.json.entry e' :=
    congrArg (fun cs => String.ofList (cs ++ ['\n'])) hprint
  exact ⟨htexts, json_text_determines.2.2.2 e e' htexts⟩

end PascalOutline
