import PascalOutline.Proofs.Correspondence.Recognizer
import PascalOutline.Scan

/-! # Reports on two readings

  A report is compared entry by entry: what a function makes of each entry
  of one reading is what another function makes of the corresponding entry
  of the other reading. Diagnostics have lines and columns and no offsets, so
  they are equal wherever lines and columns of places that belong together
  are.
-/

namespace PascalOutline

/-- The report with a function applied to every entry. -/
def Report.mapEntries (f : Entry → Entry) (report : Report) : Report :=
  { report with
    outline :=
      { report.outline with
        entries := report.outline.entries.map f
        nonempty := by
          rw [Array.size_map]
          exact report.outline.nonempty } }

@[simp] theorem Report.mapEntries_id (report : Report) : report.mapEntries id = report := by
  simp [mapEntries]

/-- Places that belong together are shown as the same line and column. -/
def Correspondence.KeepsPositions (r : Correspondence) : Prop :=
  ∀ {a a'}, r.place a a' → a'.line = a.line ∧ a'.column = a.column

namespace State.Corresponds

variable {r : Correspondence} {s t : State}

theorem outline (h : s.Corresponds r t) : s.outline.Corresponds r t.outline :=
  h.draft.builder.finish h.cursor.eof

theorem diagnostics_eq (h : s.Corresponds r t) (hr : r.KeepsPositions) :
    t.diagnostics.toList = s.diagnostics.toList := by
  have hlist := h.diagnostics
  generalize s.diagnostics.toList = ds at hlist
  generalize t.diagnostics.toList = ds' at hlist
  induction hlist with
  | nil => rfl
  | cons hone _ ih =>
    obtain ⟨problem, a, a', hplace, rfl, rfl⟩ := hone
    obtain ⟨hline, hcolumn⟩ := hr hplace
    rw [ih, Diagnostic.at_, Diagnostic.at_, hline, hcolumn]

/-- The reports on corresponding states are the same up to what the two
    functions make of corresponding entries. -/
theorem report (h : s.Corresponds r t) (hr : r.KeepsPositions) {lexemes lexemes' : List Lexeme}
    (hlexemes : Diagnostic.ofLexemes lexemes' = Diagnostic.ofLexemes lexemes)
    {f g : Entry → Entry} (hfg : ∀ {e e'}, Entry.Corresponds r e e' → g e' = f e) :
    (Report.ofState lexemes' t).mapEntries g = (Report.ofState lexemes s).mapEntries f := by
  have houtline := h.outline
  simp only [Report.mapEntries, Report.ofState, houtline.map_entries hfg, houtline.file, hlexemes,
    h.diagnostics_eq hr]

end State.Corresponds

end PascalOutline
