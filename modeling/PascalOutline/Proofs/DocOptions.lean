import PascalOutline.Proofs.Correspondence.Scan

/-! # The options for documentation

  Which comments document, and how far from a declaration they may stand, is
  chosen by two options. A scan under other choices finds the same
  declarations at the same places with the same problems; only the
  documentation of the entries may differ.
-/

namespace PascalOutline

/-- An entry without its documentation. -/
def Entry.undocumented (e : Entry) : Entry :=
  { e with doc := "" }

namespace Correspondence

/-- Two readings of one text, of which the documentation is not compared. -/
def sameText : Correspondence where
  text := id
  place := Eq
  docs := False
  text_append _ _ := rfl
  text_lowered _ := rfl
  lowered_text _ := rfl
  place_start := rfl
  place_nowhere := rfl
  place_max h h' := by rw [h, h']
  line_eq h := h.elim

theorem keepsPositions_sameText : sameText.KeepsPositions := by
  rintro a _ rfl
  exact ⟨rfl, rfl⟩

end Correspondence

open Correspondence

theorem Token.corresponds_sameText (t : Token) : t.Corresponds sameText t :=
  ⟨rfl, rfl, fun _ => rfl, rfl, rfl, fun h => h.elim⟩

theorem Entry.undocumented_eq_of_corresponds {e e' : Entry} (h : e.Corresponds sameText e') :
    e'.undocumented = e.undocumented := by
  obtain ⟨doc, start, stop, rfl⟩ := h.exists_eq
  have hstart : e.start = start := h.start
  have hstop : e.stop = stop := h.stop
  subst hstart hstop
  simp [undocumented, respell, sameText]

/-- Two scans of one source that treat nested comments in the same way differ at
    most in the documentation of entries, whatever the other options are. -/
theorem undocumented_scan_eq (options options' : Options) (file source : String)
    (hnested : options.nestedComments = options'.nestedComments) :
    (scan options file source).mapEntries Entry.undocumented
      = (scan options' file source).mapEntries Entry.undocumented := by
  let lexemes := Lexer.lex options'.nestedComments source
  have htokens : Token.CodeCorresponds sameText (Token.ofLexemes lexemes)
      (Token.ofLexemes lexemes) :=
    ⟨List.forall₂_same.mpr fun t _ => t.corresponds_sameText, rfl⟩
  have hstates : (State.ofSource options' file lexemes).Corresponds sameText
      (State.ofSource options file lexemes) :=
    State.corresponds_ofSource htokens rfl (fun h => h.elim) file
  unfold scan
  rw [hnested]
  exact hstates.report keepsPositions_sameText rfl Entry.undocumented_eq_of_corresponds

/-- A comment documents the declaration after it without a limit for the gap,
    the declaration before it under a limit, and nothing where plain brace
    comments do not document. -/
theorem undocumented_scan_eq_of_gap :
    let source := "var a: T;\n\x7bfar\x7d\n\n\nb: T;"
    let limited : Options := { docGap := some 1 }
    let marked : Options := { braceDocs := false }
    (scan {} "u.pas" source ≠ scan limited "u.pas" source ∧
        (scan {} "u.pas" source).mapEntries Entry.undocumented
          = (scan limited "u.pas" source).mapEntries Entry.undocumented) ∧
      scan limited "u.pas" source ≠ scan marked "u.pas" source ∧
        (scan limited "u.pas" source).mapEntries Entry.undocumented
          = (scan marked "u.pas" source).mapEntries Entry.undocumented := by
  intro source limited marked
  refine ⟨⟨by decide +kernel, ?_⟩, by decide +kernel, ?_⟩
  · exact undocumented_scan_eq {} limited "u.pas" source rfl
  · exact undocumented_scan_eq limited marked "u.pas" source rfl

end PascalOutline
