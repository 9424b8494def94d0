import PascalOutline.Proofs.Correspondence.Respelling

/-! # Letter case

  Nothing in a source is told apart by the case of ASCII letters. A source in
  lower case has the outline of the source in lower case: the same entries at
  the same places, linked in the same way, with every text that was copied
  from the source in lower case, and the same problems. Only the name of a
  root without a module header stays as it is, since it comes from the name of
  the file.
-/

namespace PascalOutline

namespace Respelling

/-- Every letter in lower case, and the line ends as they are. -/
def lowerCase : Respelling where
  char := Char.toLower
  lineFeeds := false
  char_eq _ := .inr rfl

theorem chars_lowerCase (cs : List Char) : lowerCase.chars cs = cs.map Char.toLower := by
  have hsingle (c : Char) : lowerCase.single c = c.toLower := by simp [single, lowerCase]
  fun_induction chars lowerCase cs with
  | case1 => rfl
  | case2 cs hfeeds ih => cases hfeeds
  | case3 cs hfeeds ih => rw [ih]; rfl
  | case4 c cs _ ih => rw [ih, hsingle, List.map_cons]

theorem apply_lowerCase (source : String) : lowerCase.apply source = lowered source := by
  rw [apply, chars_lowerCase, lowered]

/-- Lower case takes as many bytes. -/
theorem byteLength_map_toLower (cs : List Char) :
    Lexeme.byteLength (cs.map Char.toLower) = Lexeme.byteLength cs := by
  induction cs with
  | nil => rfl
  | cons c cs ih =>
    rw [List.map_cons, byteLength_cons, byteLength_cons, ih, utf8Size_toLower]

theorem SamePlace.eq_of_lowerCase {source : List Char} {a a' : Location}
    (h : lowerCase.SamePlace source a a') : a' = a := by
  obtain ⟨pre, post, _, hoffset, hoffset'⟩ := h.offset
  rw [chars_lowerCase, byteLength_map_toLower, ← hoffset] at hoffset'
  obtain ⟨line, column, offset⟩ := a
  obtain ⟨line', column', offset'⟩ := a'
  rw [Location.mk.injEq]
  exact ⟨h.line, h.column, hoffset'⟩

end Respelling

open Respelling

theorem Entry.eq_respell_of_corresponds {source : List Char} {e e' : Entry}
    (h : e.Corresponds (lowerCase.correspondence source) e') : e' = e.respell lowered := by
  obtain ⟨doc, start, stop, rfl⟩ := h.exists_eq
  obtain rfl : doc = lowered e.doc := h.doc trivial
  obtain rfl : start = e.start := SamePlace.eq_of_lowerCase h.start
  obtain rfl : stop = e.stop := SamePlace.eq_of_lowerCase h.stop
  rfl

/-- The scan of a source in lower case is the scan of the source with the texts
    of its entries in lower case. -/
theorem scan_lowered (options : Options) (file source : String) :
    scan options file (lowered source)
      = (scan options file source).mapEntries (Entry.respell lowered) := by
  rw [← apply_lowerCase]
  exact lowerCase.scan_apply options file source Entry.eq_respell_of_corresponds

end PascalOutline
