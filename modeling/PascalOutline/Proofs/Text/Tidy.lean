import Mathlib.Data.List.Basic
import PascalOutline.Proofs.Text.Respelling

/-! # Tidy texts

  A text is tidy when it has no carriage return, begins and ends with lines
  that are not empty, and no line ends in white space. Two tidy texts that are
  joined by a line feed, or by an empty line, are a tidy text.
-/

namespace PascalOutline

open Lexer (isLineEnd)

/-! ### Lines of a text -/

theorem isLineEnd_eq_false_of_mem_sourceLines {cs line : List Char} (h : line ∈ sourceLines cs) :
    ∀ c ∈ line, isLineEnd c = false := by
  fun_induction sourceLines cs generalizing line with
  | case1 =>
    obtain rfl := List.mem_singleton.mp h
    exact fun c hc => by cases hc
  | case2 cs ih =>
    rcases List.mem_cons.mp h with rfl | hrest
    · exact fun c hc => by cases hc
    · exact ih hrest
  | case3 c cs _ _ ih =>
    rcases List.mem_cons.mp h with rfl | hrest
    · exact fun d hd => by cases hd
    · exact ih hrest
  | case4 c cs _ hend ih =>
    have hc : isLineEnd c = false := by simpa [isLineEnd] using hend
    cases hlines : sourceLines cs with
    | nil => exact absurd hlines (sourceLines_ne_nil cs)
    | cons first lines =>
      rw [hlines] at h ih
      rcases List.mem_cons.mp h with rfl | hrest
      · exact List.forall_mem_cons.mpr ⟨hc, ih List.mem_cons_self⟩
      · exact ih (List.mem_cons_of_mem _ hrest)

/-- A line feed parts the lines before it from the lines behind it. -/
theorem sourceLines_append_lineFeed {cs : List Char} (h : '\r' ∉ cs) (ds : List Char) :
    sourceLines (cs ++ '\n' :: ds) = sourceLines cs ++ sourceLines ds := by
  induction cs with
  | nil =>
    have hwhole : '\n' = '\r' → ds.head? ≠ some '\n' := fun hne => absurd hne (by decide)
    exact Respelling.sourceLines_cons_of_isLineEnd rfl hwhole
  | cons c cs ih =>
    obtain ⟨hc, hcs⟩ := not_or.mp (mt List.mem_cons.mpr h)
    have hwhole (rest : List Char) : c = '\r' → rest.head? ≠ some '\n' :=
      fun hreturn => absurd hreturn.symm hc
    rw [List.cons_append]
    cases hend : isLineEnd c with
    | true =>
      rw [Respelling.sourceLines_cons_of_isLineEnd hend (hwhole _),
        Respelling.sourceLines_cons_of_isLineEnd hend (hwhole _), ih hcs, List.cons_append]
    | false =>
      rw [Respelling.sourceLines_cons_of_isLineEnd_eq_false hend,
        Respelling.sourceLines_cons_of_isLineEnd_eq_false hend, ih hcs]
      cases hlines : sourceLines cs with
      | nil => exact absurd hlines (sourceLines_ne_nil cs)
      | cons line lines => rfl

theorem sourceLines_of_inline {line : List Char} (h : ∀ c ∈ line, isLineEnd c = false) :
    sourceLines line = [line] := by
  induction line with
  | nil => rfl
  | cons c cs ih =>
    obtain ⟨hc, hcs⟩ := List.forall_mem_cons.mp h
    rw [Respelling.sourceLines_cons_of_isLineEnd_eq_false hc, ih hcs]
    rfl

theorem not_mem_of_inline {line : List Char} (h : ∀ c ∈ line, isLineEnd c = false) : '\r' ∉ line :=
  fun hmem => absurd (h '\r' hmem) (by decide)

/-- Joined lines are the lines of a text. -/
theorem sourceLines_joinLines {lines : List (List Char)} (hne : lines ≠ [])
    (h : ∀ line ∈ lines, ∀ c ∈ line, isLineEnd c = false) :
    sourceLines (joinLines lines) = lines := by
  fun_induction joinLines lines with
  | case1 => exact absurd rfl hne
  | case2 line => exact sourceLines_of_inline (h line List.mem_cons_self)
  | case3 line lines hlines ih =>
    obtain ⟨hline, hrest⟩ := List.forall_mem_cons.mp h
    have hmore : lines ≠ [] := by
      rintro rfl
      exact hlines rfl
    rw [sourceLines_append_lineFeed (not_mem_of_inline hline), sourceLines_of_inline hline,
      ih hmore hrest, List.singleton_append]

theorem not_mem_joinLines {lines : List (List Char)}
    (h : ∀ line ∈ lines, ∀ c ∈ line, isLineEnd c = false) : '\r' ∉ joinLines lines := by
  fun_induction joinLines lines with
  | case1 => exact List.not_mem_nil
  | case2 line => exact not_mem_of_inline (h line List.mem_cons_self)
  | case3 line lines _ ih =>
    obtain ⟨hline, hrest⟩ := List.forall_mem_cons.mp h
    simp [not_mem_of_inline hline, ih hrest]

/-! ### Tidiness -/

/-- A text without carriage returns, empty lines at its ends and white space at
    the ends of its lines. -/
structure IsTidy (cs : List Char) : Prop where
  /-- Its lines are parted by line feeds. -/
  noReturn : '\r' ∉ cs
  /-- The first line is not empty. -/
  first : (sourceLines cs).head? ≠ some []
  /-- The last line is not empty. -/
  last : (sourceLines cs).getLast? ≠ some []
  /-- No line ends in white space. -/
  trimmed : ∀ line ∈ sourceLines cs, line.getLast?.any isSpace = false

namespace IsTidy

variable {cs ds : List Char}

theorem joinLines {lines : List (List Char)} (hne : lines ≠ [])
    (hinline : ∀ line ∈ lines, ∀ c ∈ line, isLineEnd c = false) (hfirst : lines.head? ≠ some [])
    (hlast : lines.getLast? ≠ some [])
    (htrimmed : ∀ line ∈ lines, line.getLast?.any isSpace = false) : IsTidy (joinLines lines) := by
  have hlines := sourceLines_joinLines hne hinline
  constructor
  · exact not_mem_joinLines hinline
  all_goals rwa [hlines]

/-- Two tidy texts with lines between them. -/
theorem between (h : IsTidy cs) (h' : IsTidy ds) {text : List Char}
    (middle : List (List Char)) (hreturn : '\r' ∉ text)
    (hlines : sourceLines text = sourceLines cs ++ (middle ++ sourceLines ds))
    (hmiddle : ∀ line ∈ middle, line.getLast?.any isSpace = false) : IsTidy text := by
  have hrest : middle ++ sourceLines ds ≠ [] := List.append_ne_nil_of_right_ne_nil _
    (sourceLines_ne_nil ds)
  constructor
  case noReturn => exact hreturn
  case first =>
    rw [hlines, List.head?_append_of_ne_nil _ (sourceLines_ne_nil cs)]
    exact h.first
  case last =>
    rw [hlines, List.getLast?_append_of_ne_nil _ hrest,
      List.getLast?_append_of_ne_nil _ (sourceLines_ne_nil ds)]
    exact h'.last
  case trimmed =>
    rw [hlines]
    exact List.forall_mem_append.mpr
      ⟨h.trimmed, List.forall_mem_append.mpr ⟨hmiddle, h'.trimmed⟩⟩

theorem append_lineFeed (h : IsTidy cs) (h' : IsTidy ds) : IsTidy (cs ++ '\n' :: ds) := by
  refine h.between h' [] ?_ (sourceLines_append_lineFeed h.noReturn ds) (by simp)
  simp [h.noReturn, h'.noReturn]

/-- The same with an empty line between the two texts. -/
theorem append_lineFeeds (h : IsTidy cs) (h' : IsTidy ds) : IsTidy (cs ++ '\n' :: '\n' :: ds) := by
  have hempty : sourceLines ('\n' :: ds) = [[]] ++ sourceLines ds :=
    sourceLines_append_lineFeed List.not_mem_nil ds
  refine h.between h' [[]] ?_ ?_ (by simp)
  · simp [h.noReturn, h'.noReturn]
  · rw [sourceLines_append_lineFeed h.noReturn, hempty]

end IsTidy

end PascalOutline
