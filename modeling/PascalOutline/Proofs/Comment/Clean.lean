import Mathlib.Data.List.Forall2
import Mathlib.Data.List.TakeWhile
import PascalOutline.Proofs.Text.Tidy

/-! # Cleaned comments

  What cleaning takes off a comment is said without the cleaner: the decoration
  before the closer (`ClosingDecoration`), the margin of a line (`HasMargin`), the
  white space at its end (`Trims`) and the indentation that lines share
  (`Dedents`). Every line of the cleaned text is what is left of one line of the
  comment (`Reduces`), line after line; only lines of which nothing is left are
  missing, at both ends. And the cleaned text is tidy.
-/

namespace PascalOutline.Comment

open Lexer (isLineEnd)

/-! ### Characters -/

theorem isSpace_of_isIndent {c : Char} (h : isIndent c = true) : isSpace c = true := by
  simp only [isIndent, Bool.or_eq_true, beq_iff_eq] at h
  rcases h with rfl | rfl <;> decide

theorem isSpace_of_isDecoration {c : Char} (h : isDecoration c = true) : isSpace c = false := by
  simp only [isDecoration, Bool.or_eq_true, beq_iff_eq] at h
  rcases h with rfl | rfl <;> decide

theorem isIndent_of_isDecoration {c : Char} (h : isDecoration c = true) : isIndent c = false := by
  rw [← Bool.not_eq_true]
  intro hindent
  have hspace := isSpace_of_isIndent hindent
  rw [isSpace_of_isDecoration h] at hspace
  cases hspace

/-! ### Ends of lines -/

/-- `text` is a text without the white space at its end. -/
structure Trims (whole text : List Char) : Prop where
  /-- White space was taken off. -/
  rest : ∃ space, whole = text ++ space ∧ ∀ c ∈ space, isSpace c = true
  /-- All of it was. -/
  last : text.getLast?.any isSpace = false

theorem trims_trimEnd (cs : List Char) : Trims cs (trimEnd cs) := by
  obtain ⟨space, hsplit, hlast, hspace⟩ := Respelling.exists_dropEnd_append isSpace cs
  exact ⟨⟨space, hsplit, hspace⟩, hlast⟩

/-! ### Closing decoration -/

/-- A body ends in a run of marks that stands alone, perhaps with white space
    behind it, and `text` stands before it. Marks right behind a word do not
    stand alone. -/
def ClosingDecoration (body text : List Char) : Prop :=
  ∃ marks space, body = text ++ (marks ++ space) ∧ marks ≠ [] ∧
    (∀ c ∈ marks, isDecoration c = true) ∧ (∀ c ∈ space, isSpace c = true) ∧
    text.getLast?.all isSpace = true

/-- `text` is what closing decoration leaves of a body; without such decoration
    only white space is taken off its end. -/
def Undecorates (body text : List Char) : Prop :=
  ClosingDecoration body text ∨ Trims body text ∧ ∀ rest, ¬ ClosingDecoration body rest

/-- The text before closing decoration is found by dropping white space and then
    marks. -/
theorem ClosingDecoration.eq_dropEnd {body text : List Char} (h : ClosingDecoration body text) :
    text = dropEnd isDecoration (trimEnd body) := by
  obtain ⟨marks, space, rfl, hne, hmarks, hspace, hlast⟩ := h
  have hend : (text ++ marks).getLast?.any isSpace = false := by
    rw [List.getLast?_append_of_ne_nil _ hne, List.getLast?_eq_some_getLast hne]
    exact isSpace_of_isDecoration (hmarks _ (List.getLast_mem hne))
  have hbare : text.getLast?.any isDecoration = false := by
    cases hc : text.getLast? with
    | none => rfl
    | some c =>
      rw [hc] at hlast
      have hspace : isSpace c = true := hlast
      rw [Option.any_some, ← Bool.not_eq_true]
      intro hdecoration
      rw [isSpace_of_isDecoration hdecoration] at hspace
      cases hspace
  rw [trimEnd, ← List.append_assoc, Respelling.dropEnd_append hend hspace,
    Respelling.dropEnd_append hbare hmarks]

theorem undecorates_undecorated (body : List Char) : Undecorates body (undecorated body) := by
  have htrims := trims_trimEnd body
  obtain ⟨space, hbody, hspace⟩ := htrims.rest
  obtain ⟨marks, htrimmed, hbare, hmarks⟩ :=
    Respelling.exists_dropEnd_append isDecoration (trimEnd body)
  unfold undecorated
  dsimp only
  split
  case isTrue hlast =>
    by_cases hne : marks = []
    · -- Without marks the body has only white space.
      rw [hne, List.append_nil] at htrimmed
      rw [← htrimmed]
      refine .inr ⟨htrims, ?_⟩
      rintro rest ⟨marks', space', hsplit, hne', hmarks', -⟩
      rw [← htrimmed] at hlast
      have hnil : trimEnd body = [] := by
        rw [← List.getLast?_eq_none_iff]
        have hno := htrims.last
        cases hc : (trimEnd body).getLast? with
        | none => rfl
        | some c =>
          rw [hc] at hlast hno
          rw [Option.any_some] at hno
          rw [Option.all_some, hno] at hlast
          cases hlast
      rw [hnil, List.nil_append] at hbody
      obtain ⟨mark, hmark⟩ := List.exists_mem_of_ne_nil _ hne'
      have hmem : mark ∈ space := by
        rw [← hbody, hsplit]
        simp [hmark]
      have hboth := hspace mark hmem
      rw [isSpace_of_isDecoration (hmarks' mark hmark)] at hboth
      cases hboth
    · refine .inl ⟨marks, space, ?_, hne, hmarks, hspace, hlast⟩
      rw [← List.append_assoc, ← htrimmed, ← hbody]
  case isFalse hlast =>
    refine .inr ⟨htrims, ?_⟩
    intro rest hclosing
    rw [← hclosing.eq_dropEnd] at hlast
    obtain ⟨_, _, _, _, _, _, hall⟩ := hclosing
    exact hlast hall

/-! ### Margins -/

/-- A line begins with a margin, and `text` stands behind it. The margin is
    blanks, a run of marks, and one blank or the end of the line. -/
inductive HasMargin : (line text : List Char) → Prop
  /-- A blank stands behind the marks. -/
  | blank {blanks marks text : List Char} {c : Char}
      (blanks_isIndent : ∀ b ∈ blanks, isIndent b = true) (marks_ne_nil : marks ≠ [])
      (marks_isDecoration : ∀ m ∈ marks, isDecoration m = true) (isIndent_c : isIndent c = true) :
      HasMargin (blanks ++ (marks ++ c :: text)) text
  /-- The line ends behind the marks. -/
  | lineEnd {blanks marks : List Char}
      (blanks_isIndent : ∀ b ∈ blanks, isIndent b = true) (marks_ne_nil : marks ≠ [])
      (marks_isDecoration : ∀ m ∈ marks, isDecoration m = true) :
      HasMargin (blanks ++ marks) []

/-- `text` is a line without its margin, if it has one. -/
def Unmargins (line text : List Char) : Prop :=
  HasMargin line text ∨ text = line ∧ ∀ rest, ¬ HasMargin line rest

theorem HasMargin.withoutMargin_eq {line text : List Char} (h : HasMargin line text) :
    withoutMargin line = text := by
  -- The marks begin behind the blanks.
  have hmarked {marks : List Char} (hne : marks ≠ []) (hmarks : ∀ m ∈ marks, isDecoration m = true)
      (rest : List Char) : (marks ++ rest).dropWhile isIndent = marks ++ rest ∧
        (marks ++ rest).head?.any isDecoration = true := by
    cases marks with
    | nil => exact absurd rfl hne
    | cons m marks =>
      have hm := hmarks m List.mem_cons_self
      refine ⟨List.dropWhile_cons_of_neg ?_, hm⟩
      rw [isIndent_of_isDecoration hm]
      exact Bool.false_ne_true
  unfold withoutMargin
  dsimp only
  cases h with
  | @blank blanks marks _ c hblanks hne hmarks hc =>
    obtain ⟨hindent, hhead⟩ := hmarked hne hmarks (c :: text)
    have hnoMark : isDecoration c = false := by
      rw [← Bool.not_eq_true]
      intro hmark
      rw [isIndent_of_isDecoration hmark] at hc
      cases hc
    have hrest : (marks ++ c :: text).dropWhile isDecoration = c :: text := by
      rw [List.dropWhile_append_of_pos hmarks, List.dropWhile_cons_of_neg (by simp [hnoMark])]
    rw [List.dropWhile_append_of_pos hblanks, hindent, if_pos hhead, hrest]
    exact if_pos hc
  | @lineEnd blanks marks hblanks hne hmarks =>
    obtain ⟨hindent, hhead⟩ := hmarked hne hmarks []
    rw [List.append_nil] at hindent hhead
    have hrest : marks.dropWhile isDecoration = [] := List.dropWhile_eq_nil_iff.mpr hmarks
    rw [List.dropWhile_append_of_pos hblanks, hindent, if_pos hhead, hrest]

theorem unmargins_withoutMargin (line : List Char) : Unmargins line (withoutMargin line) := by
  by_cases hmargin : ∃ rest, HasMargin line rest
  · obtain ⟨rest, hrest⟩ := hmargin
    rw [hrest.withoutMargin_eq]
    exact .inl hrest
  · refine .inr ⟨?_, not_exists.mp hmargin⟩
    have hline := (List.takeWhile_append_dropWhile (p := isIndent) (l := line)).symm
    have hblanks : ∀ b ∈ line.takeWhile isIndent, isIndent b = true :=
      List.all_eq_true.mp List.all_takeWhile
    unfold withoutMargin
    dsimp only
    generalize line.dropWhile isIndent = marked at hline
    generalize line.takeWhile isIndent = blanks at hline hblanks
    have hmarked := (List.takeWhile_append_dropWhile (p := isDecoration) (l := marked)).symm
    have hmarks : ∀ m ∈ marked.takeWhile isDecoration, isDecoration m = true :=
      List.all_eq_true.mp List.all_takeWhile
    split
    case isTrue hhead =>
      have hne : marked.takeWhile isDecoration ≠ [] := by
        cases marked with
        | nil => cases hhead
        | cons m rest =>
          have hm : isDecoration m = true := hhead
          rw [List.takeWhile_cons_of_pos hm]
          exact List.cons_ne_nil _ _
      -- A line without a margin has a word right behind its marks.
      split
      next hrest =>
        rw [hrest, List.append_nil] at hmarked
        rw [hline, hmarked] at hmargin
        exact absurd ⟨[], .lineEnd hblanks hne hmarks⟩ hmargin
      next c rest hrest =>
        split
        next hc =>
          rw [hrest] at hmarked
          rw [hline, hmarked] at hmargin
          exact absurd ⟨rest, .blank hblanks hne hmarks hc⟩ hmargin
        next => rfl
    case isFalse => rfl

/-! ### Indentation -/

/-- `text` is a line without `n` blanks at its beginning; an empty line stays
    empty. -/
inductive Dedents (n : Nat) : (line text : List Char) → Prop
  /-- An empty line. -/
  | empty : Dedents n [] []
  /-- A line that is not empty. -/
  | line {blanks text : List Char} (length_eq : blanks.length = n)
      (blanks_isIndent : ∀ b ∈ blanks, isIndent b = true) (ne_nil : text ≠ []) :
      Dedents n (blanks ++ text) text

/-- A line that does not end in white space is not all indentation. -/
theorem indentOf_lt {line : List Char} (hne : line ≠ [])
    (hlast : line.getLast?.any isSpace = false) : indentOf line < line.length := by
  have hsplit := List.takeWhile_append_dropWhile (p := isIndent) (l := line)
  have hrest : line.dropWhile isIndent ≠ [] := by
    intro hnil
    have hall := List.dropWhile_eq_nil_iff.mp hnil
    rw [List.getLast?_eq_some_getLast hne] at hlast
    have hspace := isSpace_of_isIndent (hall _ (List.getLast_mem hne))
    rw [Option.any_some, hspace] at hlast
    cases hlast
  have hlength := congrArg List.length hsplit
  rw [List.length_append] at hlength
  have hpos := List.length_pos_iff.mpr hrest
  unfold indentOf
  omega

theorem dedents_drop {n : Nat} {line : List Char} (hlast : line.getLast?.any isSpace = false)
    (hle : line ≠ [] → n ≤ indentOf line) : Dedents n line (line.drop n) := by
  by_cases hne : line = []
  · rw [hne, List.drop_nil]
    exact .empty
  · have hindent := hle hne
    have hlt := indentOf_lt hne hlast
    have hlength : (line.take n).length = n := by
      rw [List.length_take]
      omega
    have hblanks : ∀ b ∈ line.take n, isIndent b = true := by
      intro b hb
      have htaken : line.take n <+: line.takeWhile isIndent :=
        List.prefix_of_prefix_length_le (List.take_prefix n line) (List.takeWhile_prefix _)
          (by rw [hlength]; exact hindent)
      exact List.all_eq_true.mp List.all_takeWhile b (htaken.subset hb)
    have hrest : line.drop n ≠ [] := by
      rw [Ne, List.drop_eq_nil_iff]
      omega
    have hdedents := Dedents.line hlength hblanks hrest
    rwa [List.take_append_drop] at hdedents

section Common

variable {lines : List (List Char)}

theorem commonIndent_le {line : List Char} (hmem : line ∈ lines) (hne : line ≠ []) :
    commonIndent lines ≤ indentOf line := by
  have hindent : indentOf line ∈ (lines.filter fun line => !line.isEmpty).map indentOf :=
    List.mem_map_of_mem (List.mem_filter.mpr ⟨hmem, by simp [hne]⟩)
  unfold commonIndent
  cases hmin : ((lines.filter fun line => !line.isEmpty).map indentOf).min? with
  | none => exact Nat.zero_le _
  | some n => exact (List.min?_eq_some_iff.mp hmin).2 _ hindent

/-- Some line has no more than the common indentation. -/
theorem exists_commonIndent_eq (h : ∃ line ∈ lines, line ≠ []) :
    ∃ line ∈ lines, line ≠ [] ∧ indentOf line = commonIndent lines := by
  obtain ⟨some₀, hmem₀, hne₀⟩ := h
  have hindent : indentOf some₀ ∈ (lines.filter fun line => !line.isEmpty).map indentOf :=
    List.mem_map_of_mem (List.mem_filter.mpr ⟨hmem₀, by simp [hne₀]⟩)
  unfold commonIndent
  cases hmin : ((lines.filter fun line => !line.isEmpty).map indentOf).min? with
  | none =>
    rw [List.min?_eq_none_iff.mp hmin] at hindent
    cases hindent
  | some n =>
    obtain ⟨line, hline, rfl⟩ := List.mem_map.mp (List.min?_eq_some_iff.mp hmin).1
    obtain ⟨hmem, hempty⟩ := List.mem_filter.mp hline
    exact ⟨line, hmem, by simpa using hempty, rfl⟩

/-- Without its own indentation a line begins with a character that is no
    blank. -/
theorem head?_drop_indentOf {line : List Char} (hlt : indentOf line < line.length) :
    (line.drop (indentOf line)).head?.any (fun c => !isIndent c) = true := by
  unfold indentOf at hlt ⊢
  induction line with
  | nil => cases hlt
  | cons c cs ih =>
    cases hc : isIndent c with
    | true =>
      rw [List.takeWhile_cons_of_pos hc, List.length_cons, List.length_cons] at hlt
      rw [List.takeWhile_cons_of_pos hc, List.length_cons, List.drop_succ_cons]
      exact ih (Nat.lt_of_succ_lt_succ hlt)
    | false =>
      rw [List.takeWhile_cons_of_neg (by simp [hc])]
      simp [hc]

/-! ### Lines at both ends -/

/-- The lines that stay stand together, and those around them are empty. -/
theorem exists_trimLines_append (lines : List (List Char)) :
    ∃ before after, lines = before ++ (trimLines lines ++ after) ∧
      (∀ line ∈ before ++ after, line = []) ∧ (trimLines lines).head? ≠ some [] ∧
      (trimLines lines).getLast? ≠ some [] := by
  have hfirst (ls : List (List Char)) : (ls.dropWhile List.isEmpty).head? ≠ some [] := by
    intro hempty
    have hno := List.head?_dropWhile_not List.isEmpty ls
    rw [hempty] at hno
    cases hno
  have hempty (ls : List (List Char)) : ∀ line ∈ ls.takeWhile List.isEmpty, line = [] := by
    intro line hline
    exact List.isEmpty_iff.mp (List.all_eq_true.mp List.all_takeWhile line hline)
  -- The lines behind the first empty ones, read from their end.
  generalize hrest : lines.dropWhile List.isEmpty = rest
  have hlines : lines = lines.takeWhile List.isEmpty ++ rest := by
    rw [← hrest, List.takeWhile_append_dropWhile]
  have hsplit : rest = trimLines lines ++ (rest.reverse.takeWhile List.isEmpty).reverse := by
    rw [trimLines, hrest, ← List.reverse_append, List.takeWhile_append_dropWhile,
      List.reverse_reverse]
  refine ⟨lines.takeWhile List.isEmpty, (rest.reverse.takeWhile List.isEmpty).reverse, ?_, ?_, ?_,
    ?_⟩
  · rw [← hsplit, ← hlines]
  · refine List.forall_mem_append.mpr ⟨hempty lines, ?_⟩
    intro line hline
    exact hempty _ line (List.mem_reverse.mp hline)
  · intro hhead
    refine hfirst lines ?_
    rw [hrest, hsplit, List.head?_append, hhead]
    rfl
  · rw [trimLines, List.getLast?_reverse]
    exact hfirst _

/-! ### Reduced lines -/

/-- What is left of a line without its margin and the white space at its end. -/
def reduced (line : List Char) : List Char :=
  trimEnd (withoutMargin line)

theorem trims_reduced (line : List Char) : Trims (withoutMargin line) (reduced line) :=
  trims_trimEnd _

theorem reduced_subset (line : List Char) : reduced line ⊆ line := by
  obtain ⟨space, hsplit, _⟩ := (trims_reduced line).rest
  have hbare : withoutMargin line ⊆ line := by
    rcases unmargins_withoutMargin line with hmargin | ⟨hsame, _⟩
    · generalize withoutMargin line = text at hmargin
      intro c hc
      cases hmargin with
      | blank => simp [hc]
      | lineEnd => cases hc
    · rw [hsame]
      exact List.Subset.refl _
  intro c hc
  refine hbare ?_
  rw [hsplit]
  exact List.mem_append_left _ hc

/-- `text` is what cleaning leaves of a line where lines share an indentation
    of `n` blanks. -/
def Reduces (n : Nat) (line text : List Char) : Prop :=
  ∃ bare trimmed, Unmargins line bare ∧ Trims bare trimmed ∧ Dedents n trimmed text

theorem reduces_of_reduced_eq_nil {line : List Char} (h : reduced line = []) (n : Nat) :
    Reduces n line [] := by
  have htrims := trims_reduced line
  rw [h] at htrims
  exact ⟨_, _, unmargins_withoutMargin line, htrims, .empty⟩

theorem reduces_drop_commonIndent {line : List Char} (h : reduced line ∈ lines) :
    Reduces (commonIndent lines) line ((reduced line).drop (commonIndent lines)) :=
  ⟨_, _, unmargins_withoutMargin line, trims_reduced line,
    dedents_drop (trims_reduced line).last (commonIndent_le h)⟩

/-- A line after another, `text` is what is left of a body. Nothing is left of
    the lines of the body before these lines and behind them. -/
def Follows (body text : List Char) : Prop :=
  ∃ before kept after n, sourceLines body = before ++ (kept ++ after) ∧
    (∀ line ∈ before ++ after, Reduces n line []) ∧
    List.Forall₂ (Reduces n) kept (sourceLines text)

/-! ### Lines without their common indentation -/

theorem inline_dedent (hinline : ∀ line ∈ lines, ∀ c ∈ line, isLineEnd c = false) :
    ∀ line ∈ dedent lines, ∀ c ∈ line, isLineEnd c = false := by
  refine List.forall_mem_map.mpr ?_
  intro line hline c hc
  exact hinline line hline c (List.mem_of_mem_drop hc)

theorem dedent_ne_nil (hne : lines ≠ []) : dedent lines ≠ [] := by
  rwa [dedent, Ne, List.map_eq_nil_iff]

variable (htrimmed : ∀ line ∈ lines, line.getLast?.any isSpace = false)

include htrimmed

theorem drop_commonIndent_ne_nil {line : List Char} (hmem : line ∈ lines) (hne : line ≠ []) :
    line.drop (commonIndent lines) ≠ [] := by
  have hlt := indentOf_lt hne (htrimmed line hmem)
  have hle := commonIndent_le hmem hne
  rw [Ne, List.drop_eq_nil_iff]
  omega

/-- Lines that are not empty stay so. -/
theorem map_drop_ne_some_nil {line? : Option (List Char)} (hmem : ∀ line ∈ line?, line ∈ lines)
    (hne : line? ≠ some []) : line?.map (List.drop (commonIndent lines)) ≠ some [] := by
  intro hempty
  obtain ⟨line, rfl, hdrop⟩ := Option.map_eq_some_iff.mp hempty
  refine drop_commonIndent_ne_nil htrimmed (hmem line rfl) ?_ hdrop
  rintro rfl
  exact hne rfl

/-- Joined without their indentation, lines are a tidy text. -/
theorem isTidy_joinLines_dedent (hne : lines ≠ [])
    (hinline : ∀ line ∈ lines, ∀ c ∈ line, isLineEnd c = false) (hfirst : lines.head? ≠ some [])
    (hlast : lines.getLast? ≠ some []) : IsTidy (joinLines (dedent lines)) := by
  refine .joinLines (dedent_ne_nil hne) (inline_dedent hinline) ?_ ?_ ?_
  · rw [dedent, List.head?_map]
    exact map_drop_ne_some_nil htrimmed (fun _ h => List.mem_of_mem_head? h) hfirst
  · rw [dedent, List.getLast?_map]
    exact map_drop_ne_some_nil htrimmed (fun _ h => List.mem_of_mem_getLast? h) hlast
  · refine List.forall_mem_map.mpr ?_
    intro line hline
    rw [List.getLast?_drop]
    split
    · rfl
    · exact htrimmed line hline

/-- One of them begins without a blank. -/
theorem exists_flush_dedent (hne : lines ≠ []) (hfirst : lines.head? ≠ some []) :
    ∃ line ∈ dedent lines, line.head?.any (fun c => !isIndent c) = true := by
  have hsome : ∃ line ∈ lines, line ≠ [] := by
    cases lines with
    | nil => exact absurd rfl hne
    | cons line rest =>
      refine ⟨line, List.mem_cons_self, ?_⟩
      rintro rfl
      exact hfirst rfl
  obtain ⟨line, hmem, hline, hindent⟩ := exists_commonIndent_eq hsome
  refine ⟨line.drop (commonIndent lines), List.mem_map_of_mem hmem, ?_⟩
  rw [← hindent]
  exact head?_drop_indentOf (indentOf_lt hline (htrimmed line hmem))

end Common

/-! ### Cleaned lines -/

/-- A text has a line that begins with a character other than a blank. -/
def IsFlush (text : List Char) : Prop :=
  ∃ line ∈ sourceLines text, line.head?.any (fun c => !isIndent c) = true

/-- The lines of a body of which something is left, up to empty lines between
    them, stand together. -/
theorem exists_kept (body : List Char) :
    ∃ before kept after, sourceLines body = before ++ (kept ++ after) ∧
      (∀ line ∈ before ++ after, reduced line = []) ∧ (kept.map reduced).head? ≠ some [] ∧
      (kept.map reduced).getLast? ≠ some [] ∧ cleanLines body = dedent (kept.map reduced) := by
  obtain ⟨outer, rest, hsplit, hempty, hfirst, hlast⟩ :=
    exists_trimLines_append ((sourceLines body).map reduced)
  obtain ⟨before, inner, hlines, rfl, hinner⟩ := List.map_eq_append_iff.mp hsplit
  obtain ⟨kept, after, rfl, hkept, rfl⟩ := List.map_eq_append_iff.mp hinner
  have hclean : cleanLines body = dedent (kept.map reduced) := by
    rw [hkept]
    rfl
  rw [← hkept] at hfirst hlast
  rw [← List.map_append] at hempty
  exact ⟨before, kept, after, hlines, List.forall_mem_map.mp hempty, hfirst, hlast, hclean⟩

section Lines

variable {body : List Char} {kept : List (List Char)}

theorem trimmed_of_kept : ∀ line ∈ kept.map reduced, line.getLast?.any isSpace = false :=
  List.forall_mem_map.mpr fun line _ => (trims_reduced line).last

theorem inline_of_kept (hkept : kept ⊆ sourceLines body) :
    ∀ line ∈ kept.map reduced, ∀ c ∈ line, isLineEnd c = false := by
  refine List.forall_mem_map.mpr ?_
  intro line hline c hc
  exact isLineEnd_eq_false_of_mem_sourceLines (hkept hline) c (reduced_subset line hc)

end Lines

/-- The cleaned lines are a tidy text that is not indented as a whole, unless
    there are none; and line after line, this text is what is left of the body. -/
theorem tidy_follows_cleanLines (body : List Char) :
    (joinLines (cleanLines body) = [] ∨
      IsTidy (joinLines (cleanLines body)) ∧ IsFlush (joinLines (cleanLines body))) ∧
    Follows body (joinLines (cleanLines body)) := by
  obtain ⟨before, kept, after, hlines, hempty, hfirst, hlast, hclean⟩ := exists_kept body
  rw [hclean]
  have hkept : kept ⊆ sourceLines body := by
    intro line hline
    rw [hlines]
    simp [hline]
  by_cases hne : kept = []
  · -- Nothing is left, so the first line of the body stands for the empty text.
    subst hne
    refine ⟨.inl rfl, ?_⟩
    rw [List.nil_append] at hlines
    rw [← hlines] at hempty
    obtain ⟨line, lines, hsource⟩ := List.exists_cons_of_ne_nil (sourceLines_ne_nil body)
    rw [hsource] at hempty
    obtain ⟨hline, hrest⟩ := List.forall_mem_cons.mp hempty
    exact ⟨[], [line], lines, 0, hsource,
      fun line hline => reduces_of_reduced_eq_nil (hrest line hline) 0,
      .cons (reduces_of_reduced_eq_nil hline 0) .nil⟩
  · have hreduced : kept.map reduced ≠ [] := by rwa [Ne, List.map_eq_nil_iff]
    have hinline := inline_of_kept hkept
    have hdedent :
        sourceLines (joinLines (dedent (kept.map reduced))) = dedent (kept.map reduced) :=
      sourceLines_joinLines (dedent_ne_nil hreduced) (inline_dedent hinline)
    refine ⟨.inr ⟨isTidy_joinLines_dedent trimmed_of_kept hreduced hinline hfirst hlast, ?_⟩, ?_⟩
    · rw [IsFlush, hdedent]
      exact exists_flush_dedent trimmed_of_kept hreduced hfirst
    · refine ⟨before, kept, after, commonIndent (kept.map reduced), hlines,
        fun line hline => reduces_of_reduced_eq_nil (hempty line hline) _, ?_⟩
      rw [hdedent, dedent, List.map_map, List.forall₂_map_right_iff, List.forall₂_same]
      intro line hline
      exact reduces_drop_commonIndent (List.mem_map_of_mem hline)

end PascalOutline.Comment
