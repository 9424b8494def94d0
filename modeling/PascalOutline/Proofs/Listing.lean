import Mathlib.Data.List.Basic
import PascalOutline.Proofs.CleanDocumentation
import PascalOutline.Proofs.Outline.Walk
import PascalOutline.Proofs.Recognizer.Unbroken
import PascalOutline.Proofs.Wording
import PascalOutline.Render.Listing

/-! # Listings line by line

  The listing of a report is made of lines: one for each entry, one for each
  line of its documentation below it, and one for each diagnostic at the end.
  For a scan these are all the lines of the text, since nothing that is shown
  has a line end in it: names and specifiers are read off tokens, and
  documentation is cleaned. Only the file name, after which a source without a
  module header is called, may have line ends.

  A line shows by its first character after the blanks what it is about, so
  listings can be read back (`listed_scan`).
-/

namespace PascalOutline

/-! ### The lines of a listing -/

namespace Entry

/-- The line of an entry at a depth. -/
def line (e : Entry) (depth : Nat) : String :=
  indentation depth ++ e.headline

/-- The lines below it: its documentation, indented further. -/
def linesBelow (e : Entry) (depth : Nat) : List String :=
  e.docLines.map (indentation (depth + 1) ++ ·)

/-- All lines for an entry at a depth. -/
def lines (e : Entry) (depth : Nat) : List String :=
  e.line depth :: e.linesBelow depth

end Entry

/-- The line of a listing for a diagnostic. -/
def Diagnostic.listed (d : Diagnostic) : String :=
  "! " ++ d.describe

/-- The lines for entries at their depths, and for diagnostics. -/
def linesOf (visits : List (Nat × Entry)) (diagnostics : List Diagnostic) : List String :=
  (visits.flatMap fun (depth, e) => e.lines depth) ++ diagnostics.map Diagnostic.listed

/-- The lines of a report. -/
def Report.lines (r : Report) : List String :=
  linesOf r.outline.walk r.diagnostics

theorem toList_join_map {α : Type} (f : α → String) (l : List α) :
    (String.join (l.map f)).toList = l.flatMap fun x => (f x).toList := by
  rw [String.toList_join, List.flatMap_map]

/-- Lines with their line ends. -/
def ended (lines : List String) : List Char :=
  lines.flatMap fun line => line.toList ++ ['\n']

theorem toList_textLine (before after : String) :
    (textLine [before, after]).toList = (before ++ after).toList ++ ['\n'] := by
  simp [textLine]

theorem Entry.toList_listing (e : Entry) (depth : Nat) :
    (e.listing depth).toList = ended (e.lines depth) := by
  simp [listing, lines, linesBelow, line, ended, toList_textLine, List.flatMap_map]

theorem Report.toList_listing (r : Report) : r.listing.toList = ended r.lines := by
  simp only [listing, lines, linesOf, ended, String.toList_append, toList_join_map,
    List.flatMap_append, List.flatMap_assoc, List.flatMap_map, Entry.toList_listing,
    toList_textLine, Diagnostic.listed]

/-- Lines without line feeds are found again. -/
theorem splitOn_ended {lines : List String} (h : ∀ line ∈ lines, '\n' ∉ line.toList) :
    (ended lines).splitOn '\n' = lines.map String.toList ++ [[]] := by
  induction lines with
  | nil => rfl
  | cons line lines ih =>
    obtain ⟨hline, hlines⟩ := List.forall_mem_cons.mp h
    have hcons : ended (line :: lines) = line.toList ++ '\n' :: ended lines := by simp [ended]
    rw [hcons, List.splitOn_append_cons_self, List.splitOn_eq_singleton hline, ih hlines]
    rfl

/-! ### No line end in a line -/

section Unbroken

variable {file : String}

theorem unbroken_toString (file : String) (n : Nat) : Unbroken file (toString n) := by
  refine .of_noLineEnd fun c hc => ?_
  rw [Nat.toString_eq_ofList_toDigits, String.toList_ofList] at hc
  have hdigit := Nat.isDigit_of_mem_toDigits (by decide) (by decide) hc
  refine Bool.eq_false_iff.mpr fun hend => ?_
  rcases Lexer.isLineEnd_iff.mp hend with rfl | rfl <;> cases hdigit

theorem unbroken_indentation (file : String) (depth : Nat) :
    Unbroken file (indentation depth) := by
  refine .of_noLineEnd fun c hc => ?_
  rw [indentation, String.toList_ofList] at hc
  rw [List.eq_of_mem_replicate hc]
  decide

theorem EntryKind.unbroken_word (file : String) (kind : EntryKind) : Unbroken file kind.word := by
  refine .of_all ?_
  cases kind <;> decide

theorem Visibility.unbroken_words (file : String) (visibility : Visibility) :
    Unbroken file visibility.words := by
  refine .of_all ?_
  cases visibility <;> decide

namespace Entry

variable {e : Entry}

theorem OnOneLine.fullName (h : e.OnOneLine file) : Unbroken file e.fullName := by
  unfold Entry.fullName
  split
  next qualifier hq =>
    exact ((h.qualifier qualifier hq).append (.of_all (by decide))).append h.name
  next => exact h.name

theorem OnOneLine.flags (h : e.OnOneLine file) : ∀ text ∈ e.flags, Unbroken file text := by
  intro text htext
  unfold Entry.flags at htext
  rcases List.mem_append.mp htext with htext | htext
  · rcases List.mem_append.mp htext with htext | htext
    · obtain ⟨visibility, _, rfl⟩ := Option.map_eq_some_iff.mp (Option.mem_toList.mp htext)
      exact visibility.unbroken_words file
    · split at htext
      · rw [List.mem_singleton.mp htext]
        exact .of_all (by decide)
      · cases htext
  · exact h.specifiers text htext

theorem OnOneLine.headline (h : e.OnOneLine file) : Unbroken file e.headline := by
  have hname : Unbroken file (if e.fullName = "" then "" else " " ++ e.fullName) := by
    split
    · exact unbroken_empty file
    · exact .append (.of_all (by decide)) h.fullName
  have hflags : Unbroken file
      (if e.flags = [] then "" else " [" ++ ", ".intercalate e.flags ++ "]") := by
    split
    · exact unbroken_empty file
    · have hcomma : Unbroken file ", " := .of_all (by decide)
      have hopening : Unbroken file " [" := .of_all (by decide)
      have hclosing : Unbroken file "]" := .of_all (by decide)
      exact (hopening.append (.intercalate h.flags hcomma)).append hclosing
  have hopening : Unbroken file " (" := .of_all (by decide)
  have hcolon : Unbroken file ":" := .of_all (by decide)
  have hclosing : Unbroken file ")" := .of_all (by decide)
  have hline := unbroken_toString file e.start.line
  have hcolumn := unbroken_toString file e.start.column
  have htitle := ((e.kind.unbroken_word file).append hname).append hflags
  exact ((((htitle.append hopening).append hline).append hcolon).append hcolumn).append hclosing

end Entry

theorem mem_of_mem_consLine {c d : Char} {line : List Char} {lines : List (List Char)}
    (h : line ∈ consLine d lines) (hc : c ∈ line) : c = d ∨ ∃ old ∈ lines, c ∈ old := by
  cases lines with
  | nil =>
    rw [List.mem_singleton.mp h] at hc
    exact .inl (List.mem_singleton.mp hc)
  | cons first lines =>
    rcases List.mem_cons.mp h with rfl | h
    · exact (List.mem_cons.mp hc).imp_right fun hc => ⟨first, List.mem_cons_self, hc⟩
    · exact .inr ⟨line, List.mem_cons_of_mem _ h, hc⟩

/-- What is in a shown line is in the text, and no line feed. -/
theorem mem_of_mem_shownLines {cs line : List Char} {c : Char} (h : line ∈ shownLines cs)
    (hc : c ∈ line) : c ∈ cs ∧ c ≠ '\n' := by
  fun_induction shownLines cs generalizing line with
  | case1 => cases h
  | case2 cs ih =>
    rcases List.mem_cons.mp h with rfl | h
    · cases hc
    · exact (ih h hc).imp_left fun hmem => List.mem_cons_of_mem _ (List.mem_cons_of_mem _ hmem)
  | case3 cs _ ih =>
    rcases List.mem_cons.mp h with rfl | h
    · cases hc
    · exact (ih h hc).imp_left (List.mem_cons_of_mem _)
  | case4 d cs _ hd ih =>
    rcases mem_of_mem_consLine h hc with rfl | ⟨old, hold, hc⟩
    · exact ⟨List.mem_cons_self, hd⟩
    · exact (ih hold hc).imp_left (List.mem_cons_of_mem _)

theorem IsClean.noReturn {text : String} (h : IsClean text) : '\r' ∉ text.toList := by
  rcases h with rfl | htidy
  · exact List.not_mem_nil
  · exact htidy.noReturn

/-- Clean documentation is shown in lines without line ends. -/
theorem IsClean.unbroken_docLines {e : Entry} (h : IsClean e.doc) (file : String) :
    ∀ line ∈ e.docLines, Unbroken file line := by
  intro line hline
  obtain ⟨shown, hshown, rfl⟩ := List.mem_map.mp hline
  have hinline : Unbroken file (String.ofList shown) := by
    refine .of_noLineEnd fun c hc => ?_
    rw [String.toList_ofList] at hc
    obtain ⟨hmem, hfeed⟩ := mem_of_mem_shownLines hshown hc
    refine Bool.eq_false_iff.mpr fun hend => ?_
    rcases Lexer.isLineEnd_iff.mp hend with rfl | rfl
    · exact hfeed rfl
    · exact h.noReturn hmem
  have hmark : Unbroken file "/// " := .of_all (by decide)
  split
  · exact .of_all (by decide)
  · exact hmark.append hinline

theorem Problem.unbroken_backquoted (file : String) (cs : List Char)
    (h : (cs.all fun c => !Lexer.isLineEnd c) = true) : Unbroken file (backquoted cs) := by
  have hmark : Unbroken file "`" := .of_all (by decide)
  have htext : Unbroken file (String.ofList cs) := .of_all (by rwa [String.toList_ofList])
  exact (hmark.append htext).append hmark

theorem Problem.unbroken_message (file : String) (p : Problem) : Unbroken file p.message := by
  cases p with
  | strayCloser style =>
    refine .of_all ?_
    cases style <;> decide +kernel
  | wrongCloser style openedOn =>
    have hopener := unbroken_backquoted file style.opener (by cases style <;> decide)
    have hcloser := unbroken_backquoted file style.closer (by cases style <;> decide)
    have hother := unbroken_backquoted file style.other.closer (by cases style <;> decide)
    have hopened : Unbroken file "comment opened with " := .of_all (by decide)
    have hat : Unbroken file " at line " := .of_all (by decide)
    have hclosed : Unbroken file " is closed with " := .of_all (by decide)
    have hinstead : Unbroken file " instead of " := .of_all (by decide)
    rw [message_wrongCloser]
    have hfirst := ((hopened.append hopener).append hat).append (unbroken_toString file openedOn)
    exact (((hfirst.append hclosed).append hother).append hinstead).append hcloser
  | missingName kind =>
    exact (kind.unbroken_word file).append (.of_all (by decide))

theorem Diagnostic.unbroken_listed (file : String) (d : Diagnostic) : Unbroken file d.listed := by
  have hmark : Unbroken file "! " := .of_all (by decide)
  have hcolon : Unbroken file ":" := .of_all (by decide)
  have hgap : Unbroken file ": " := .of_all (by decide)
  have hplace := ((unbroken_toString file d.line).append hcolon).append
    (unbroken_toString file d.column)
  exact hmark.append ((hplace.append hgap).append (d.problem.unbroken_message file))

end Unbroken

/-! ### Reading a listing -/

/-- The number of blanks before a line. -/
def blanksBefore (line : String) : Nat :=
  (line.toList.takeWhile (· = ' ')).length

/-- A line without the blanks before it. -/
def unindented (line : String) : List Char :=
  line.toList.dropWhile (· = ' ')

/-- Whether a line of a listing shows documentation. -/
def isDocLine (line : String) : Bool :=
  (unindented line).head? = some '/'

theorem blanksBefore_indentation (depth : Nat) {text : String} (h : text.toList.head? ≠ some ' ') :
    blanksBefore (indentation depth ++ text) = 2 * depth := by
  have htext : text.toList.takeWhile (· = ' ') = [] := by
    cases hcs : text.toList with
    | nil => rfl
    | cons c cs => exact List.takeWhile_cons_of_neg (by simpa [hcs] using h)
  rw [blanksBefore, String.toList_append, indentation, String.toList_ofList,
    List.takeWhile_append_of_pos fun c hc => by simp [List.eq_of_mem_replicate hc], htext,
    List.append_nil, List.length_replicate]

theorem unindented_indentation (depth : Nat) {text : String} (h : text.toList.head? ≠ some ' ') :
    unindented (indentation depth ++ text) = text.toList := by
  have htext : text.toList.dropWhile (· = ' ') = text.toList := by
    cases hcs : text.toList with
    | nil => rfl
    | cons c cs => exact List.dropWhile_cons_of_neg (by simpa [hcs] using h)
  rw [unindented, String.toList_append, indentation, String.toList_ofList,
    List.dropWhile_append_of_pos fun c hc => by simp [List.eq_of_mem_replicate hc], htext]

/-- A word for a kind begins with a letter and has no blanks. -/
theorem EntryKind.head?_word (kind : EntryKind) :
    kind.word.toList.head?.any Char.isAlpha = true ∧
      kind.word.toList.all (· ≠ ' ') = true := by
  cases kind <;> decide

namespace Entry

/-- A headline begins with the kind, and a blank follows. -/
theorem exists_headline (e : Entry) :
    ∃ rest, e.headline.toList = e.kind.word.toList ++ ' ' :: rest := by
  unfold headline
  -- Whatever comes next, a name, flags or the place, brings the blank.
  split <;> split <;> simp only [String.toList_append, List.append_assoc] <;> exact ⟨_, rfl⟩

theorem any_head?_headline (e : Entry) : e.headline.toList.head?.any Char.isAlpha = true := by
  obtain ⟨rest, hrest⟩ := e.exists_headline
  have hword := e.kind.head?_word.1
  rw [hrest]
  cases hcs : e.kind.word.toList with
  | nil => simp [hcs] at hword
  | cons c cs => simpa [hcs] using hword

theorem head?_headline_ne (e : Entry) {c : Char} (hc : c.isAlpha = false) :
    e.headline.toList.head? ≠ some c := by
  intro hhead
  have hletter := e.any_head?_headline
  rw [hhead, Option.any_some, hc] at hletter
  cases hletter

theorem blanksBefore_line (e : Entry) (depth : Nat) : blanksBefore (e.line depth) = 2 * depth :=
  blanksBefore_indentation depth (e.head?_headline_ne (by decide))

theorem unindented_line (e : Entry) (depth : Nat) :
    unindented (e.line depth) = e.headline.toList :=
  unindented_indentation depth (e.head?_headline_ne (by decide))

theorem takeWhile_headline (e : Entry) :
    e.headline.toList.takeWhile (· ≠ ' ') = e.kind.word.toList := by
  obtain ⟨rest, hrest⟩ := e.exists_headline
  have hword := List.all_eq_true.mp e.kind.head?_word.2
  rw [hrest, List.takeWhile_append_of_pos hword, List.takeWhile_cons_of_neg (by decide),
    List.append_nil]

/-- The line of an entry tells its depth and its kind. -/
theorem line_inj {e e' : Entry} {depth depth' : Nat} (h : e.line depth = e'.line depth') :
    depth = depth' ∧ e.kind = e'.kind := by
  have hblanks := congrArg blanksBefore h
  have htext := congrArg unindented h
  rw [blanksBefore_line, blanksBefore_line] at hblanks
  rw [unindented_line, unindented_line] at htext
  have hwords := congrArg (List.takeWhile (· ≠ ' ')) htext
  rw [takeWhile_headline, takeWhile_headline] at hwords
  exact ⟨by omega, EntryKind.word_injective (String.toList_inj.mp hwords)⟩

theorem isDocLine_line (e : Entry) (depth : Nat) : isDocLine (e.line depth) = false := by
  rw [isDocLine, unindented_line]
  exact decide_eq_false (e.head?_headline_ne (by decide))

/-! #### Documentation -/

/-- A line of documentation, behind its mark. -/
theorem exists_docLine {e : Entry} {line : String} (h : line ∈ e.docLines) :
    ∃ rest, line.toList = '/' :: rest := by
  obtain ⟨shown, _, rfl⟩ := List.mem_map.mp h
  split
  · exact ⟨_, rfl⟩
  · rw [String.toList_append]
    exact ⟨_, rfl⟩

theorem isDocLine_of_mem_linesBelow {e : Entry} {depth : Nat} {line : String}
    (h : line ∈ e.linesBelow depth) : isDocLine line = true := by
  obtain ⟨docLine, hdocLine, rfl⟩ := List.mem_map.mp h
  obtain ⟨rest, hrest⟩ := exists_docLine hdocLine
  have hhead : docLine.toList.head? = some '/' := by rw [hrest, List.head?_cons]
  rw [isDocLine, unindented_indentation _ (by rw [hhead]; decide), hhead]
  rfl

/-- The lines below an entry tell its documentation. -/
theorem shownLines_eq_of_linesBelow {e e' : Entry} {depth : Nat}
    (h : e.linesBelow depth = e'.linesBelow depth) :
    shownLines e.doc.toList = shownLines e'.doc.toList := by
  have hindented : Function.Injective (indentation (depth + 1) ++ ·) := fun _ _ heq =>
    (String.append_right_inj _).mp heq
  have hne (line : List Char) : "/// " ++ String.ofList line ≠ "///" := by
    intro heq
    have hlength := congrArg (fun text => text.toList.length) heq
    simp at hlength
  have hmarked : Function.Injective fun line : List Char =>
      if line = [] then "///" else "/// " ++ String.ofList line := by
    intro line line' heq
    dsimp only at heq
    split at heq <;> split at heq
    · rename_i hempty hempty'
      rw [hempty, hempty']
    · exact absurd heq.symm (hne _)
    · exact absurd heq (hne _)
    · exact String.ofList_injective ((String.append_right_inj _).mp heq)
  exact hmarked.list_map (hindented.list_map h)

end Entry

theorem Diagnostic.head?_listed (d : Diagnostic) : (unindented d.listed).head? = some '!' := by
  rw [unindented, listed, String.toList_append]
  rfl

theorem Diagnostic.listed_ne_line (d : Diagnostic) (e : Entry) (depth : Nat) :
    d.listed ≠ e.line depth := by
  intro h
  have hhead := d.head?_listed
  rw [h, Entry.unindented_line] at hhead
  exact e.head?_headline_ne (by decide) hhead

/-- What is shown of an entry and cannot be mistaken: its depth, its kind and
    the lines of its documentation. -/
def shapeOf (visits : List (Nat × Entry)) : List (Nat × EntryKind × List (List Char)) :=
  visits.map fun (depth, e) => (depth, e.kind, shownLines e.doc.toList)

/-- What the listing of a report tells of each entry. -/
def Report.shape (r : Report) : List (Nat × EntryKind × List (List Char)) :=
  shapeOf r.outline.walk

/-- Documentation stands below an entry. -/
theorem takeWhile_linesOf (visits : List (Nat × Entry)) (diagnostics : List Diagnostic) :
    (linesOf visits diagnostics).takeWhile isDocLine = [] := by
  cases visits with
  | nil =>
    cases diagnostics with
    | nil => rfl
    | cons d ds =>
      refine List.takeWhile_cons_of_neg ?_
      rw [isDocLine, d.head?_listed]
      decide
  | cons visit visits =>
    refine List.takeWhile_cons_of_neg ?_
    rw [Entry.isDocLine_line]
    decide

theorem linesOf_cons (depth : Nat) (e : Entry) (visits : List (Nat × Entry))
    (diagnostics : List Diagnostic) :
    linesOf ((depth, e) :: visits) diagnostics
      = e.line depth :: (e.linesBelow depth ++ linesOf visits diagnostics) := by
  simp [linesOf, Entry.lines]

/-- The documentation of an entry goes down to the next line of another kind. -/
theorem takeWhile_linesBelow (e : Entry) (depth : Nat) (visits : List (Nat × Entry))
    (diagnostics : List Diagnostic) :
    (e.linesBelow depth ++ linesOf visits diagnostics).takeWhile isDocLine
      = e.linesBelow depth := by
  rw [List.takeWhile_append_of_pos fun _ => Entry.isDocLine_of_mem_linesBelow, takeWhile_linesOf,
    List.append_nil]

/-- A diagnostic is no entry. -/
theorem linesOf_nil_ne_linesOf_cons (visit : Nat × Entry) (visits : List (Nat × Entry))
    (diagnostics diagnostics' : List Diagnostic) :
    linesOf [] diagnostics ≠ linesOf (visit :: visits) diagnostics' := by
  intro h
  rw [linesOf_cons] at h
  cases diagnostics with
  | nil => cases h
  | cons d ds => exact d.listed_ne_line _ _ (List.cons.inj h).1

/-- The lines are read back, entry by entry. -/
theorem shapeOf_eq_of_linesOf {visits visits' : List (Nat × Entry)}
    {diagnostics diagnostics' : List Diagnostic}
    (h : linesOf visits diagnostics = linesOf visits' diagnostics') :
    shapeOf visits = shapeOf visits' := by
  induction visits generalizing visits' with
  | nil =>
    cases visits' with
    | nil => rfl
    | cons => exact absurd h (linesOf_nil_ne_linesOf_cons _ _ _ _)
  | cons visit visits ih =>
    cases visits' with
    | nil => exact absurd h.symm (linesOf_nil_ne_linesOf_cons _ _ _ _)
    | cons visit' visits' =>
      obtain ⟨depth, e⟩ := visit
      obtain ⟨depth', e'⟩ := visit'
      rw [linesOf_cons, linesOf_cons] at h
      obtain ⟨hline, hrest⟩ := List.cons.inj h
      obtain ⟨rfl, hkind⟩ := Entry.line_inj hline
      -- Both documentations go down to the first line of another kind.
      have hbelow := congrArg (List.takeWhile isDocLine) hrest
      rw [takeWhile_linesBelow, takeWhile_linesBelow] at hbelow
      -- What is left are the lines for the other entries.
      rw [hbelow] at hrest
      have hothers := ih (List.append_cancel_left hrest)
      have hdocs := Entry.shownLines_eq_of_linesBelow hbelow
      show (depth, e.kind, shownLines e.doc.toList) :: shapeOf visits = _ :: shapeOf visits'
      rw [hkind, hdocs, hothers]

/-! ### Scans -/

/-- A report is listed line by line. -/
structure Report.Listed (file : String) (r : Report) : Prop where
  /-- The text consists of these lines, in order, and has no others. -/
  text : r.listing.toList.splitOn '\n' = r.lines.map String.toList ++ [[]]
  /-- No line is broken. -/
  unbroken : ∀ line ∈ r.lines, Unbroken file line
  /-- The entries are listed in the order of the array, each one at its
      depth. -/
  order : r.outline.WalksInOrder
  /-- The line of an entry is indented by two blanks for each level and begins
      with the kind. -/
  entry : ∀ depth e, (depth, e) ∈ r.outline.walk →
    ∃ rest, (e.line depth).toList
      = List.replicate (2 * depth) ' ' ++ (e.kind.word.toList ++ ' ' :: rest)
  /-- There is one line below it for each line of its documentation. -/
  below : ∀ depth e, (depth, e) ∈ r.outline.walk →
    (e.linesBelow depth).length = (shownLines e.doc.toList).length
  /-- No name, owner or specifier is broken. -/
  names : ∀ e ∈ r.outline.entries, e.OnOneLine file

theorem isClean_doc_scan (options : Options) (file source : String) :
    ∀ e ∈ (scan options file source).outline.entries, IsClean e.doc := by
  intro e he
  obtain ⟨ledger, hledger⟩ := Ledger.exists_explains options file source
  obtain ⟨id, hid⟩ := Array.mem_iff_getElem?.mp he
  rw [hledger.docs id e hid]
  exact isClean_delivered ledger.deliveries id

theorem Outline.WalksInOrder.mem_entries {o : Outline} (h : o.WalksInOrder) {depth : Nat}
    {e : Entry} (hmem : (depth, e) ∈ o.walk) : e ∈ o.entries := by
  have hvisited : e ∈ o.walk.map Prod.snd := List.mem_map_of_mem hmem
  rw [h.order] at hvisited
  exact Array.mem_toList_iff.mp hvisited

theorem Outline.WalksInOrder.length_walk {o : Outline} (h : o.WalksInOrder) :
    o.walk.length = o.size := by
  rw [← List.length_map (f := Prod.snd), h.order, Array.length_toList, Outline.size]

theorem unbroken_lines_scan (options : Options) (file source : String) :
    ∀ line ∈ (scan options file source).lines, Unbroken file line := by
  intro line hline
  rcases List.mem_append.mp hline with hentry | hdiagnostic
  · obtain ⟨⟨depth, e⟩, hvisit, hline⟩ := List.mem_flatMap.mp hentry
    have he := (walksInOrder_scan options file source).mem_entries hvisit
    rcases List.mem_cons.mp hline with rfl | hbelow
    · have hheadline := (onOneLine_scan options file source e he).headline
      exact (unbroken_indentation file depth).append hheadline
    · obtain ⟨docLine, hdocLine, rfl⟩ := List.mem_map.mp hbelow
      have hdoc := (isClean_doc_scan options file source e he).unbroken_docLines file
      exact (unbroken_indentation file (depth + 1)).append (hdoc docLine hdocLine)
  · obtain ⟨d, _, rfl⟩ := List.mem_map.mp hdiagnostic
    exact d.unbroken_listed file

theorem splitOn_listing_scan (options : Options) {file : String} (source : String)
    (hfile : '\n' ∉ file.toList) :
    (scan options file source).listing.toList.splitOn '\n'
      = (scan options file source).lines.map String.toList ++ [[]] := by
  rw [Report.toList_listing]
  -- A line feed in a line would be one of the file name.
  refine splitOn_ended fun line hline hfeed => hfile ?_
  exact unbroken_lines_scan options file source line hline '\n' hfeed (by decide)

/-- **The listing determines the outline.** Let no file name have a line feed.
    Then the text for a scan consists, in order, of a line for each entry, in
    the order of the array, indented by two blanks for each entry above it and
    beginning with its kind, each followed by one line for each line of its
    documentation, and of a line for each diagnostic, and has no other lines:
    the line ends in names, owners and specifiers, and in whole lines, are
    those of the file name, whatever the source.

    Two scans with equal texts have equally many entries, of the same depths
    and kinds, with the same lines of documentation. -/
theorem listed_scan (options options' : Options) (file file' source source' : String)
    (hfile : '\n' ∉ file.toList) (hfile' : '\n' ∉ file'.toList) :
    let report := scan options file source
    let report' := scan options' file' source'
    report.Listed file ∧
      (report.listing = report'.listing →
        report.outline.size = report'.outline.size ∧ report.shape = report'.shape) := by
  intro report report'
  have hwalk : report.outline.WalksInOrder := walksInOrder_scan options file source
  have hwalk' : report'.outline.WalksInOrder := walksInOrder_scan options' file' source'
  have htext := splitOn_listing_scan options source hfile
  have htext' := splitOn_listing_scan options' source' hfile'
  constructor
  · constructor
    case text => exact htext
    case unbroken => exact unbroken_lines_scan options file source
    case order => exact hwalk
    case entry =>
      intro depth e _
      obtain ⟨rest, hrest⟩ := e.exists_headline
      refine ⟨rest, ?_⟩
      rw [Entry.line, String.toList_append, hrest, indentation, String.toList_ofList]
    case below =>
      intro depth e _
      rw [Entry.linesBelow, Entry.docLines, List.length_map, List.length_map]
    case names => exact onOneLine_scan options file source
  · intro hlisting
    have hlines : report.lines = report'.lines := by
      have hinjective : Function.Injective String.toList := fun _ _ => String.toList_inj.mp
      rw [hlisting, htext'] at htext
      exact hinjective.list_map (List.append_cancel_right htext.symm)
    have hshape : report.shape = report'.shape := shapeOf_eq_of_linesOf hlines
    refine ⟨?_, hshape⟩
    have hlength := congrArg List.length hshape
    rw [Report.shape, Report.shape, shapeOf, shapeOf, List.length_map, List.length_map,
      hwalk.length_walk, hwalk'.length_walk] at hlength
    exact hlength

/-- Two units whose listings are equal, with documentation of two lines and a
    diagnostic; the values of their constants are not shown. -/
theorem listed_scan_of_hidden_values :
    let source := "unit U;\n\x7b a\n b \x7d\nconst X = 1; *)"
    let source' := "unit U;\n\x7b a\n b \x7d\nconst X = 2; *)"
    let report := scan {} "u" source
    let report' := scan {} "u" source'
    '\n' ∉ "u".toList ∧ report.listing = report'.listing ∧
      (report.outline.walk.flatMap fun (depth, e) => e.lines depth)
        = ["unit U (1:1)", "  const X (4:7)", "    /// a", "    /// b"] ∧
      report.Listed "u" ∧ report.outline.size = report'.outline.size ∧
      report.shape = report'.shape := by
  intro source source' report report'
  have hfile : '\n' ∉ "u".toList := by decide
  have hentries : (report.outline.walk.flatMap fun (depth, e) => e.lines depth)
      = ["unit U (1:1)", "  const X (4:7)", "    /// a", "    /// b"] := by decide +kernel
  have hentries' : (report.outline.walk.flatMap fun (depth, e) => e.lines depth)
      = report'.outline.walk.flatMap fun (depth, e) => e.lines depth := by decide +kernel
  -- The diagnostics are sorted; what is sorted is the same.
  have hdiagnostics : report.diagnostics = report'.diagnostics :=
    congrArg (List.mergeSort · Diagnostic.atOrBefore) (by decide +kernel)
  have hlines : report.lines = report'.lines :=
    congrArg₂ (· ++ ·) hentries' (congrArg (List.map Diagnostic.listed) hdiagnostics)
  have hlisting : report.listing = report'.listing := by
    rw [← String.toList_inj, Report.toList_listing, Report.toList_listing, hlines]
  obtain ⟨hlisted, hshape⟩ := listed_scan {} {} "u" "u" source source' hfile hfile
  exact ⟨hfile, hlisting, hentries, hlisted, hshape hlisting⟩

end PascalOutline
