import PascalOutline.ByteReader
import PascalOutline.Comment.Doc
import PascalOutline.Proofs.Lexeme.Tiling
import PascalOutline.Proofs.Text.Case

/-! # Partial operations on text

  Numbers of 32 bits have a largest one, unsigned differences may not be
  negative, and a slice of a text has to begin and end between characters.
  Functions that rely on such operations are restated here with the operations
  checked: the result is nothing as soon as one of them is used outside of its
  domain. On a source that is small enough each restatement gives what the
  function gives.
-/

namespace PascalOutline

open Lexeme (byteLength)

/-! ### Numbers -/

namespace Word32

/-- The largest number of 32 bits. -/
def max : Nat := UInt32.size - 1

/-- The sum of two numbers, unless it needs more than 32 bits. -/
def add? (a b : Nat) : Option Nat :=
  if a + b ≤ max then some (a + b) else none

/-- The difference of two numbers, unless it is negative. -/
def sub? (a b : Nat) : Option Nat :=
  if b ≤ a then some (a - b) else none

theorem add?_of_le {a b : Nat} (h : a + b ≤ max) : add? a b = some (a + b) :=
  if_pos h

theorem sub?_of_le {a b : Nat} (h : b ≤ a) : sub? a b = some (a - b) :=
  if_pos h

end Word32

/-! ### Locations -/

theorem length_le_byteLength (cs : List Char) : cs.length ≤ byteLength cs := by
  induction cs with
  | nil => exact Nat.le_refl 0
  | cons c cs ih =>
    have hc := c.utf8Size_pos
    rw [List.length_cons, byteLength_cons]
    omega

namespace Location

/-- The beginning of the next line, its number checked. -/
def checkedNextLine (at_ : Location) (bytes : Nat) : Option Location :=
  (Word32.add? at_.line 1).map fun line => ⟨line, 1, at_.offset + bytes⟩

/-- The place one character further on, its column checked. -/
def checkedNextColumn (at_ : Location) (c : Char) : Option Location :=
  (Word32.add? at_.column 1).map fun column => ⟨at_.line, column, at_.offset + c.utf8Size⟩

/-- The place reached by passing over a text, every line and column on the way
    checked. -/
def checkedAfter (at_ : Location) : List Char → Option Location
  | [] => some at_
  | '\r' :: '\n' :: cs => (at_.checkedNextLine 2).bind fun next => next.checkedAfter cs
  | c :: cs =>
    if c = '\n' ∨ c = '\r' then (at_.checkedNextLine 1).bind fun next => next.checkedAfter cs
    else (at_.checkedNextColumn c).bind fun next => next.checkedAfter cs

theorem checkedNextLine_eq {a : Location} (h : a.line + 1 ≤ Word32.max) (bytes : Nat) :
    a.checkedNextLine bytes = some (a.nextLine bytes) := by
  rw [checkedNextLine, Word32.add?_of_le h]
  rfl

theorem checkedNextColumn_eq {a : Location} (h : a.column + 1 ≤ Word32.max) (c : Char) :
    a.checkedNextColumn c = some (a.nextColumn c) := by
  rw [checkedNextColumn, Word32.add?_of_le h]
  rfl

/-- A text moves a location by at most one line or column for each character. -/
theorem checkedAfter_eq {a : Location} {cs : List Char} (hline : a.line + cs.length ≤ Word32.max)
    (hcolumn : a.column + cs.length ≤ Word32.max) : a.checkedAfter cs = some (a.after cs) := by
  fun_induction Location.after a cs with
  | case1 a => rfl
  | case2 a cs ih =>
    simp only [List.length_cons] at hline hcolumn
    rw [checkedAfter, checkedNextLine_eq (by omega)]
    exact ih (by simp only [nextLine]; omega) (by simp only [nextLine]; omega)
  | case3 a c cs hpair hend ih =>
    simp only [List.length_cons] at hline hcolumn
    rw [checkedAfter, if_pos hend, checkedNextLine_eq (by omega)]
    · exact ih (by simp only [nextLine]; omega) (by simp only [nextLine]; omega)
    · exact hpair
  | case4 a c cs hpair hend ih =>
    simp only [List.length_cons] at hline hcolumn
    rw [checkedAfter, if_neg hend, checkedNextColumn_eq (by omega)]
    · exact ih (by simp only [nextColumn]; omega) (by simp only [nextColumn]; omega)
    · exact hpair

theorem line_after_le (a : Location) (cs : List Char) : (a.after cs).line ≤ a.line + cs.length := by
  fun_induction Location.after a cs with
  | case1 a => exact Nat.le_refl _
  | case2 a cs ih =>
    simp only [List.length_cons, nextLine] at ih ⊢
    omega
  | case3 a c cs _ _ ih =>
    simp only [List.length_cons, nextLine] at ih ⊢
    omega
  | case4 a c cs _ _ ih =>
    simp only [List.length_cons, nextColumn] at ih ⊢
    omega

theorem column_after_le (a : Location) (cs : List Char) :
    (a.after cs).column ≤ a.column + cs.length := by
  fun_induction Location.after a cs with
  | case1 a => exact Nat.le_refl _
  | case2 a cs ih =>
    simp only [List.length_cons, nextLine] at ih ⊢
    omega
  | case3 a c cs _ _ ih =>
    simp only [List.length_cons, nextLine] at ih ⊢
    omega
  | case4 a c cs _ _ ih =>
    simp only [List.length_cons, nextColumn] at ih ⊢
    omega

end Location

/-! ### Block comments -/

namespace BlockStyle

/-- The search for the closer of a comment, with a checked count of the comments
    that are open, the outermost one included. -/
def checkedCloserFrom (style : BlockStyle) (nested : Bool) :
    (depth skip before : Nat) → List Char → Option (Option Nat)
  | _, _, _, [] => some none
  | depth, skip + 1, before, _ :: cs => checkedCloserFrom style nested depth skip (before + 1) cs
  | depth, 0, before, c :: cs =>
    if style.closer.isPrefixOf (c :: cs) then
      if depth = 0 then some (some before)
      else (Word32.sub? depth 1).bind fun outer =>
        checkedCloserFrom style nested outer (style.closer.length - 1) (before + 1) cs
    else if nested && style.opener.isPrefixOf (c :: cs) then
      (Word32.add? (depth + 1) 1).bind fun inner =>
        checkedCloserFrom style nested (inner - 1) (style.opener.length - 1) (before + 1) cs
    else checkedCloserFrom style nested depth 0 (before + 1) cs

theorem checkedCloserFrom_eq (style : BlockStyle) (nested : Bool) {depth : Nat} (skip before : Nat)
    {cs : List Char} (h : depth + cs.length < Word32.max) :
    style.checkedCloserFrom nested depth skip before cs
      = some (style.closerFrom nested depth skip before cs) := by
  fun_induction BlockStyle.closerFrom style nested depth skip before cs with
  | case1 => rfl
  | case2 before depth skip _ cs ih =>
    rw [List.length_cons] at h
    exact ih (by omega)
  | case3 before c cs hclose =>
    rw [checkedCloserFrom, if_pos hclose]
    rfl
  | case4 before c cs hclose depth ih =>
    rw [List.length_cons] at h
    rw [checkedCloserFrom, if_pos hclose, if_neg (Nat.succ_ne_zero depth),
      Word32.sub?_of_le (Nat.le_add_left 1 depth)]
    exact ih (by omega)
  | case5 before depth c cs hclose hopen ih =>
    rw [List.length_cons] at h
    rw [checkedCloserFrom, if_neg hclose, if_pos hopen, Word32.add?_of_le (by omega)]
    exact ih (by omega)
  | case6 before depth c cs hclose hopen ih =>
    rw [List.length_cons] at h
    rw [checkedCloserFrom, if_neg hclose, if_neg hopen]
    exact ih (by omega)

/-- The search for the first closer that nothing opened, with a checked count of
    the marks that are open. The count goes on after such a closer. -/
def checkedStrayFrom (style : BlockStyle) :
    (depth skip before : Nat) → (found : Option Nat) → List Char → Option (Option Nat)
  | _, _, _, found, [] => some found
  | depth, skip + 1, before, found, _ :: cs =>
    checkedStrayFrom style depth skip (before + 1) found cs
  | depth, 0, before, found, c :: cs =>
    if style.closer.isPrefixOf (c :: cs) then
      if 0 < depth then
        (Word32.sub? depth 1).bind fun outer =>
          checkedStrayFrom style outer (style.closer.length - 1) (before + 1) found cs
      else
        checkedStrayFrom style 0 (style.closer.length - 1) (before + 1) (found.or (some before)) cs
    else if style.opener.isPrefixOf (c :: cs) then
      (Word32.add? depth 1).bind fun inner =>
        checkedStrayFrom style inner (style.opener.length - 1) (before + 1) found cs
    else checkedStrayFrom style depth 0 (before + 1) found cs

/-- After a stray closer the search only counts. -/
theorem checkedStrayFrom_some (style : BlockStyle) {depth : Nat} (skip before first : Nat)
    {cs : List Char} (h : depth + cs.length ≤ Word32.max) :
    style.checkedStrayFrom depth skip before (some first) cs = some (some first) := by
  induction cs generalizing depth skip before with
  | nil => rfl
  | cons c cs ih =>
    rw [List.length_cons] at h
    cases skip with
    | succ skip => exact ih skip (before + 1) (by omega)
    | zero =>
      rw [checkedStrayFrom]
      split
      · split
        · rw [Word32.sub?_of_le (by omega)]
          exact ih _ _ (by omega)
        · exact ih _ _ (by omega)
      · split
        · rw [Word32.add?_of_le (by omega)]
          exact ih _ _ (by omega)
        · exact ih _ _ (by omega)

theorem checkedStrayFrom_eq (style : BlockStyle) {depth : Nat} (skip before : Nat)
    {cs : List Char} (h : depth + cs.length ≤ Word32.max) :
    style.checkedStrayFrom depth skip before none cs
      = some (style.closerFrom true depth skip before cs) := by
  fun_induction BlockStyle.closerFrom style true depth skip before cs with
  | case1 => rfl
  | case2 before depth skip _ cs ih =>
    rw [List.length_cons] at h
    exact ih (by omega)
  | case3 before c cs hclose =>
    rw [List.length_cons] at h
    rw [checkedStrayFrom, if_pos hclose]
    exact style.checkedStrayFrom_some _ _ before (by omega)
  | case4 before c cs hclose depth ih =>
    rw [List.length_cons] at h
    rw [checkedStrayFrom, if_pos hclose, if_pos (Nat.succ_pos depth),
      Word32.sub?_of_le (Nat.le_add_left 1 depth)]
    exact ih (by omega)
  | case5 before depth c cs hclose hopen ih =>
    rw [List.length_cons] at h
    rw [checkedStrayFrom, if_neg hclose, if_pos (by simpa using hopen),
      Word32.add?_of_le (by omega)]
    exact ih (by omega)
  | case6 before depth c cs hclose hopen ih =>
    rw [List.length_cons] at h
    rw [checkedStrayFrom, if_neg hclose, if_neg (by simpa using hopen)]
    exact ih (by omega)

end BlockStyle

/-! ### Slices -/

/-- The text of a span, unless it is reversed, reaches past the end, or does not
    begin and end between characters. -/
def Span.slice? (span : Span) (cs : List Char) : Option (List Char) :=
  if span.start ≤ span.stop then
    (ByteReader.dropBytes span.start cs).bind (ByteReader.takeBytes (span.stop - span.start))
  else none

theorem Span.slice?_append (before cs after : List Char) :
    Span.slice? ⟨byteLength before, byteLength before + byteLength cs⟩ (before ++ cs ++ after)
      = some cs := by
  rw [Span.slice?, if_pos (Nat.le_add_right _ _), Nat.add_sub_cancel_left, List.append_assoc,
    ByteReader.dropBytes_append]
  exact ByteReader.takeBytes_append cs after

/-- The bytes of marks are counted by their characters. -/
theorem byteLength_of_utf8Size_eq_one {cs : List Char} (h : ∀ c ∈ cs, c.utf8Size = 1) :
    byteLength cs = cs.length := by
  induction cs with
  | nil => rfl
  | cons c cs ih =>
    rw [byteLength_cons, List.length_cons, h c List.mem_cons_self,
      ih fun d hd => h d (List.mem_cons_of_mem c hd), Nat.add_comm]

/-- The text of a lexeme is the slice of the source between its ends. -/
theorem Lexeme.StandsAt.slice? {source : String} {l : Lexeme} {pre post : List Char}
    (h : l.StandsAt source pre post) :
    Span.slice? ⟨l.start.offset, l.stop.offset⟩ source.toList = some l.text.toList := by
  rw [h.offset_stop, h.start, byteLength_append, h.text]
  exact Span.slice?_append _ _ _

/-- The body of a comment is a slice of the source. -/
theorem Lexeme.StandsAt.slice?_body {source : String} {l : Lexeme} {pre post : List Char}
    (h : l.StandsAt source pre post) {k : Comment} (hk : l.comment? = some k) :
    (l.bodySpan k).slice? source.toList = some k.body := by
  obtain ⟨hchars, _⟩ := h.comment k hk
  have hsource : source.toList = (pre ++ k.style.opener) ++ k.body ++ (k.closing ++ post) := by
    rw [h.text, hchars, Comment.chars]
    simp only [List.append_assoc]
  have hstart : l.bodyStart k = byteLength (pre ++ k.style.opener) := by
    rw [Lexeme.bodyStart, h.start, byteLength_append]
  rw [Lexeme.bodySpan, hstart, hsource]
  exact Span.slice?_append _ _ _

/-! ### Indentation -/

namespace Comment

/-- The indentation of a line: the bytes that it loses without its blanks. -/
def checkedIndentOf (line : List Char) : Option Nat :=
  Word32.sub? (byteLength line) (byteLength (line.dropWhile isIndent))

/-- The indentation that all lines share, with checked differences. -/
def checkedCommonIndent (lines : List (List Char)) : Option Nat :=
  ((lines.filter fun line => !line.isEmpty).mapM checkedIndentOf).map fun indents =>
    indents.min?.getD 0

/-- The documentation in a comment body of a style, with checked differences. -/
def checkedClean (style : CommentStyle) (body : List Char) : Option (List Char) :=
  let text := match style with
    | .line => body
    | .block _ => undecorated body
  let lines := trimLines ((sourceLines text).map fun line => trimEnd (withoutMargin line))
  (checkedCommonIndent lines).map fun indent => joinLines (lines.map (List.drop indent))

theorem utf8Size_of_isIndent {c : Char} (h : isIndent c = true) : c.utf8Size = 1 := by
  simp only [isIndent, Bool.or_eq_true, beq_iff_eq] at h
  rcases h with rfl | rfl <;> rfl

/-- The bytes of a line are at least those without its indentation. -/
theorem checkedIndentOf_eq (line : List Char) : checkedIndentOf line = some (indentOf line) := by
  have hindent : byteLength (line.takeWhile isIndent) = indentOf line := by
    apply byteLength_of_utf8Size_eq_one
    intro c hc
    exact utf8Size_of_isIndent (List.all_eq_true.mp List.all_takeWhile c hc)
  have hbytes : byteLength line = indentOf line + byteLength (line.dropWhile isIndent) := by
    rw [← hindent, ← byteLength_append, List.takeWhile_append_dropWhile]
  rw [checkedIndentOf, Word32.sub?_of_le (by omega), hbytes, Nat.add_sub_cancel]

theorem checkedCommonIndent_eq (lines : List (List Char)) :
    checkedCommonIndent lines = some (commonIndent lines) := by
  have hindents (ls : List (List Char)) : ls.mapM checkedIndentOf = some (ls.map indentOf) := by
    rw [show checkedIndentOf = fun line => pure (indentOf line) from funext checkedIndentOf_eq]
    exact List.mapM_pure
  rw [checkedCommonIndent, hindents]
  rfl

theorem checkedClean_eq (style : CommentStyle) (body : List Char) :
    checkedClean style body = some (clean style body) := by
  cases style with
  | line =>
    simp only [checkedClean, checkedCommonIndent_eq]
    rfl
  | block _ =>
    simp only [checkedClean, checkedCommonIndent_eq]
    rfl

end Comment

/-! ### Documentation comments -/

namespace DocComment

/-- The length of the mark that makes a comment document. -/
def markLength? (options : Options) (k : Comment) : Option Nat :=
  match k.style with
  | .block .brace =>
    if k.body.head? = some '!' then some 1 else if options.braceDocs then some 0 else none
  | .block .parenStar =>
    if k.body.head? = some '*' ∨ k.body.head? = some '!' then some 1 else none
  | .line =>
    if k.body.head? = some '/' ∧ k.body[1]? ≠ some '/' ∨ k.body.head? = some '!' then some 1
    else none

/-- The documentation in a lexeme of a source, with its text cut out of the body
    and the body cut out of the source. -/
def checkedOfLexeme? (options : Options) (source : List Char) (l : Lexeme) :
    Option (Option DocComment) :=
  match l.kind with
  | .comment k =>
    match markLength? options k with
    | none => some none
    | some mark =>
      ((l.bodySpan k).slice? source).bind fun body =>
        let trailing := body[mark]? == some '<'
        let skip := mark + trailing.toNat
        (ByteReader.dropBytes skip body).bind fun raw =>
          (Comment.checkedClean k.style raw).map fun text =>
            some {
              text := String.ofList text
              trailing
              span := ⟨(l.bodySpan k).start + skip, (l.bodySpan k).stop⟩
              line := l.start.line
              lastLine := l.stop.line }
  | _ => some none

theorem head?_ne {cs : List Char} {c : Char} (h : ∀ rest, cs = c :: rest → False) :
    cs.head? ≠ some c := by
  intro hhead
  obtain ⟨rest, hrest⟩ := List.head?_eq_some_iff.mp hhead
  exact h rest hrest

/-- A documentation mark is at most one character of one byte. -/
theorem exists_mark (options : Options) (k : Comment) :
    markLength? options k = none ∧ marked? options k = none ∨
      ∃ mark rest, k.body = mark ++ rest ∧ byteLength mark = mark.length ∧
        markLength? options k = some mark.length ∧ marked? options k = some rest := by
  -- One function matches the body by patterns and the other looks at single
  -- characters of it, so the cases are those of the patterns.
  unfold marked?
  split
  · next rest hstyle hbody =>
    exact .inr ⟨['!'], rest, hbody, rfl, by simp [markLength?, hstyle, hbody], rfl⟩
  · next hstyle hbody =>
    have hlength : markLength? options k = if options.braceDocs then some 0 else none := by
      simp [markLength?, hstyle, head?_ne hbody]
    rw [hlength]
    split
    · exact .inr ⟨[], k.body, rfl, rfl, rfl, rfl⟩
    · exact .inl ⟨rfl, rfl⟩
  · next rest hstyle hbody =>
    exact .inr ⟨['*'], rest, hbody, rfl, by simp [markLength?, hstyle, hbody], rfl⟩
  · next rest hstyle hbody =>
    exact .inr ⟨['!'], rest, hbody, rfl, by simp [markLength?, hstyle, hbody], rfl⟩
  · next rest hstyle hbody => exact .inl ⟨by simp [markLength?, hstyle, hbody], rfl⟩
  · next rest hother hstyle hbody =>
    have hsecond : rest[0]? ≠ some '/' := by
      rw [← List.head?_eq_getElem?]
      exact head?_ne hother
    refine .inr ⟨['/'], rest, hbody, rfl, ?_, rfl⟩
    simp [markLength?, hstyle, hbody, hsecond]
  · next rest hstyle hbody =>
    exact .inr ⟨['!'], rest, hbody, rfl, by simp [markLength?, hstyle, hbody], rfl⟩
  · next hbrace _ hstar hbang _ hslash hmark =>
    refine .inl ⟨?_, rfl⟩
    unfold markLength?
    split
    · next hstyle => exact absurd hstyle hbrace
    · next hstyle =>
      have hfirst := head?_ne fun rest => hstar rest hstyle
      have hsecond := head?_ne fun rest => hbang rest hstyle
      exact if_neg (not_or.mpr ⟨hfirst, hsecond⟩)
    · next hstyle =>
      have hfirst := head?_ne fun rest => hslash rest hstyle
      have hsecond := head?_ne fun rest => hmark rest hstyle
      exact if_neg (not_or.mpr ⟨fun h => hfirst h.1, hsecond⟩)

/-- A text without the sign that it trails. -/
theorem exists_trail (rest : List Char) :
    ∃ trail, rest = trail ++ (untrailed rest).1 ∧ byteLength trail = (untrailed rest).2.toNat ∧
      (rest.head? == some '<') = (untrailed rest).2 := by
  unfold untrailed
  split
  · exact ⟨['<'], rfl, rfl, rfl⟩
  · next hrest =>
    refine ⟨[], rfl, rfl, ?_⟩
    cases rest with
    | nil => rfl
    | cons c cs =>
      refine beq_eq_false_iff_ne.mpr ?_
      intro hc
      exact hrest cs (by rw [Option.some.inj hc])

/-- The slices of a comment are in range and between characters. -/
theorem checkedOfLexeme?_eq (options : Options) {source : String} {l : Lexeme}
    {pre post : List Char} (hl : l.StandsAt source pre post) :
    checkedOfLexeme? options source.toList l = some (ofLexeme? options l) := by
  unfold checkedOfLexeme? ofLexeme?
  cases hkind : l.kind with
  | comment k =>
    dsimp only
    have hcomment : l.comment? = some k := by rw [Lexeme.comment?, hkind]
    rcases exists_mark options k with ⟨hnone, hnone'⟩ | ⟨mark, rest, hbody, hbytes, hlength, hrest⟩
    · rw [hnone, hnone']
      rfl
    · -- What stands before the text, the mark and a trailing sign, is cut off by
      -- its number of bytes, and the text is found from the end of the body.
      obtain ⟨trail, htrail, htrailBytes, htrailing⟩ := exists_trail rest
      have hsign : (k.body[mark.length]? == some '<') = (untrailed rest).2 := by
        rw [← htrailing, hbody, List.getElem?_append_right (Nat.le_refl _), Nat.sub_self,
          List.head?_eq_getElem?]
      have hskip : mark.length + (untrailed rest).2.toNat = byteLength (mark ++ trail) := by
        rw [byteLength_append, hbytes, htrailBytes]
      have hdrop : ByteReader.dropBytes (byteLength (mark ++ trail)) k.body
          = some (untrailed rest).1 := by
        have hsplit : k.body = (mark ++ trail) ++ (untrailed rest).1 := by
          rw [hbody, List.append_assoc, ← htrail]
        rw [hsplit]
        exact ByteReader.dropBytes_append _ _
      have hstart : (l.bodySpan k).start + byteLength (mark ++ trail)
          = (l.bodySpan k).stop - byteLength (untrailed rest).1 := by
        have hstop : byteLength k.body
            = byteLength (mark ++ trail) + byteLength (untrailed rest).1 := by
          rw [hbody, byteLength_append, byteLength_append, htrail, byteLength_append, ← htrail]
          omega
        show l.bodyStart k + _ = l.bodyStart k + byteLength k.body - _
        omega
      rw [hlength, hrest, hl.slice?_body hcomment]
      simp only [Option.bind_some, Option.map_some, hsign, hskip, hdrop, hstart,
        Comment.checkedClean_eq]
  | ident _ _ | number | str _ | charCode | symbol | directive _ | blank | newline => rfl

end DocComment

/-! ### Keywords -/

namespace Keyword

/-- The number of bytes of the longest keyword. -/
def bufferSize : Nat := 14

/-- Whether every character of a text has one byte. -/
def isAscii (cs : List Char) : Bool :=
  cs.all fun c => c.utf8Size == 1

/-- The keyword spelled like a word, looked up through a buffer of fixed size that
    holds the word in lower case. -/
def checkedOfWord? (word : String) : Option (Option Keyword) :=
  if bufferSize < word.utf8ByteSize || !isAscii word.toList then some none
  else
    let buffer := (word.toList.map Char.toLower ++ List.replicate bufferSize '\x00').take bufferSize
    if word.utf8ByteSize ≤ buffer.length then
      some (all.find? fun kw => kw.spelling.toList == buffer.take word.utf8ByteSize)
    else none

/-- Keywords are short and written in small letters of one byte. -/
theorem spelling_props (kw : Keyword) : kw.spelling.toList.length ≤ bufferSize ∧
    isAscii kw.spelling.toList = true ∧
    kw.spelling.toList.map Char.toLower = kw.spelling.toList := by
  cases kw <;> decide +kernel

theorem isAscii_map_toLower (cs : List Char) : isAscii (cs.map Char.toLower) = isAscii cs := by
  simp [isAscii, List.all_map, Function.comp_def, utf8Size_toLower]

theorem byteLength_of_isAscii {cs : List Char} (h : isAscii cs = true) :
    byteLength cs = cs.length := by
  apply byteLength_of_utf8Size_eq_one
  intro c hc
  exact beq_iff_eq.mp (List.all_eq_true.mp h c hc)

theorem sameWord_spelling (word : String) (kw : Keyword) :
    sameWord word kw.spelling = (kw.spelling.toList == word.toList.map Char.toLower) := by
  rw [sameWord, kw.spelling_props.2.2, Bool.beq_comm]

/-- A word that fits into no buffer is no keyword. -/
theorem ofWord?_eq_none {word : String}
    (h : (bufferSize < word.utf8ByteSize || !isAscii word.toList) = true) :
    ofWord? word = none := by
  rw [ofWord?, List.find?_eq_none]
  intro kw _ hsame
  obtain ⟨hlength, hascii, _⟩ := kw.spelling_props
  have hlower : kw.spelling.toList = word.toList.map Char.toLower := by
    rw [sameWord_spelling] at hsame
    exact beq_iff_eq.mp hsame
  have hword : isAscii word.toList = true := by rw [← isAscii_map_toLower, ← hlower, hascii]
  have hsize : word.utf8ByteSize ≤ bufferSize := by
    rw [utf8ByteSize_eq_byteLength, byteLength_of_isAscii hword]
    rwa [hlower, List.length_map] at hlength
  rw [hword, Bool.not_true, Bool.or_false, decide_eq_true_eq] at h
  omega

theorem checkedOfWord?_eq (word : String) : checkedOfWord? word = some (ofWord? word) := by
  unfold checkedOfWord?
  split
  · next h => rw [ofWord?_eq_none h]
  · next h =>
    rw [Bool.or_eq_true, not_or, Bool.not_eq_true', Bool.not_eq_false, decide_eq_true_eq] at h
    obtain ⟨hsize, hascii⟩ := h
    have hbytes : word.utf8ByteSize = (word.toList.map Char.toLower).length := by
      rw [utf8ByteSize_eq_byteLength, byteLength_of_isAscii hascii, List.length_map]
    -- The buffer begins with the word.
    have hbuffer : ((word.toList.map Char.toLower ++ List.replicate bufferSize '\x00').take
        bufferSize).take word.utf8ByteSize = word.toList.map Char.toLower := by
      rw [List.take_take, Nat.min_eq_left (by omega), hbytes, List.take_left]
    have hlength : word.utf8ByteSize ≤ ((word.toList.map Char.toLower
        ++ List.replicate bufferSize '\x00').take bufferSize).length := by
      rw [List.length_take, List.length_append, List.length_replicate]
      omega
    simp only [if_pos hlength, hbuffer, ofWord?, sameWord_spelling]

end Keyword

end PascalOutline
