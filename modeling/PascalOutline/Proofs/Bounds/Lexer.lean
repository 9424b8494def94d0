import PascalOutline.Proofs.Bounds.Text

/-! # Partial operations of the lexer

  The lexer with checked counts of open comments, checked lines and columns, and
  keywords looked up through a buffer. On a source that is small enough it gives
  the lexemes. The reader of single bytes that it walks with is never past the
  end, and its lines and columns fit.
-/

namespace PascalOutline

open Lexeme (byteLength)

namespace Lexer

/-! ### One lexeme -/

/-- The block comment whose opener stands right before a text, with checked
    counts of the marks in it, those of its own style and those of the other. -/
def checkedBlockComment (style : BlockStyle) (nested : Bool) (cs : List Char) : Option Comment :=
  (style.checkedCloserFrom nested 0 0 0 cs).bind fun closer =>
    let comment : Comment := match closer with
      | some n => ⟨.block style, cs.take n, true⟩
      | none => ⟨.block style, cs, false⟩
    (style.other.checkedStrayFrom 0 0 0 none comment.body).map fun _ => comment

/-- The name that begins with `c`, looked up through a buffer. -/
def checkedNameCut (c : Char) (cs : List Char) : Option (LexemeKind × Nat) :=
  let n := runLength isNameRest cs
  (Keyword.checkedOfWord? (String.ofList (c :: cs.take n))).map fun keyword =>
    (.ident keyword false, n)

/-- What the text beginning with `c` starts with. Only comments and names need
    partial operations. -/
def checkedCut (nested : Bool) (c : Char) (cs : List Char) : Option (LexemeKind × Nat) :=
  if isLineEnd c || isGap c then some (cut nested c cs)
  else if c = '\x7b' then (checkedBlockComment .brace nested cs).map commentCut
  else if c = '(' ∧ cs.head? = some '*' then
    (checkedBlockComment .parenStar nested cs.tail).map commentCut
  else if isNameStart c && !c.isDigit then checkedNameCut c cs
  else some (cut nested c cs)

/-- The lexemes of a text that begins at a location, every partial operation
    checked. -/
def checkedLexFrom (nested : Bool) (start : Location) : List Char → Option (List Lexeme)
  | [] => some []
  | c :: cs =>
    (checkedCut nested c cs).bind fun (kind, n) =>
      (start.checkedAfter (c :: cs.take n)).bind fun stop =>
        (checkedLexFrom nested stop (cs.drop n)).map fun lexemes =>
          ⟨kind, String.ofList (c :: cs.take n), start, stop⟩ :: lexemes
termination_by cs => cs.length
decreasing_by simp only [List.length_drop, List.length_cons]; omega

theorem checkedBlockComment_eq (style : BlockStyle) (nested : Bool) {cs : List Char}
    (h : cs.length < Word32.max) :
    checkedBlockComment style nested cs = some (blockComment style nested cs) := by
  have hbody : (blockComment style nested cs).body.length ≤ cs.length := by
    unfold blockComment
    split
    · rw [List.length_take]
      omega
    · exact Nat.le_refl _
  have hcloser : style.checkedCloserFrom nested 0 0 0 cs = some (style.closerAt nested cs) :=
    style.checkedCloserFrom_eq nested 0 0 (by omega)
  rw [checkedBlockComment, hcloser]
  show (style.other.checkedStrayFrom 0 0 0 none (blockComment style nested cs).body).map _ = _
  rw [style.other.checkedStrayFrom_eq 0 0 (by omega)]
  rfl

/-- A character that begins a name begins nothing else, digits aside. -/
theorem cut_of_isNameStart {c : Char} (nested : Bool) (cs : List Char)
    (hblank : ¬ (isLineEnd c || isGap c) = true) (hname : (isNameStart c && !c.isDigit) = true) :
    cut nested c cs = nameCut c cs := by
  obtain ⟨hstart, hdigit⟩ := Bool.and_eq_true_iff.mp hname
  obtain ⟨hend, hgap⟩ := not_or.mp fun h => hblank (Bool.or_eq_true_iff.mpr h)
  have hne (d : Char) (hd : isNameStart d = false) : c ≠ d := by
    rintro rfl
    rw [hd] at hstart
    cases hstart
  have hreturn : c ≠ '\r' := hne _ (by decide)
  have hbrace : c ≠ '\x7b' := hne _ (by decide)
  have hparen : c ≠ '(' := hne _ (by decide)
  have hslash : c ≠ '/' := hne _ (by decide)
  have hquote : c ≠ '\'' := hne _ (by decide)
  have hcode : c ≠ '#' := hne _ (by decide)
  have hescape : c ≠ '&' := hne _ (by decide)
  have hdollar : c ≠ '$' := hne _ (by decide)
  have hpercent : c ≠ '%' := hne _ (by decide)
  have hplain : c.isDigit = false := by simpa using hdigit
  simp only [cut, hreturn, hend, hgap, hbrace, hparen, hslash, hquote, hcode, hescape, hdollar,
    hpercent, hplain, hstart, false_and, if_false, if_true, Bool.false_eq_true]

theorem checkedCut_eq (nested : Bool) (c : Char) {cs : List Char} (h : cs.length < Word32.max) :
    checkedCut nested c cs = some (cut nested c cs) := by
  unfold checkedCut
  split
  · rfl
  · next hblank =>
    split
    · next hbrace =>
      subst hbrace
      rw [checkedBlockComment_eq .brace nested h]
      rfl
    · split
      · next hparen =>
        obtain ⟨rfl, hstar⟩ := hparen
        rw [checkedBlockComment_eq .parenStar nested (by rw [List.length_tail]; omega)]
        show _ = some (if '(' = '(' ∧ cs.head? = some '*' then _ else _)
        rw [if_pos ⟨rfl, hstar⟩]
        rfl
      · split
        · next hname =>
          rw [cut_of_isNameStart nested cs hblank hname, checkedNameCut, nameCut,
            Keyword.checkedOfWord?_eq]
          rfl
        · rfl

/-! ### All lexemes -/

theorem length_cut (c : Char) (cs : List Char) (n : Nat) :
    (c :: cs.take n).length + (cs.drop n).length = cs.length + 1 := by
  rw [List.length_cons, List.length_take, List.length_drop]
  omega

theorem checkedLexFrom_eq (nested : Bool) {start : Location} {cs : List Char}
    (hline : start.line + cs.length ≤ Word32.max)
    (hcolumn : start.column + cs.length ≤ Word32.max) (hlength : cs.length < Word32.max) :
    checkedLexFrom nested start cs = some (lexFrom nested start cs) := by
  fun_induction lexFrom nested start cs with
  | case1 start => rw [checkedLexFrom]
  | case2 start c cs kind n hcut chars stop ih =>
    rw [List.length_cons] at hline hcolumn hlength
    have hchars : chars.length + (cs.drop n).length = cs.length + 1 := length_cut c cs n
    have hstopLine : stop.line ≤ start.line + chars.length := start.line_after_le chars
    have hstopColumn : stop.column ≤ start.column + chars.length := start.column_after_le chars
    have hstop : start.checkedAfter chars = some stop :=
      Location.checkedAfter_eq (by omega) (by omega)
    rw [checkedLexFrom, checkedCut_eq nested c (by omega), hcut, Option.bind_some]
    dsimp only
    rw [hstop, Option.bind_some, ih (by omega) (by omega) (by omega)]
    rfl

/-- No lexeme ends on a line that lies past the characters of the text. -/
theorem line_stop_le_of_mem_lexFrom {nested : Bool} {start : Location} {cs : List Char} {l : Lexeme}
    (hl : l ∈ lexFrom nested start cs) : l.stop.line ≤ start.line + cs.length := by
  fun_induction lexFrom nested start cs with
  | case1 => cases hl
  | case2 start c cs kind n _ chars stop ih =>
    have hchars : chars.length + (cs.drop n).length = cs.length + 1 := length_cut c cs n
    have hstop : stop.line ≤ start.line + chars.length := start.line_after_le chars
    rw [List.length_cons]
    rcases List.mem_cons.mp hl with rfl | hl
    · show stop.line ≤ _
      omega
    · have hrest := ih hl
      omega

theorem length_lexFrom_le (nested : Bool) (start : Location) (cs : List Char) :
    (lexFrom nested start cs).length ≤ cs.length := by
  fun_induction lexFrom nested start cs with
  | case1 => exact Nat.le_refl 0
  | case2 start c cs kind n _ chars stop ih =>
    rw [List.length_drop] at ih
    rw [List.length_cons, List.length_cons]
    omega

end Lexer

/-! ### The reader -/

namespace ByteReader

/-- A reader of some bytes stands among them, and its line and column are not
    past the bytes that were read. -/
structure Within (bytes : List UInt8) (r : ByteReader) : Prop where
  /-- It is not past the end. -/
  offset : r.location.offset ≤ bytes.length
  /-- What lies ahead are the bytes from its offset on. -/
  ahead : r.ahead = bytes.drop r.location.offset
  /-- Its line. -/
  line : r.location.line ≤ 1 + r.location.offset
  /-- Its column. -/
  column : r.location.column ≤ 1 + r.location.offset

variable {bytes : List UInt8} {r : ByteReader}

theorem length_bytesOf (source : String) : (bytesOf source).length = source.utf8ByteSize := by
  rw [utf8ByteSize_eq_byteLength, bytesOf]
  induction source.toList with
  | nil => rfl
  | cons c cs ih =>
    rw [List.flatMap_cons, List.length_append, String.length_utf8EncodeChar, ih, byteLength_cons]

theorem within_ofString (source : String) : (ofString source).Within (bytesOf source) :=
  ⟨Nat.zero_le _, rfl, Nat.le_refl 1, Nat.le_refl 1⟩

theorem Within.next (h : r.Within bytes) : r.next.Within bytes := by
  obtain ⟨source, ahead, place⟩ := r
  cases ahead with
  | nil => exact h
  | cons b rest =>
    have hahead : b :: rest = bytes.drop place.offset := h.ahead
    have hline : place.line ≤ 1 + place.offset := h.line
    have hcolumn : place.column ≤ 1 + place.offset := h.column
    have hoffset : place.offset < bytes.length := by
      have hlength := congrArg List.length hahead
      rw [List.length_cons, List.length_drop] at hlength
      omega
    have hrest : rest = bytes.drop (place.offset + 1) := by
      rw [← List.drop_drop, ← hahead]
      rfl
    -- A byte moves the offset by one, and the line and the column by at most
    -- that much.
    have hplace : (locationAfter place b rest).offset = place.offset + 1 ∧
        (locationAfter place b rest).line ≤ place.line + 1 ∧
        (locationAfter place b rest).column ≤ place.column + 1 := by
      unfold locationAfter Location.nextLine
      split
      · exact ⟨rfl, Nat.le_refl _, Nat.le_add_left 1 _⟩
      · split
        · exact ⟨rfl, Nat.le_succ _, Nat.le_succ _⟩
        · exact ⟨rfl, Nat.le_succ _, Nat.le_refl _⟩
    obtain ⟨hafter, hlineAfter, hcolumnAfter⟩ := hplace
    constructor
    case offset =>
      show (locationAfter place b rest).offset ≤ _
      omega
    case ahead =>
      show rest = bytes.drop (locationAfter place b rest).offset
      rw [hafter, hrest]
    case line =>
      show (locationAfter place b rest).line ≤ 1 + (locationAfter place b rest).offset
      omega
    case column =>
      show (locationAfter place b rest).column ≤ 1 + (locationAfter place b rest).offset
      omega

theorem Within.steps (h : r.Within bytes) (n : Nat) : (r.steps n).Within bytes := by
  induction n generalizing r with
  | zero => exact h
  | succ n ih => exact ih h.next

end ByteReader

end PascalOutline
