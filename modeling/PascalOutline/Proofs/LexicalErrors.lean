import PascalOutline.Diagnostic
import PascalOutline.Proofs.Lexeme.LineBreak
import PascalOutline.Proofs.Locations

/-! # Lexical errors stay on their line

  A quote that is never closed, a stray closer or a mark that begins nothing
  spoils the line that it stands on, and no other. What stands before a line
  feed is read as if nothing came after it, and what stands after it is read as
  if nothing came before it, only further down.

  For the first half, a line feed ends every lexeme as the end of the text does
  (`Lexer.lexFrom_append_lineFeed`). For the second half, the lexer starts again
  at the line feed, and nothing that it does depends on where it starts: if a
  text is moved down, so are its lexemes and their problems.
-/

namespace PascalOutline

/-! ### Moving down -/

namespace Location

/-- The location that is some lines further down and some bytes further on. -/
def shift (lines bytes : Nat) (a : Location) : Location :=
  ⟨a.line + lines, a.column, a.offset + bytes⟩

variable (lines bytes : Nat)

theorem nextLine_shift (a : Location) (n : Nat) :
    (a.shift lines bytes).nextLine n = (a.nextLine n).shift lines bytes := by
  simp only [shift, nextLine, mk.injEq, true_and]
  omega

theorem nextColumn_shift (a : Location) (c : Char) :
    (a.shift lines bytes).nextColumn c = (a.nextColumn c).shift lines bytes := by
  simp only [shift, nextColumn, mk.injEq, true_and]
  omega

theorem after_shift (a : Location) (cs : List Char) :
    (a.shift lines bytes).after cs = (a.after cs).shift lines bytes := by
  fun_induction after a cs with
  | case1 a => rfl
  | case2 a cs ih => rw [after, nextLine_shift, ih]
  | case3 a c cs hpair hends ih =>
    rw [after.eq_3 _ c cs hpair, if_pos hends, nextLine_shift, ih]
  | case4 a c cs hpair hends ih =>
    rw [after.eq_3 _ c cs hpair, if_neg hends, nextColumn_shift, ih]

end Location

/-- The lexeme that is some lines further down and some bytes further on. -/
def Lexeme.shift (lines bytes : Nat) (l : Lexeme) : Lexeme :=
  { l with start := l.start.shift lines bytes, stop := l.stop.shift lines bytes }

/-- The problem of a text that is some lines further down. It may quote a line. -/
def Problem.shift (lines : Nat) : Problem → Problem
  | wrongCloser style openedOn => wrongCloser style (openedOn + lines)
  | strayCloser style => strayCloser style
  | missingName kind => missingName kind

/-- The diagnostic of a text that is some lines further down. -/
def Diagnostic.shift (lines : Nat) (d : Diagnostic) : Diagnostic :=
  ⟨d.problem.shift lines, d.line + lines, d.column⟩

/-- Where a text begins makes no other difference to its lexemes. -/
theorem Lexer.lexFrom_shift (nested : Bool) (lines bytes : Nat) (start : Location)
    (cs : List Char) : lexFrom nested (start.shift lines bytes) cs
      = (lexFrom nested start cs).map (Lexeme.shift lines bytes) := by
  fun_induction lexFrom nested start cs with
  | case1 start => rw [lexFrom, List.map_nil]
  | case2 start c cs kind n hcut chars stop ih =>
    rw [lexFrom, hcut]
    dsimp only
    rw [Location.after_shift, List.map_cons, ← ih]
    rfl

namespace Diagnostic

variable (lines bytes : Nat) (l : Lexeme)

theorem wrongCloserAt?_shift (style : BlockStyle) (c : Comment) :
    wrongCloserAt? (l.shift lines bytes) style c
      = (wrongCloserAt? l style c).map (Location.shift lines bytes) := by
  rw [wrongCloserAt?, wrongCloserAt?, Option.map_map]
  refine congrArg (Option.map · _) (funext fun n => ?_)
  exact Location.after_shift lines bytes l.start _

theorem ofComment?_shift (c : Comment) :
    ofComment? (l.shift lines bytes) c = (ofComment? l c).map (shift lines) := by
  unfold ofComment?
  split
  · rfl
  · next style _ =>
    rw [wrongCloserAt?_shift]
    cases wrongCloserAt? l style c with
    | none => rfl
    | some place =>
      -- Both lines move, so they are compared as before.
      have hlines : (!c.closed || decide ((place.shift lines bytes).line
            < (l.shift lines bytes).stop.line)) = true ↔
          (!c.closed || decide (place.line < l.stop.line)) = true := by
        simp only [Location.shift, Lexeme.shift, Nat.add_lt_add_iff_right]
      show (if _ then _ else _) = Option.map _ (if _ then _ else _)
      rw [apply_ite (Option.map (shift lines))]
      exact if_congr hlines rfl rfl

theorem ofLexeme?_shift : ofLexeme? (l.shift lines bytes) = (ofLexeme? l).map (shift lines) := by
  obtain ⟨kind, text, start, stop⟩ := l
  cases kind with
  | symbol =>
    show (if _ then _ else if _ then _ else _)
      = Option.map _ (if _ then _ else if _ then _ else _)
    rw [apply_ite (Option.map (shift lines)), apply_ite (Option.map (shift lines))]
    rfl
  | comment c => exact ofComment?_shift lines bytes _ c
  | directive c => exact ofComment?_shift lines bytes _ c
  | ident | number | str | charCode | blank | newline => rfl

theorem ofLexemes_shift (lexemes : List Lexeme) :
    ofLexemes (lexemes.map (Lexeme.shift lines bytes)) = (ofLexemes lexemes).map (shift lines) := by
  rw [ofLexemes, ofLexemes, List.filterMap_map, List.map_filterMap]
  exact congrArg (List.filterMap · lexemes) (funext fun l => ofLexeme?_shift lines bytes l)

end Diagnostic

/-! ### One line after the other -/

/-- The place after the last byte of a text. -/
def Location.endOf (source : String) : Location :=
  ofPrefix source source.utf8ByteSize

namespace Lexer

variable {nested : Bool}

theorem endFrom_lex (nested : Bool) (source : String) :
    endFrom .start (lex nested source) = Location.endOf source := by
  have hoffset := offset_endOf_lex nested source
  have hplace : (endFrom .start (lex nested source)).IsPlaceIn source := by
    rw [endFrom]
    cases hlast : (lex nested source).getLast? with
    | none => exact Location.isPlaceIn_ofPrefix source 0
    | some l =>
      exact isPlaceIn_of_mem_boundaries (stop_mem_boundaries (List.mem_of_getLast? hlast))
  rw [Location.endOf, ← hoffset]
  exact hplace

/-- A line feed at a place. -/
def lineFeedAt (place : Location) : Lexeme :=
  ⟨.newline, "\n", place, place.nextLine 1⟩

theorem lexFrom_lineFeed (nested : Bool) (place : Location) (cs : List Char) :
    lexFrom nested place ('\n' :: cs)
      = lineFeedAt place :: lexFrom nested (place.nextLine 1) cs := by
  rw [lexFrom]
  rfl

/-- The first text is read as it is without the second, and the second as it is
    without the first, only further down. -/
structure ReadsApart (nested : Bool) (a b : String) : Prop where
  /-- The lexemes of the first text, the line feed, and those of the second. -/
  lexemes : lex nested (a ++ "\n" ++ b) = lex nested a ++ lineFeedAt (.endOf a)
    :: (lex nested b).map (Lexeme.shift (Location.endOf a).line (a.utf8ByteSize + 1))
  /-- The problems of the first text and those of the second. -/
  diagnostics : Diagnostic.ofLexemes (lex nested (a ++ "\n" ++ b))
    = Diagnostic.ofLexemes (lex nested a)
      ++ (Diagnostic.ofLexemes (lex nested b)).map (Diagnostic.shift (Location.endOf a).line)

/-- **Lexical errors stay on their line**: two texts with a line feed between them
    are read apart. The first one must not end within a block comment, nor with a
    carriage return, to which the line feed would belong. -/
theorem readsApart_of_isWhole {a : String} (hreturn : a.toList.getLast? ≠ some '\r')
    (hwhole : ∀ l ∈ (lex nested a).getLast?, l.kind.IsWhole) (b : String) :
    ReadsApart nested a b := by
  have hend : endFrom .start (lexFrom nested .start a.toList) = .endOf a := endFrom_lex nested a
  have hstart : (Location.endOf a).nextLine 1
      = Location.start.shift (Location.endOf a).line (a.utf8ByteSize + 1) := by
    rw [Location.nextLine, Location.shift, Nat.add_comm]
    exact congrArg (Location.mk _ 1) (Nat.zero_add (a.utf8ByteSize + 1)).symm
  have hlexemes : lex nested (a ++ "\n" ++ b) = lex nested a ++ lineFeedAt (.endOf a)
      :: (lex nested b).map (Lexeme.shift (Location.endOf a).line (a.utf8ByteSize + 1)) := by
    have htext : (a ++ "\n" ++ b).toList = a.toList ++ '\n' :: b.toList := by
      simp
    rw [lex, htext, lexFrom_append_lineFeed hreturn hwhole, lexFrom_lineFeed, hend, hstart,
      lexFrom_shift]
    rfl
  constructor
  case lexemes => exact hlexemes
  case diagnostics =>
    rw [hlexemes, Diagnostic.ofLexemes, List.filterMap_append, List.filterMap_cons_none rfl]
    exact congrArg _ (Diagnostic.ofLexemes_shift _ _ (lex nested b))

/-- A string that is not closed, and after it a comment with the wrong closer. -/
theorem readsApart_of_open_string :
    "x := 'it".toList.getLast? ≠ some '\r' ∧
      (∀ l ∈ (lex false "x := 'it").getLast?, l.kind.IsWhole) ∧
      ReadsApart false "x := 'it" "\x7b *)\n" := by
  have hreturn : "x := 'it".toList.getLast? ≠ some '\r' := by decide
  have hwhole : ∀ l ∈ (lex false "x := 'it").getLast?, l.kind.IsWhole := by decide +kernel
  exact ⟨hreturn, hwhole, readsApart_of_isWhole hreturn hwhole _⟩

end Lexer

end PascalOutline
