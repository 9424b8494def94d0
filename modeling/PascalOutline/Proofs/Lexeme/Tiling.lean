import Mathlib.Data.List.Chain
import PascalOutline.Proofs.Lexeme.Cut
import PascalOutline.Proofs.Place

/-! # Lexemes tile the source

  Lexing loses nothing and invents nothing. The lexemes of a source stand end
  to end from its first byte to its last, each one is the piece of the source
  between its two offsets, no two characters of a line end are parted, and a
  comment is made up of its opener, its body and its closer.

  The argument goes over the lexemes from left to right with the text before
  the next one in hand: `standsAt_of_mem_lexFrom` gives every lexeme its place
  in the source, and the facts about offsets and bytes are read off there.
-/

namespace PascalOutline

open Lexeme (byteLength)
open Lexer

/-! ### The place of one lexeme -/

/-- A lexeme stands between two parts of a source. -/
structure Lexeme.StandsAt (source : String) (l : Lexeme) (pre post : List Char) : Prop where
  /-- The three pieces make up the source. -/
  text : source.toList = pre ++ l.text.toList ++ post
  /-- It has some text. -/
  nonempty : l.text.toList ≠ []
  /-- It begins after the bytes before it. -/
  start : l.start.offset = byteLength pre
  /-- It ends where walking over its text leads. -/
  stop : l.stop = l.start.after l.text.toList
  /-- No line end is parted where it begins. -/
  whole_start : pre.getLast? = some '\r' → (l.text.toList ++ post).head? ≠ some '\n'
  /-- No line end is parted where it ends. -/
  whole_stop : (pre ++ l.text.toList).getLast? = some '\r' → post.head? ≠ some '\n'
  /-- A comment is its opener, its body and its closer. -/
  comment : ∀ k, l.comment? = some k → l.text.toList = k.chars ∧ ∃ inner, Reads k inner post

/-- The lexeme that is cut off a text stands before the rest of the text. -/
theorem standsAt_of_cuts {source : String} {pre cs : List Char} {c : Char} {start : Location}
    {kind : LexemeKind} {n : Nat} (hsource : source.toList = pre ++ c :: cs)
    (hstart : start.offset = byteLength pre)
    (hwhole : pre.getLast? = some '\r' → (c :: cs).head? ≠ some '\n')
    (hcuts : Cuts c cs kind n) :
    Lexeme.StandsAt source
      ⟨kind, String.ofList (c :: cs.take n), start, start.after (c :: cs.take n)⟩
      pre (cs.drop n) := by
  have hsplit : c :: cs.take n ++ cs.drop n = c :: cs := by
    rw [List.cons_append, List.take_append_drop]
  constructor
  case text =>
    rw [hsource, String.toList_ofList, List.append_assoc, hsplit]
  case nonempty => simp
  case start => exact hstart
  case stop => rw [String.toList_ofList]
  case whole_start =>
    rw [String.toList_ofList, hsplit]
    exact hwhole
  case whole_stop =>
    -- The lexeme is not empty, so the last character before its end is its own.
    rw [String.toList_ofList, List.getLast?_append_of_ne_nil _ (List.cons_ne_nil _ _)]
    exact hcuts.whole
  case comment =>
    intro k hk
    rw [String.toList_ofList]
    cases hcuts with
    | newline n _ => cases hk
    | comment k' n inner chars reads =>
      obtain rfl : k' = k := by
        rcases commentKind_eq k' with hkind | hkind
        · rw [hkind] at hk
          exact Option.some.inj hk
        · rw [hkind] at hk
          exact Option.some.inj hk
      exact ⟨chars, inner, reads⟩
    | inline kind n plain _ _ =>
      simp only [Lexeme.comment?] at hk
      split at hk
      · exact absurd rfl (plain _).1
      · exact absurd rfl (plain _).2
      · cases hk

theorem standsAt_of_mem_lexFrom {source : String} {nested : Bool} {l : Lexeme}
    {start : Location} {pre cs : List Char} (hsource : source.toList = pre ++ cs)
    (hstart : start.offset = byteLength pre)
    (hwhole : pre.getLast? = some '\r' → cs.head? ≠ some '\n')
    (hl : l ∈ lexFrom nested start cs) : ∃ before after, l.StandsAt source before after := by
  -- The induction follows the lexer; `pre` is all that was cut off so far.
  fun_induction lexFrom nested start cs generalizing pre with
  | case1 => cases hl
  | case2 start c cs kind n hcut chars stop =>
    rename_i ih
    have hcuts := cuts_of_cut hcut
    have hfirst := standsAt_of_cuts hsource hstart hwhole hcuts
    rcases List.mem_cons.mp hl with rfl | hl
    · exact ⟨pre, cs.drop n, hfirst⟩
    · -- The lexeme that was cut off joins the text before the next one.
      have htext := hfirst.text
      have hstop := hfirst.whole_stop
      rw [String.toList_ofList] at htext hstop
      refine ih htext ?_ hstop hl
      show (start.after chars).offset = byteLength (pre ++ chars)
      rw [Location.offset_after, hstart, byteLength_append]

/-- Every lexeme of a source has its place in it. -/
theorem standsAt_of_mem_lex {source : String} {nested : Bool} {l : Lexeme}
    (hl : l ∈ lex nested source) : ∃ before after, l.StandsAt source before after := by
  have hwhole : ([] : List Char).getLast? = some '\r' → source.toList.head? ≠ some '\n' := by
    intro h
    cases h
  exact standsAt_of_mem_lexFrom rfl rfl hwhole hl

/-! ### The lexemes of a text, end to end -/

theorem flatMap_text_lexFrom (nested : Bool) (start : Location) (cs : List Char) :
    (lexFrom nested start cs).flatMap (fun l => l.text.toList) = cs := by
  fun_induction lexFrom nested start cs with
  | case1 => rfl
  | case2 start c cs kind n _ chars stop ih =>
    rw [List.flatMap_cons, ih, String.toList_ofList]
    show c :: (cs.take n ++ cs.drop n) = c :: cs
    rw [List.take_append_drop]

/-- The place after some lexemes that begin at a place. -/
def endFrom (start : Location) (lexemes : List Lexeme) : Location :=
  (lexemes.getLast?.map Lexeme.stop).getD start

theorem endFrom_cons (start : Location) (l : Lexeme) (ls : List Lexeme) :
    endFrom start (l :: ls) = endFrom l.stop ls := by
  rw [endFrom, endFrom, List.getLast?_cons]
  cases ls.getLast? with
  | none => rfl
  | some last => rfl

/-- The last lexeme ends after all bytes of the text. -/
theorem offset_endFrom_lexFrom (nested : Bool) (start : Location) (cs : List Char) :
    (endFrom start (lexFrom nested start cs)).offset = start.offset + byteLength cs := by
  fun_induction lexFrom nested start cs with
  | case1 => rfl
  | case2 start c cs kind n _ chars stop ih =>
    -- The bytes of the text are those of the first lexeme and of the rest.
    have hbytes : start.offset + byteLength (c :: cs)
        = (start.after chars).offset + byteLength (cs.drop n) := by
      rw [Location.offset_after, Nat.add_assoc, ← byteLength_append]
      show _ = start.offset + byteLength (c :: (cs.take n ++ cs.drop n))
      rw [List.take_append_drop]
    rw [endFrom_cons, hbytes]
    exact ih

/-- The end of the last lexeme is the end of the source. -/
theorem offset_endOf_lex (nested : Bool) (source : String) :
    (endOf (lex nested source)).offset = source.utf8ByteSize := by
  have hend := offset_endFrom_lexFrom nested .start source.toList
  rw [utf8ByteSize_eq_byteLength, ← Nat.zero_add (byteLength source.toList)]
  exact hend

/-! ### Offsets and bytes -/

namespace Lexeme.StandsAt

variable {source : String} {l : Lexeme} {pre post : List Char}

theorem offset_stop (h : l.StandsAt source pre post) :
    l.stop.offset = byteLength (pre ++ l.text.toList) := by
  rw [h.stop, Location.offset_after, h.start, byteLength_append]

theorem text_start (h : l.StandsAt source pre post) :
    source.toList = pre ++ (l.text.toList ++ post) := by
  rw [h.text, List.append_assoc]

theorem isBoundary_start (h : l.StandsAt source pre post) : IsBoundary source l.start.offset := by
  rw [h.start]
  exact isBoundary_byteLength h.text_start

theorem isBoundary_stop (h : l.StandsAt source pre post) : IsBoundary source l.stop.offset := by
  rw [h.offset_stop]
  exact isBoundary_byteLength h.text

theorem offset_lt (h : l.StandsAt source pre post) : l.start.offset < l.stop.offset := by
  have hpos := byteLength_pos h.nonempty
  rw [h.stop, Location.offset_after]
  omega

end Lexeme.StandsAt

/-! ### The parts of a comment -/

end PascalOutline
