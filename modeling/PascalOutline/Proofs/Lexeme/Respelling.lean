import Mathlib.Data.List.Forall2
import PascalOutline.Proofs.Lexeme.Extent
import PascalOutline.Proofs.Lexeme.Local
import PascalOutline.Proofs.Place
import PascalOutline.Proofs.Text.Respelling

/-! # Lexemes of a respelled text

  The lexer never asks for the case of a letter, and a line end is a line end
  for it however it is written. So a respelled text is cut at the same places:
  each lexeme is of the same kind, its text respelled, and a comment keeps its
  style and its closer.
-/

namespace PascalOutline.Respelling

open Lexer
open BlockStyle (closerFrom_add closerFrom_of_closer_eq_false)

variable (f : Respelling)

/-! ### Looking ahead -/

/-- A test that does not see the case of a letter. -/
def IgnoresCase (p : Char → Bool) : Prop :=
  ∀ c, p (f.char c) = p c

variable {f} in
theorem IgnoresCase.orUnderscore {p : Char → Bool} (h : f.IgnoresCase p) :
    f.IgnoresCase (Lexer.orUnderscore p) := by
  intro c
  rw [Lexer.orUnderscore, Lexer.orUnderscore, h c, f.apply_char (p := (· == '_')) (by decide)]

theorem ignoresCase_isDigit : f.IgnoresCase Char.isDigit :=
  f.apply_char (by decide)

theorem ignoresCase_isHexDigit : f.IgnoresCase isHexDigit :=
  f.apply_char (by decide)

theorem ignoresCase_isOctalDigit : f.IgnoresCase isOctalDigit :=
  f.apply_char (by decide)

theorem ignoresCase_isBinaryDigit : f.IgnoresCase isBinaryDigit :=
  f.apply_char (by decide)

theorem ignoresCase_isNameStart : f.IgnoresCase isNameStart :=
  f.apply_char (by decide)

theorem ignoresCase_isNameRest : f.IgnoresCase isNameRest :=
  f.apply_char (by decide)

theorem ignoresCase_isGap : f.IgnoresCase isGap :=
  f.apply_char (by decide)

/-- A mark is no letter, so only itself is respelled to it. -/
theorem ignoresCase_beq {x : Char} (hx : x.isAlpha = false) : f.IgnoresCase (· == x) := by
  intro c
  rw [Bool.eq_iff_iff, beq_iff_eq, beq_iff_eq, f.char_eq_iff hx]

/-- A text and its respelling are both empty, or both begin with a line end,
    or begin with a character and its respelling. -/
theorem cases_chars {motive : List Char → List Char → Prop} (nil : motive [] [])
    (ends : ∀ c cs d ds, isLineEnd c = true → isLineEnd d = true → motive (c :: cs) (d :: ds))
    (cons : ∀ c cs, isLineEnd c = false → motive (c :: cs) (f.char c :: f.chars cs))
    (cs : List Char) : motive cs (f.chars cs) := by
  cases cs with
  | nil => exact nil
  | cons c cs =>
    cases hend : isLineEnd c with
    | true =>
      have hhead : (f.chars (c :: cs)).head? = some (f.single c) := f.head?_chars (c :: cs)
      obtain ⟨ds, hds⟩ := List.head?_eq_some_iff.mp hhead
      rw [hds]
      exact ends c cs (f.single c) ds hend (by rw [f.isLineEnd_single, hend])
    | false =>
      rw [f.chars_cons_of_isLineEnd_eq_false hend]
      exact cons c cs hend

theorem eq_false_of_isLineEnd {p : Char → Bool} (hends : RefusesLineEnds p) {c : Char}
    (h : isLineEnd c = true) : p c = false := by
  cases hpc : p c with
  | true =>
    rw [hends.isLineEnd_eq_false hpc] at h
    cases h
  | false => rfl

theorem head?_any_chars {p : Char → Bool} (h : f.IgnoresCase p) (hends : RefusesLineEnds p)
    (cs : List Char) : (f.chars cs).head?.any p = cs.head?.any p := by
  refine f.cases_chars (motive := fun cs ds => ds.head?.any p = cs.head?.any p) rfl ?_ ?_ cs
  · intro c cs d ds hc hd
    show p d = p c
    rw [eq_false_of_isLineEnd hends hc, eq_false_of_isLineEnd hends hd]
  · intro c cs _
    exact h c

theorem head?_chars_eq_some_iff {x : Char} (hx : x.isAlpha = false) (hend : isLineEnd x = false)
    (cs : List Char) : (f.chars cs).head? = some x ↔ cs.head? = some x := by
  have hends : RefusesLineEnds (· == x) := by
    constructor
    · rw [beq_eq_false_iff_ne]
      rintro rfl
      cases hend
    · rw [beq_eq_false_iff_ne]
      rintro rfl
      cases hend
  have hany := f.head?_any_chars (f.ignoresCase_beq hx) hends cs
  rw [Bool.eq_iff_iff] at hany
  simpa [Option.any_eq_true] using hany

/-! ### Runs -/

theorem takeWhile_chars {p : Char → Bool} (h : f.IgnoresCase p) (hends : RefusesLineEnds p)
    (cs : List Char) : (f.chars cs).takeWhile p = (cs.takeWhile p).map f.char := by
  induction cs with
  | nil => rfl
  | cons c cs ih =>
    cases hend : isLineEnd c with
    | true =>
      -- The run is empty on both sides.
      have hhead := f.head?_any_chars h hends (c :: cs)
      have hc : p c = false := eq_false_of_isLineEnd hends hend
      rw [List.head?_cons, Option.any_some, hc] at hhead
      rw [List.takeWhile_cons_of_neg (by simp [hc])]
      cases hchars : f.chars (c :: cs) with
      | nil => rfl
      | cons d ds =>
        rw [hchars] at hhead
        exact List.takeWhile_cons_of_neg (by simpa using hhead)
    | false =>
      rw [f.chars_cons_of_isLineEnd_eq_false hend, List.takeWhile_cons, List.takeWhile_cons, h c]
      split
      · rw [ih, List.map_cons]
      · rfl

theorem runLength_chars {p : Char → Bool} (h : f.IgnoresCase p) (hends : RefusesLineEnds p)
    (cs : List Char) : runLength p (f.chars cs) = runLength p cs := by
  rw [runLength, f.takeWhile_chars h hends, List.length_map, runLength]

theorem drop_chars {cs : List Char} {n : Nat} (h : Inline cs n) :
    (f.chars cs).drop n = f.chars (cs.drop n) := by
  induction n generalizing cs with
  | zero => rfl
  | succ n ih =>
    cases cs with
    | nil => rfl
    | cons c cs =>
      have hc : isLineEnd c = false := h c (by simp)
      have hcs : Inline cs n := fun x hx => h x (by simp [hx])
      rw [f.chars_cons_of_isLineEnd_eq_false hc, List.drop_succ_cons, ih hcs,
        List.drop_succ_cons]

theorem take_chars {cs : List Char} {n : Nat} (h : Inline cs n) :
    (f.chars cs).take n = (cs.take n).map f.char := by
  induction n generalizing cs with
  | zero => rfl
  | succ n ih =>
    cases cs with
    | nil => rfl
    | cons c cs =>
      have hc : isLineEnd c = false := h c (by simp)
      have hcs : Inline cs n := fun x hx => h x (by simp [hx])
      rw [f.chars_cons_of_isLineEnd_eq_false hc, List.take_succ_cons, ih hcs, List.take_succ_cons,
        List.map_cons]

/-! ### Numbers, strings and character codes -/

theorem digitsLength_chars (cs : List Char) : digitsLength (f.chars cs) = digitsLength cs :=
  f.runLength_chars f.ignoresCase_isDigit.orUnderscore ⟨rfl, rfl⟩ cs

theorem inline_one_of_head? {p : Char → Bool} (hends : RefusesLineEnds p) {cs : List Char}
    (h : cs.head?.any p = true) : Inline cs 1 := by
  cases cs with
  | nil => exact fun x hx => by simp at hx
  | cons c cs => exact inline_succ (hends.isLineEnd_eq_false h) (inline_zero cs)

theorem tail_chars {p : Char → Bool} (hends : RefusesLineEnds p) {cs : List Char}
    (h : cs.head?.any p = true) : (f.chars cs).tail = f.chars cs.tail := by
  rw [← List.drop_one, f.drop_chars (inline_one_of_head? hends h), List.drop_one]

theorem fractionLength_eq (cs : List Char) :
    fractionLength cs
      = if cs.head?.any (· == '.') && cs.tail.head?.any Char.isDigit then 1 + digitsLength cs.tail
        else 0 := by
  fun_cases fractionLength cs with
  | case1 d cs hd => simp [hd]
  | case2 d cs hd => simp [hd]
  | case3 cs hno =>
    rcases cs with _ | ⟨c, _ | ⟨d, cs⟩⟩
    · rfl
    · simp
    · have hdot : c ≠ '.' := by
        rintro rfl
        exact hno d cs rfl
      simp [hdot]

theorem fractionLength_chars (cs : List Char) :
    fractionLength (f.chars cs) = fractionLength cs := by
  rw [fractionLength_eq, fractionLength_eq,
    f.head?_any_chars (f.ignoresCase_beq rfl) ⟨rfl, rfl⟩]
  cases hdot : cs.head?.any (· == '.') with
  | false => rfl
  | true =>
    rw [f.tail_chars ⟨rfl, rfl⟩ hdot, f.head?_any_chars f.ignoresCase_isDigit ⟨rfl, rfl⟩,
      f.digitsLength_chars]

/-- Whether the text after the mark of an exponent begins with a digit, or with
    a sign and a digit. -/
def hasExponent (cs : List Char) : Bool :=
  cs.head?.any Char.isDigit ||
    cs.head?.any (fun d => d == '+' || d == '-') && cs.tail.head?.any Char.isDigit

theorem exponentLength_eq (cs : List Char) :
    exponentLength cs
      = if cs.head?.any (fun e => e == 'e' || e == 'E') && hasExponent cs.tail then
          2 + digitsLength cs.tail.tail
        else 0 := by
  fun_cases exponentLength cs with
  | case1 e he d rest hd => simp [hasExponent, he, hd]
  | case2 e he d rest hd hsign => simp_all [hasExponent]
  | case3 e he d rest hd hsign => simp_all [hasExponent]
  | case4 e he => simp [hasExponent]
  | case5 e cs he => simp [he]
  | case6 => rfl

theorem hasExponent_chars (cs : List Char) : hasExponent (f.chars cs) = hasExponent cs := by
  have hsign : f.IgnoresCase fun d => d == '+' || d == '-' :=
    f.apply_char (p := fun d => d == '+' || d == '-') (by decide)
  rw [hasExponent, hasExponent, f.head?_any_chars f.ignoresCase_isDigit ⟨rfl, rfl⟩,
    f.head?_any_chars hsign ⟨rfl, rfl⟩]
  cases h : cs.head?.any fun d => d == '+' || d == '-' with
  | false => rfl
  | true => 
    rw [f.tail_chars ⟨rfl, rfl⟩ h, f.head?_any_chars f.ignoresCase_isDigit ⟨rfl, rfl⟩]

theorem inline_one_of_hasExponent {cs : List Char} (h : hasExponent cs = true) : Inline cs 1 := by
  rcases Bool.or_eq_true_iff.mp h with hdigit | hsign
  · exact inline_one_of_head? refusesLineEnds_isDigit hdigit
  · exact inline_one_of_head? ⟨rfl, rfl⟩ (Bool.and_eq_true_iff.mp hsign).1

theorem exponentLength_chars (cs : List Char) :
    exponentLength (f.chars cs) = exponentLength cs := by
  have hmark : f.IgnoresCase fun e => e == 'e' || e == 'E' :=
    f.apply_char (p := fun e => e == 'e' || e == 'E') (by decide)
  rw [exponentLength_eq, exponentLength_eq, f.head?_any_chars hmark ⟨rfl, rfl⟩]
  cases h : cs.head?.any fun e => e == 'e' || e == 'E' with
  | false => rfl
  | true =>
    rw [f.tail_chars ⟨rfl, rfl⟩ h, f.hasExponent_chars]
    cases hexp : hasExponent cs.tail with
    | false => rfl
    | true =>
      have hin := inline_one_of_hasExponent hexp
      rw [← List.drop_one (l := f.chars cs.tail), f.drop_chars hin, List.drop_one,
        f.digitsLength_chars]

theorem decimalLength_chars (cs : List Char) : decimalLength (f.chars cs) = decimalLength cs := by
  have hwhole := inline_digitsLength cs
  have hfraction := inline_add hwhole (inline_fractionLength (cs.drop (digitsLength cs)))
  simp only [decimalLength, f.digitsLength_chars, f.drop_chars hwhole, f.fractionLength_chars,
    f.drop_chars hfraction, f.exponentLength_chars]

theorem charCodeLength_chars (cs : List Char) :
    charCodeLength (f.chars cs) = charCodeLength cs := by
  have hmarks := f.head?_any_chars (f.ignoresCase_beq (x := '$') rfl) ⟨rfl, rfl⟩ cs
  cases hmark : cs.head?.any (· == '$') with
  | false =>
    rw [charCodeLength_of_head hmark, charCodeLength_of_head (hmarks.trans hmark),
      f.runLength_chars f.ignoresCase_isHexDigit ⟨rfl, rfl⟩]
  | true =>
    obtain ⟨rest, rfl⟩ : ∃ rest, cs = '$' :: rest := by
      apply List.head?_eq_some_iff.mp
      simpa [Option.any_eq_true] using hmark
    rw [f.chars_cons_of_isLineEnd_eq_false rfl, f.char_of_isAlpha_eq_false rfl, charCodeLength,
      charCodeLength, f.runLength_chars f.ignoresCase_isHexDigit ⟨rfl, rfl⟩]

theorem stringFrom_chars (before : Nat) (cs : List Char) :
    stringFrom before (f.chars cs) = stringFrom before cs := by
  have hquote : f.char '\'' = '\'' := f.char_of_isAlpha_eq_false rfl
  fun_induction stringFrom before cs with
  | case1 before => rfl
  | case2 before cs ih =>
    rw [f.chars_cons_of_isLineEnd_eq_false rfl, f.chars_cons_of_isLineEnd_eq_false rfl, hquote,
      stringFrom, ih]
  | case3 before c cs _ hend =>
    have hhead : (f.chars (c :: cs)).head? = some (f.single c) := f.head?_chars (c :: cs)
    obtain ⟨ds, hds⟩ := List.head?_eq_some_iff.mp hhead
    rw [hds, stringFrom_cons_of_isLineEnd (by rw [f.isLineEnd_single, hend])]
  | case4 before cs hno _ =>
    -- The quote is single, and it stays single.
    have hsingle : cs.head?.any (· == '\'') = false := by
      cases cs with
      | nil => rfl
      | cons d cs =>
        have hd : d ≠ '\'' := by
          rintro rfl
          exact hno cs rfl rfl
        simp [hd]
    rw [f.chars_cons_of_isLineEnd_eq_false rfl, hquote, stringFrom_quote]
    rw [f.head?_any_chars (f.ignoresCase_beq rfl) ⟨rfl, rfl⟩, hsingle]
  | case5 before c cs _ hend hc ih =>
    have hend : isLineEnd c = false := by simpa using hend
    have hc' : f.char c ≠ '\'' := fun h => hc ((f.char_eq_iff rfl).mp h)
    rw [f.chars_cons_of_isLineEnd_eq_false hend,
      stringFrom_cons_of_ne hc' (by rw [f.isLineEnd_char, hend]), ih]

/-! ### Comments -/

/-- A mark has neither letters nor line ends. -/
def IsMark (mark : List Char) : Prop :=
  ∀ x ∈ mark, x.isAlpha = false ∧ isLineEnd x = false

instance (mark : List Char) : Decidable (IsMark mark) :=
  List.decidableBAll (fun x : Char => x.isAlpha = false ∧ isLineEnd x = false) mark

theorem isMark_opener (style : CommentStyle) : IsMark style.opener := by
  cases style with
  | line => decide
  | block style => cases style <;> decide

theorem isMark_closer (style : BlockStyle) : IsMark style.closer := by
  cases style <;> decide

theorem isMark_closing (k : Comment) : IsMark k.closing := by
  unfold Comment.closing
  split
  · cases k.style with
    | line => exact fun x hx => by cases hx
    | block style => exact isMark_closer style
  · exact fun x hx => by cases hx

theorem chars_of_isMark {mark : List Char} (h : IsMark mark) : f.chars mark = mark := by
  rw [f.chars_of_inline fun x hx => (h x hx).2]
  calc mark.map f.char = mark.map id :=
        List.map_congr_left fun x hx => f.char_of_isAlpha_eq_false (h x hx).1
    _ = mark := List.map_id mark

theorem isPrefixOf_chars {mark : List Char}
    (hmark : IsMark mark) (cs : List Char) :
    mark.isPrefixOf (f.chars cs) = mark.isPrefixOf cs := by
  induction mark generalizing cs with
  | nil => rfl
  | cons x mark ih =>
    obtain ⟨hx, hend⟩ := hmark x List.mem_cons_self
    have ih := ih fun y hy => hmark y (List.mem_cons_of_mem x hy)
    have hne {c : Char} (hc : isLineEnd c = true) : (x == c) = false := by
      rw [beq_eq_false_iff_ne]
      rintro rfl
      rw [hend] at hc
      cases hc
    refine f.cases_chars
      (motive := fun cs ds => (x :: mark).isPrefixOf ds = (x :: mark).isPrefixOf cs) rfl ?_ ?_ cs
    · intro c cs d ds hc hd
      rw [List.isPrefixOf, List.isPrefixOf, hne hc, hne hd, Bool.false_and, Bool.false_and]
    · intro c cs _
      have hfirst : (x == f.char c) = (x == c) := by
        rw [Bool.eq_iff_iff, beq_iff_eq, beq_iff_eq, eq_comm, f.char_eq_iff hx, eq_comm]
      rw [List.isPrefixOf, List.isPrefixOf, hfirst, ih]

theorem isPrefixOf_opener (style : BlockStyle) (cs : List Char) :
    style.opener.isPrefixOf (f.chars cs) = style.opener.isPrefixOf cs :=
  f.isPrefixOf_chars (isMark_opener (.block style)) cs

theorem isPrefixOf_closer (style : BlockStyle) (cs : List Char) :
    style.closer.isPrefixOf (f.chars cs) = style.closer.isPrefixOf cs :=
  f.isPrefixOf_chars (isMark_closer style) cs

/-- A line end belongs to no mark. -/
theorem closerFrom_cons_of_isLineEnd (style : BlockStyle) (nested : Bool) (depth before : Nat)
    {c : Char} (h : isLineEnd c = true) (cs : List Char) :
    style.closerFrom nested depth 0 before (c :: cs)
      = style.closerFrom nested depth 0 (before + 1) cs := by
  have hc : c = '\n' ∨ c = '\r' := by simpa [isLineEnd] using h
  have hcloser : style.closer.isPrefixOf (c :: cs) = false := by
    rcases hc with rfl | rfl <;> cases style <;> rfl
  have hopener : style.opener.isPrefixOf (c :: cs) = false := by
    rcases hc with rfl | rfl <;> cases style <;> rfl
  rw [closerFrom_of_closer_eq_false hcloser, if_neg (by simp [hopener])]

/-- What follows the first character of a mark stands on its line. -/
theorem inline_of_isPrefixOf {mark : List Char} (hmark : IsMark mark) {c : Char}
    {cs : List Char} (h : mark.isPrefixOf (c :: cs) = true) : Inline cs (mark.length - 1) := by
  cases mark with
  | nil => exact inline_zero cs
  | cons x mark =>
    obtain ⟨rest, hrest⟩ := List.isPrefixOf_iff_prefix.mp h
    rw [List.cons_append] at hrest
    obtain ⟨rfl, rfl⟩ := List.cons.inj hrest
    intro y hy
    rw [List.length_cons, Nat.add_sub_cancel, List.take_left] at hy
    exact (hmark y (List.mem_cons_of_mem x hy)).2

/-- The first character of a text is respelled on its own, unless it is the
    first half of a line end. -/
theorem length_chars_take_cons {c : Char} {cs : List Char}
    (hwhole : c = '\r' → cs.head? ≠ some '\n') (n : Nat) :
    (f.chars ((c :: cs).take (n + 1))).length = (f.chars (cs.take n)).length + 1 := by
  have htake : c = '\r' → (cs.take n).head? ≠ some '\n' := by
    intro hreturn hfeed
    refine hwhole hreturn ?_
    rw [List.head?_take] at hfeed
    split at hfeed
    · cases hfeed
    · exact hfeed
  rw [List.take_succ_cons, f.chars_cons htake, List.length_cons]

/-- A comment in a respelled text ends at the same closer. -/
theorem closerFrom_chars (style : BlockStyle) (nested : Bool) (depth skip : Nat) (cs : List Char)
    (hskip : Inline cs skip) :
    style.closerFrom nested depth skip 0 (f.chars cs)
      = (style.closerFrom nested depth skip 0 cs).map fun n => (f.chars (cs.take n)).length := by
  fun_induction chars f cs generalizing depth skip with
  | case1 => cases skip <;> rfl
  | case2 cs hfeeds ih =>
    cases skip with
    | succ skip => cases hskip '\r' (by simp)
    | zero =>
      rw [closerFrom_cons_of_isLineEnd _ _ _ _ rfl, closerFrom_cons_of_isLineEnd _ _ _ _ rfl,
        closerFrom_cons_of_isLineEnd _ _ _ _ rfl, closerFrom_add, ih _ _ (inline_zero cs),
        Nat.add_assoc, closerFrom_add, Option.map_map, Option.map_map]
      congr 1
      funext n
      simp [chars, hfeeds]
  | case3 cs hfeeds ih =>
    cases skip with
    | succ skip => cases hskip '\r' (by simp)
    | zero =>
      rw [closerFrom_cons_of_isLineEnd _ _ _ _ rfl, closerFrom_cons_of_isLineEnd _ _ _ _ rfl,
        closerFrom_cons_of_isLineEnd _ _ _ _ rfl, closerFrom_cons_of_isLineEnd _ _ _ _ rfl,
        Nat.add_assoc, closerFrom_add, ih _ _ (inline_zero cs), closerFrom_add, Option.map_map,
        Option.map_map]
      congr 1
      funext n
      simp [chars, hfeeds]
  | case4 c cs hpair ih =>
    have hwhole : c = '\r' → cs.head? ≠ some '\n' := by
      rintro rfl hfeed
      obtain ⟨rest, rfl⟩ := List.head?_eq_some_iff.mp hfeed
      exact hpair rest rfl rfl
    have hchars : f.chars (c :: cs) = f.single c :: f.chars cs := f.chars_cons hwhole
    -- The search passes the first character on both sides.
    have hpass (depth skip : Nat) (h : Inline cs skip) :
        style.closerFrom nested depth skip (0 + 1) (f.chars cs)
          = (style.closerFrom nested depth skip (0 + 1) cs).map
              fun n => (f.chars ((c :: cs).take n)).length := by
      rw [closerFrom_add, closerFrom_add, ih depth skip h, Option.map_map, Option.map_map]
      congr 1
      funext n
      exact (f.length_chars_take_cons hwhole n).symm
    cases skip with
    | succ skip =>
      rw [BlockStyle.closerFrom, BlockStyle.closerFrom]
      exact hpass depth skip fun x hx => hskip x (by simp [hx])
    | zero =>
      cases hcloser : style.closer.isPrefixOf (c :: cs) with
      | true =>
        have hcloser' : style.closer.isPrefixOf (f.single c :: f.chars cs) = true := by
          rw [← hchars, f.isPrefixOf_closer, hcloser]
        cases depth with
        | zero =>
          rw [BlockStyle.closerFrom, BlockStyle.closerFrom, if_pos hcloser, if_pos hcloser']
          rfl
        | succ depth =>
          rw [BlockStyle.closerFrom, BlockStyle.closerFrom, if_pos hcloser, if_pos hcloser']
          exact hpass _ _ (inline_of_isPrefixOf (isMark_closer style) hcloser)
      | false =>
        have hcloser' : style.closer.isPrefixOf (f.single c :: f.chars cs) = false := by
          rw [← hchars, f.isPrefixOf_closer, hcloser]
        rw [closerFrom_of_closer_eq_false hcloser, closerFrom_of_closer_eq_false hcloser', ← hchars,
          f.isPrefixOf_opener]
        split
        · next hopener =>
          have hmark := (Bool.and_eq_true_iff.mp hopener).2
          exact hpass _ _ (inline_of_isPrefixOf (isMark_opener (.block style)) hmark)
        · exact hpass _ _ (inline_zero cs)

/-- A comment with its body respelled. -/
def comment (k : Comment) : Comment :=
  { k with body := f.chars k.body }

/-- What stands before a closer is respelled on its own. -/
theorem take_length_chars {style : BlockStyle} {nested : Bool} {depth skip n : Nat}
    {cs : List Char} (h : style.closerFrom nested depth skip 0 cs = some n) :
    (f.chars cs).take (f.chars (cs.take n)).length = f.chars (cs.take n) := by
  obtain ⟨_, rest, hrest⟩ := closer_prefix_of_closerFrom h
  rw [Nat.sub_zero] at hrest
  have hwhole : (cs.take n).getLast? = some '\r' → (cs.drop n).head? ≠ some '\n' := by
    rw [← hrest]
    cases style <;> simp [BlockStyle.closer]
  have hchars : f.chars cs = f.chars (cs.take n) ++ f.chars (cs.drop n) := by
    rw [← f.chars_append hwhole, List.take_append_drop]
  rw [hchars, List.take_left]

theorem blockComment_chars (style : BlockStyle) (nested : Bool) (cs : List Char) :
    blockComment style nested (f.chars cs) = f.comment (blockComment style nested cs) := by
  unfold blockComment BlockStyle.closerAt
  rw [f.closerFrom_chars style nested 0 0 cs (inline_zero cs)]
  cases hcloser : style.closerFrom nested 0 0 0 cs with
  | none => rfl
  | some n =>
    simp only [Option.map_some, comment, f.take_length_chars hcloser]

theorem lineComment_chars (cs : List Char) :
    lineComment (f.chars cs) = f.comment (lineComment cs) := by
  have hcase : f.IgnoresCase fun c => !isLineEnd c :=
    fun c => congrArg Bool.not (f.isLineEnd_char c)
  have hbody : ∀ c ∈ cs.takeWhile fun c => !isLineEnd c, isLineEnd c = false := by
    intro c hc
    simpa using List.all_eq_true.mp List.all_takeWhile c hc
  rw [lineComment, lineComment, comment, f.takeWhile_chars hcase ⟨rfl, rfl⟩,
    f.chars_of_inline hbody]

/-- A kind of lexeme with the comment in it respelled. -/
def kind : LexemeKind → LexemeKind
  | .comment k => .comment (f.comment k)
  | .directive k => .directive (f.comment k)
  | other => other

theorem commentKind_comment (k : Comment) : commentKind (f.comment k) = f.kind (commentKind k) := by
  have hmark := f.head?_chars_eq_some_iff (x := '$') rfl rfl k.body
  obtain ⟨style, body, closed⟩ := k
  cases style with
  | line => rfl
  | block style =>
    by_cases hdollar : body.head? = some '$'
    · obtain ⟨rest, hrest⟩ := List.head?_eq_some_iff.mp (hmark.mpr hdollar)
      obtain ⟨rest', rfl⟩ := List.head?_eq_some_iff.mp hdollar
      simp only [comment, commentKind, hrest, kind]
    · have hplain {body : List Char} (h : body.head? ≠ some '$') (closed : Bool) :
          commentKind ⟨.block style, body, closed⟩ = .comment ⟨.block style, body, closed⟩ := by
        unfold commentKind
        split
        · next heq =>
          simp only at heq
          rw [heq] at h
          exact absurd rfl h
        · rfl
      rw [comment, hplain (mt hmark.mp hdollar), hplain hdollar]
      rfl

/-- A comment is respelled as a whole when its body is. -/
theorem chars_comment (k : Comment) : (f.comment k).chars = f.chars k.chars := by
  have hopener : k.style.opener.getLast? = some '\r' → k.body.head? ≠ some '\n' := by
    intro hlast
    cases (isMark_opener k.style '\r' (List.mem_of_getLast? hlast)).2
  have hclosing :
      (k.style.opener ++ k.body).getLast? = some '\r' → k.closing.head? ≠ some '\n' := by
    intro _ hhead
    cases (isMark_closing k '\n' (List.mem_of_head? hhead)).2
  rw [Comment.chars, Comment.chars, f.chars_append hclosing, f.chars_append hopener,
    f.chars_of_isMark (isMark_opener k.style), f.chars_of_isMark (isMark_closing k)]
  rfl

/-! ### One lexeme -/

theorem ofWord?_map_char (cs : List Char) :
    Keyword.ofWord? (String.ofList (cs.map f.char)) = Keyword.ofWord? (String.ofList cs) := by
  have hlower : Char.toLower ∘ f.char = Char.toLower := by
    funext c
    rcases f.char_eq c with hsame | hlow
    · rw [Function.comp_apply, hsame]
    · rw [Function.comp_apply, hlow, toLower_toLower]
  have hword (word : String) :
      sameWord (String.ofList (cs.map f.char)) word = sameWord (String.ofList cs) word := by
    rw [sameWord, sameWord, String.toList_ofList, String.toList_ofList, List.map_map, hlower]
  simp only [Keyword.ofWord?, hword]

theorem pairSymbols_contains (c : Char) (cs : List Char) :
    ((f.chars cs).head?.any fun d => pairSymbols.contains (f.char c, d))
      = cs.head?.any fun d => pairSymbols.contains (c, d) := by
  have hmarks : ∀ pair ∈ pairSymbols, pair.1.isAlpha = false ∧ pair.2.isAlpha = false ∧
      isLineEnd pair.2 = false := by decide
  have hfirst (d : Char) : pairSymbols.contains (f.char c, d) = pairSymbols.contains (c, d) := by
    rw [Bool.eq_iff_iff, List.contains_iff_mem, List.contains_iff_mem]
    constructor
    · intro h
      have hc : c = f.char c := (f.char_eq_iff (hmarks _ h).1).mp rfl
      rwa [hc]
    · intro h
      rwa [f.char_of_isAlpha_eq_false (hmarks _ h).1]
  have hsecond : f.IgnoresCase fun d => pairSymbols.contains (c, d) := by
    intro d
    rw [Bool.eq_iff_iff, List.contains_iff_mem, List.contains_iff_mem]
    constructor
    · intro h
      have hd : d = f.char d := (f.char_eq_iff (hmarks _ h).2.1).mp rfl
      rwa [hd]
    · intro h
      rwa [f.char_of_isAlpha_eq_false (hmarks _ h).2.1]
  have hends {d : Char} (hd : isLineEnd d = true) : pairSymbols.contains (c, d) = false := by
    rw [Bool.eq_false_iff, ne_eq, List.contains_iff_mem]
    intro h
    rw [(hmarks _ h).2.2] at hd
    cases hd
  simp only [hfirst]
  exact f.head?_any_chars hsecond ⟨hends rfl, hends rfl⟩ cs

/-- Two cuts off a text and off its respelling, with `cs` after the first
    character of the text: the kind, what is taken and what is left are those
    of the text, respelled. -/
structure CutsAlike (cs : List Char) (a b : LexemeKind × Nat) : Prop where
  /-- The kind is respelled. -/
  kind : b.1 = f.kind a.1
  /-- What is taken is respelled. -/
  taken : (f.chars cs).take b.2 = f.chars (cs.take a.2)
  /-- What is left is respelled. -/
  left : (f.chars cs).drop b.2 = f.chars (cs.drop a.2)

namespace CutsAlike

variable {f} {cs : List Char}

theorem ite {p q : Prop} [Decidable p] [Decidable q] {a b a' b' : LexemeKind × Nat} (hpq : q ↔ p)
    (ha : p → f.CutsAlike cs a a') (hb : ¬p → f.CutsAlike cs b b') :
    f.CutsAlike cs (if p then a else b) (if q then a' else b') := by
  by_cases hp : p
  · rw [if_pos hp, if_pos (hpq.mpr hp)]
    exact ha hp
  · rw [if_neg hp, if_neg (mt hpq.mp hp)]
    exact hb hp

theorem of_inline {kind kind' : LexemeKind} {n n' : Nat} (hkind : kind' = f.kind kind)
    (hn : n' = n) (h : Inline cs n) : f.CutsAlike cs (kind, n) (kind', n') := by
  subst hn
  refine ⟨hkind, ?_, f.drop_chars h⟩
  rw [f.take_chars h, f.chars_of_inline h]

theorem of_run {p : Char → Bool} (hp : f.IgnoresCase p) (hends : RefusesLineEnds p)
    {kind : LexemeKind} (hkind : kind = f.kind kind) :
    f.CutsAlike cs (kind, runLength p cs) (kind, runLength p (f.chars cs)) :=
  of_inline hkind (f.runLength_chars hp hends cs) (inline_runLength hends cs)

theorem of_comment {c : Char} {inner rest : List Char} {k : Comment} (hc : isLineEnd c = false)
    (hopener : c :: cs = k.style.opener ++ inner) (hreads : Reads k inner rest) :
    f.CutsAlike cs (commentCut k) (commentCut (f.comment k)) := by
  have hsplit : c :: cs = k.chars ++ rest := by
    rw [hopener, hreads.text, Comment.chars]
    simp only [List.append_assoc]
  obtain ⟨tail, htail⟩ : ∃ tail, k.chars = c :: tail := by
    cases hchars : k.chars with
    | nil =>
      -- A comment has at least its opener.
      have hnil : k.style.opener = [] := by
        rw [Comment.chars, List.append_assoc] at hchars
        exact (List.append_eq_nil_iff.mp hchars).1
      rcases hk : k.style with (_ | _) | _ <;> rw [hk] at hnil <;> cases hnil
    | cons d tail =>
      rw [hchars, List.cons_append] at hsplit
      exact ⟨tail, by rw [(List.cons.inj hsplit).1]⟩
  have hcs : cs = tail ++ rest := by
    rw [htail, List.cons_append] at hsplit
    exact (List.cons.inj hsplit).2
  have hwhole : tail.getLast? = some '\r' → rest.head? ≠ some '\n' := by
    intro hlast hhead
    refine hreads.getLast?_chars_ne (List.ne_nil_of_mem (List.mem_of_head? hhead)) ?_
    rw [htail, List.getLast?_cons, hlast]
    rfl
  have hchars : f.chars cs = f.chars tail ++ f.chars rest := by
    rw [hcs, f.chars_append hwhole]
  have hlength : (commentCut k).2 = tail.length := by
    rw [commentCut, htail, List.length_cons, Nat.add_sub_cancel]
  have hlength' : (commentCut (f.comment k)).2 = (f.chars tail).length := by
    rw [commentCut, f.chars_comment, htail, f.chars_cons_of_isLineEnd_eq_false hc, List.length_cons,
      Nat.add_sub_cancel]
  refine ⟨f.commentKind_comment k, ?_, ?_⟩
  · rw [hlength', hlength, hchars, hcs, List.take_left, List.take_left]
  · rw [hlength', hlength, hchars, hcs, List.drop_left, List.drop_left]

end CutsAlike

/-- The first lexeme of a text and the first lexeme of its respelling, unless
    they are line ends. -/
theorem cutsAlike_cut (nested : Bool) {c : Char} (hc : isLineEnd c = false) (cs : List Char) :
    f.CutsAlike cs (cut nested c cs) (cut nested (f.char c) (f.chars cs)) := by
  have hc' : isLineEnd (f.char c) = false := by rw [f.isLineEnd_char, hc]
  have hreturn {c : Char} (h : isLineEnd c = false) {p : Prop} : ¬(c = '\r' ∧ p) := by
    rintro ⟨rfl, _⟩
    cases h
  have hmark {x : Char} (hx : x.isAlpha = false) (p : Char → Bool) (hp : f.IgnoresCase p)
      (hends : RefusesLineEnds p) :
      f.char c = x ∧ (f.chars cs).head?.any p = true ↔ c = x ∧ cs.head?.any p = true := by
    rw [f.char_eq_iff hx, f.head?_any_chars hp hends]
  have hpair {x y : Char} (hx : x.isAlpha = false) (hy : y.isAlpha = false)
      (hend : isLineEnd y = false) :
      f.char c = x ∧ (f.chars cs).head? = some y ↔ c = x ∧ cs.head? = some y := by
    rw [f.char_eq_iff hx, f.head?_chars_eq_some_iff hy hend]
  unfold cut
  simp only [hc, hc', hreturn hc, hreturn hc', if_false, Bool.false_eq_true]
  refine .ite (by rw [f.ignoresCase_isGap]) (fun _ => ?_) (fun _ => ?_)
  · exact .of_run f.ignoresCase_isGap ⟨rfl, rfl⟩ rfl
  -- The three comments.
  refine .ite (f.char_eq_iff rfl) (fun hbrace => ?_) (fun _ => ?_)
  · obtain ⟨rest, hreads⟩ := reads_blockComment .brace nested cs
    subst hbrace
    rw [f.blockComment_chars]
    exact .of_comment hc (blockComment_style .brace nested cs ▸ rfl) hreads
  refine .ite (hpair rfl rfl rfl) (fun hparen => ?_) (fun _ => ?_)
  · obtain ⟨rfl, hstar⟩ := hparen
    obtain ⟨inner, rfl⟩ := List.head?_eq_some_iff.mp hstar
    obtain ⟨rest, hreads⟩ := reads_blockComment .parenStar nested inner
    rw [f.chars_cons_of_isLineEnd_eq_false rfl, List.tail_cons, List.tail_cons,
      f.blockComment_chars]
    exact .of_comment hc (blockComment_style .parenStar nested inner ▸ rfl) hreads
  refine .ite (hpair rfl rfl rfl) (fun hslash => ?_) (fun _ => ?_)
  · obtain ⟨rfl, hnext⟩ := hslash
    obtain ⟨inner, rfl⟩ := List.head?_eq_some_iff.mp hnext
    rw [f.chars_cons_of_isLineEnd_eq_false rfl, List.tail_cons, List.tail_cons,
      f.lineComment_chars]
    exact .of_comment hc rfl (reads_lineComment inner)
  -- Everything else lies within one line.
  refine .ite (f.char_eq_iff rfl) (fun _ => ?_) (fun _ => ?_)
  · have hstring := inline_stringFrom 0 cs
    exact .of_inline (by rw [f.stringFrom_chars]; rfl) (by rw [f.stringFrom_chars]) hstring.2
  refine .ite (hmark rfl _ ?_ ⟨rfl, rfl⟩) (fun _ => ?_) (fun _ => ?_)
  · exact f.apply_char (p := fun d => d.isDigit || d == '$') (by decide)
  · exact .of_inline rfl (f.charCodeLength_chars cs) (inline_charCodeLength cs)
  refine .ite (hmark rfl _ f.ignoresCase_isNameStart ⟨rfl, rfl⟩) (fun _ => ?_) (fun _ => ?_)
  · exact .of_run f.ignoresCase_isNameRest ⟨rfl, rfl⟩ rfl
  refine .ite (hmark rfl _ f.ignoresCase_isOctalDigit ⟨rfl, rfl⟩) (fun _ => ?_) (fun _ => ?_)
  · exact .of_run f.ignoresCase_isOctalDigit.orUnderscore ⟨rfl, rfl⟩ rfl
  refine .ite (hmark rfl _ f.ignoresCase_isHexDigit ⟨rfl, rfl⟩) (fun _ => ?_) (fun _ => ?_)
  · exact .of_run f.ignoresCase_isHexDigit.orUnderscore ⟨rfl, rfl⟩ rfl
  refine .ite (hmark rfl _ f.ignoresCase_isBinaryDigit ⟨rfl, rfl⟩) (fun _ => ?_) (fun _ => ?_)
  · exact .of_run f.ignoresCase_isBinaryDigit.orUnderscore ⟨rfl, rfl⟩ rfl
  refine .ite (by rw [f.ignoresCase_isDigit]) (fun _ => ?_) (fun _ => ?_)
  · exact .of_inline rfl (f.decimalLength_chars cs) (inline_decimalLength cs)
  refine .ite (by rw [f.ignoresCase_isNameStart]) (fun _ => ?_) (fun _ => ?_)
  · have hin : Inline cs (runLength isNameRest cs) := inline_runLength ⟨rfl, rfl⟩ cs
    have hlength := f.runLength_chars f.ignoresCase_isNameRest ⟨rfl, rfl⟩ cs
    refine .of_inline ?_ hlength hin
    rw [hlength, f.take_chars hin, ← List.map_cons, f.ofWord?_map_char]
    rfl
  refine .ite (by rw [f.pairSymbols_contains]) (fun hsymbol => ?_) (fun _ => ?_)
  · exact .of_inline rfl rfl (inline_pairSymbol hsymbol)
  · exact .of_inline rfl rfl (inline_zero cs)

theorem cut_pair (nested : Bool) (cs : List Char) :
    cut nested '\r' ('\n' :: cs) = (.newline, 1) := by
  rw [cut, if_pos (by simp)]

theorem cut_of_isLineEnd (nested : Bool) {c : Char} {cs : List Char} (hend : isLineEnd c = true)
    (hwhole : c = '\r' → cs.head? ≠ some '\n') : cut nested c cs = (.newline, 0) := by
  rw [cut, if_neg (fun h => hwhole h.1 h.2), if_pos hend]

/-- The first lexeme of a text and the first lexeme of its respelling. -/
theorem exists_cut_chars (nested : Bool) (c : Char) (cs : List Char) :
    ∃ c' cs', f.chars (c :: cs) = c' :: cs' ∧
      (cut nested c' cs').1 = f.kind (cut nested c cs).1 ∧
      c' :: cs'.take (cut nested c' cs').2 = f.chars (c :: cs.take (cut nested c cs).2) ∧
      cs'.drop (cut nested c' cs').2 = f.chars (cs.drop (cut nested c cs).2) := by
  cases hend : isLineEnd c with
  | false =>
    have halike := f.cutsAlike_cut nested hend cs
    refine ⟨f.char c, f.chars cs, f.chars_cons_of_isLineEnd_eq_false hend cs, halike.kind, ?_,
      halike.left⟩
    rw [halike.taken, f.chars_cons_of_isLineEnd_eq_false hend]
  | true =>
    by_cases hpair : c = '\r' ∧ cs.head? = some '\n'
    · obtain ⟨rfl, hfeed⟩ := hpair
      obtain ⟨rest, rfl⟩ := List.head?_eq_some_iff.mp hfeed
      rw [cut_pair, chars]
      split
      · next hfeeds =>
        refine ⟨'\n', f.chars rest, rfl, ?_⟩
        rw [cut_of_isLineEnd nested rfl (fun h => absurd h (by decide))]
        exact ⟨rfl, by simp [chars, hfeeds], rfl⟩
      · next hfeeds =>
        refine ⟨'\r', '\n' :: f.chars rest, rfl, ?_⟩
        rw [cut_pair]
        exact ⟨rfl, by simp [chars, hfeeds], rfl⟩
    · have hwhole : c = '\r' → cs.head? ≠ some '\n' := fun h h' => hpair ⟨h, h'⟩
      refine ⟨f.single c, f.chars cs, f.chars_cons hwhole, ?_⟩
      rw [cut_of_isLineEnd nested hend hwhole,
        cut_of_isLineEnd nested (by rw [f.isLineEnd_single, hend]) (f.head?_chars_ne hwhole)]
      refine ⟨rfl, ?_, rfl⟩
      rw [List.take_zero, List.take_zero, f.chars_cons (by simp), chars_nil]

/-- A token stands on one line. -/
theorem isLineEnd_eq_false_of_cuts {c : Char} {cs : List Char} {kind : LexemeKind} {n : Nat}
    (h : Cuts c cs kind n) (htoken : kind.isTrivia = false) :
    ∀ x ∈ c :: cs.take n, isLineEnd x = false := by
  cases h with
  | newline n whole => cases htoken
  | comment k n inner chars reads =>
    rw [show (commentKind k).isTrivia = true from isTrivia_commentCut k] at htoken
    cases htoken
  | inline kind n plain first others => exact List.forall_mem_cons.mpr ⟨first, others⟩

/-- A symbol is a mark. -/
theorem isMark_of_cut {nested : Bool} {c : Char} {cs : List Char} {n : Nat}
    (h : cut nested c cs = (.symbol, n)) : IsMark (c :: cs.take n) := by
  have hinline : ∀ x ∈ c :: cs.take n, isLineEnd x = false :=
    isLineEnd_eq_false_of_cuts (cuts_of_cut h) rfl
  have hmarks : ∀ pair ∈ pairSymbols, pair.2.isAlpha = false := by decide
  suffices halpha : ∀ x ∈ c :: cs.take n, x.isAlpha = false from
    fun x hx => ⟨halpha x hx, hinline x hx⟩
  have hno {x : LexemeKind × Nat} {P : Prop} (hx : x.1 ≠ .symbol) (h : x = (.symbol, n)) : P :=
    absurd (congrArg Prod.fst h) hx
  have hcomment (k : Comment) : (commentCut k).1 ≠ .symbol := by
    rcases commentKind_eq k with hkind | hkind <;> simp [commentCut, hkind]
  unfold cut at h
  dsimp only at h
  -- Everything that is tried before the symbols is a lexeme of another kind.
  refine of_ite_eq h (fun _ => hno (by simp)) (fun h => ?_)
  refine of_ite_eq h (fun _ => hno (by simp)) (fun h => ?_)
  refine of_ite_eq h (fun _ => hno (by simp)) (fun h => ?_)
  refine of_ite_eq h (fun _ => hno (hcomment _)) (fun h => ?_)
  refine of_ite_eq h (fun _ => hno (hcomment _)) (fun h => ?_)
  refine of_ite_eq h (fun _ => hno (hcomment _)) (fun h => ?_)
  refine of_ite_eq h (fun _ => hno (by simp)) (fun h => ?_)
  refine of_ite_eq h (fun _ => hno (by simp)) (fun h => ?_)
  refine of_ite_eq h (fun _ => hno (by simp)) (fun h => ?_)
  refine of_ite_eq h (fun _ => hno (by simp)) (fun h => ?_)
  refine of_ite_eq h (fun _ => hno (by simp)) (fun h => ?_)
  refine of_ite_eq h (fun _ => hno (by simp)) (fun h => ?_)
  refine of_ite_eq h (fun _ => hno (by simp)) (fun h => ?_)
  by_cases hname : isNameStart c = true
  · rw [if_pos hname] at h
    exact hno (by simp [nameCut]) h
  have hfirst : c.isAlpha = false := by
    simp only [isNameStart, Bool.or_eq_true, not_or, Bool.not_eq_true] at hname
    exact hname.1.1
  rw [if_neg hname] at h
  refine of_ite_eq h (fun hpair h => ?_) (fun h => ?_)
  · obtain rfl : 1 = n := congrArg Prod.snd h
    cases cs with
    | nil => cases hpair
    | cons d cs =>
      have hd : d.isAlpha = false := hmarks (c, d) (List.elem_iff.mp hpair)
      simp [hfirst, hd]
  · obtain rfl : 0 = n := congrArg Prod.snd h
    simp [hfirst]

/-! ### Places -/

theorem after_cons_of_isLineEnd {c : Char} {cs : List Char} (hend : isLineEnd c = true)
    (hwhole : c = '\r' → cs.head? ≠ some '\n') (a : Location) :
    a.after (c :: cs) = (a.nextLine 1).after cs := by
  rw [Location.after, if_pos (by simpa [isLineEnd] using hend)]
  rintro rest rfl rfl
  exact hwhole rfl rfl

theorem after_cons_of_isLineEnd_eq_false {c : Char} (h : isLineEnd c = false) (cs : List Char)
    (a : Location) : a.after (c :: cs) = (a.nextColumn c).after cs := by
  have hne : ¬(c = '\n' ∨ c = '\r') := by simpa [isLineEnd] using h
  rw [Location.after, if_neg hne]
  rintro rest rfl rfl
  exact hne (.inr rfl)

/-- A respelled text has its lines and columns where the text has them. -/
theorem after_chars {a a' : Location} (hline : a'.line = a.line) (hcolumn : a'.column = a.column)
    (cs : List Char) :
    (a'.after (f.chars cs)).line = (a.after cs).line ∧
      (a'.after (f.chars cs)).column = (a.after cs).column := by
  fun_induction chars f cs generalizing a a' with
  | case1 => exact ⟨hline, hcolumn⟩
  | case2 cs hfeeds ih =>
    rw [after_cons_of_isLineEnd rfl (fun h => absurd h (by decide)), Location.after]
    refine ih ?_ rfl
    exact congrArg (· + 1) hline
  | case3 cs hfeeds ih =>
    rw [Location.after, Location.after]
    refine ih ?_ rfl
    exact congrArg (· + 1) hline
  | case4 c cs hpair ih =>
    have hwhole : c = '\r' → cs.head? ≠ some '\n' := by
      rintro rfl hfeed
      obtain ⟨rest, rfl⟩ := List.head?_eq_some_iff.mp hfeed
      exact hpair rest rfl rfl
    have hends := f.isLineEnd_single c
    cases hend : isLineEnd c with
    | true =>
      rw [hend] at hends
      rw [after_cons_of_isLineEnd hends (f.head?_chars_ne hwhole),
        after_cons_of_isLineEnd hend hwhole]
      refine ih ?_ rfl
      exact congrArg (· + 1) hline
    | false =>
      rw [hend] at hends
      rw [after_cons_of_isLineEnd_eq_false hends, after_cons_of_isLineEnd_eq_false hend]
      refine ih hline ?_
      exact congrArg (· + 1) hcolumn

/-- A place in a source and the same place in the respelled source. -/
structure SamePlace (source : List Char) (a a' : Location) : Prop where
  /-- They are on the same line. -/
  line : a'.line = a.line
  /-- They are in the same column. -/
  column : a'.column = a.column
  /-- The one text before them is the other one respelled. -/
  offset : ∃ pre post, source = pre ++ post ∧ a.offset = Lexeme.byteLength pre ∧
    a'.offset = Lexeme.byteLength (f.chars pre)

/-! ### All lexemes -/

/-- A lexeme of a source and the lexeme of the respelled source for it. -/
structure Respells (source : List Char) (l l' : Lexeme) : Prop where
  /-- The kind is respelled. -/
  kind : l'.kind = f.kind l.kind
  /-- The text is respelled. -/
  text : l'.text.toList = f.chars l.text.toList
  /-- They begin at the same place. -/
  start : f.SamePlace source l.start l'.start
  /-- They end at the same place. -/
  stop : f.SamePlace source l.stop l'.stop
  /-- A token stands on one line. -/
  inline : l.isTrivia = false → ∀ x ∈ l.text.toList, isLineEnd x = false
  /-- A symbol is a mark. -/
  symbol : l.kind = .symbol → IsMark l.text.toList

/-- The lexemes of a respelled text are those of the text, respelled. The
    induction follows the lexer; `pre` is all that was cut off so far. -/
theorem respells_lexFrom {source cs : List Char} (pre : List Char) (nested : Bool)
    {start start' : Location}
    (hsource : source = pre ++ cs) (hwhole : pre.getLast? = some '\r' → cs.head? ≠ some '\n')
    (hline : start'.line = start.line) (hcolumn : start'.column = start.column)
    (hstart : start.offset = Lexeme.byteLength pre)
    (hstart' : start'.offset = Lexeme.byteLength (f.chars pre)) :
    List.Forall₂ (f.Respells source) (lexFrom nested start cs)
      (lexFrom nested start' (f.chars cs)) := by
  -- The text before the place is carried along: what is respelled up to the
  -- place and from there on is the respelled source only as long as no line
  -- end of two characters is parted.
  fun_induction lexFrom nested start cs generalizing pre start' with
  | case1 =>
    rw [chars, lexFrom]
    exact .nil
  | case2 start c cs kind n hcut piece =>
    rename_i stop ih
    obtain ⟨c', cs', hchars, hkind, htaken, hleft⟩ := f.exists_cut_chars nested c cs
    have hcuts := cuts_of_cut hcut
    rw [hcut] at hkind htaken hleft
    rw [hchars, lexFrom]
    have hsplit : source = pre ++ piece ++ cs.drop n := by
      rw [hsource, List.append_assoc, List.cons_append, List.take_append_drop]
    have hpiece : pre.getLast? = some '\r' → piece.head? ≠ some '\n' := hwhole
    have hrest : (pre ++ piece).getLast? = some '\r' → (cs.drop n).head? ≠ some '\n' := by
      rw [List.getLast?_append_of_ne_nil _ (List.cons_ne_nil _ _)]
      exact hcuts.whole
    have hstop : stop.offset = Lexeme.byteLength (pre ++ piece) := by
      rw [Location.offset_after, hstart, byteLength_append]
    have hstop' : (start'.after (f.chars piece)).offset
        = Lexeme.byteLength (f.chars (pre ++ piece)) := by
      rw [Location.offset_after, hstart', f.chars_append hpiece, byteLength_append]
    obtain ⟨hstopLine, hstopColumn⟩ := f.after_chars hline hcolumn piece
    simp only [htaken, hleft, hkind]
    refine .cons ?_ (ih (pre ++ piece) hsplit hrest hstopLine hstopColumn hstop hstop')
    constructor
    case kind => rfl
    case text => rw [String.toList_ofList, String.toList_ofList]
    case start => exact ⟨hline, hcolumn, pre, c :: cs, hsource, hstart, hstart'⟩
    case stop => exact ⟨hstopLine, hstopColumn, pre ++ piece, cs.drop n, hsplit, hstop, hstop'⟩
    case inline =>
      rw [String.toList_ofList]
      exact isLineEnd_eq_false_of_cuts hcuts
    case symbol =>
      rintro rfl
      rw [String.toList_ofList]
      exact isMark_of_cut hcut

/-- The lexemes of a respelled source are those of the source, respelled. -/
theorem respells_lex (nested : Bool) (source : String) :
    List.Forall₂ (f.Respells source.toList) (lex nested source) (lex nested (f.apply source)) := by
  rw [lex, lex, apply, String.toList_ofList]
  exact f.respells_lexFrom [] nested rfl (fun h => by cases h) rfl rfl rfl rfl

end PascalOutline.Respelling
