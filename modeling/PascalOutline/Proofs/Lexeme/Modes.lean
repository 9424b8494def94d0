import PascalOutline.Proofs.Lexeme.Extent

/-! # The modes of the lexer

  The lexer as an automaton: in code the next one or two characters choose a
  mode, and from a string or a comment only its end leads back to code. Inside
  of a block comment the marks of both styles are read, those of the comment
  to know where it ends, and those of the other style to know whether a closer
  of that style was mistaken for its own.

  `ahead_run_enter` says that the automaton leaves a string or comment where
  the lexer cuts it off. The marks of the other style are read, but they never
  change where that is.
-/

namespace PascalOutline.Lexer

/-- What the lexer is in the middle of. -/
inductive Mode where
  /-- Nothing. -/
  | code
  /-- A comment to the end of its line. -/
  | lineComment
  /-- A block comment, with `inner` comments of its style open inside of it. -/
  | blockComment (style : BlockStyle) (inner : Nat)
  /-- A string. -/
  | string
deriving DecidableEq, Repr

/-- The lexer between two characters. -/
structure Walk where
  /-- What it is in the middle of. -/
  mode : Mode
  /-- What it did not pass yet. -/
  ahead : List Char
  /-- The number of characters that it passed after the opening mark. -/
  passed : Nat := 0
  /-- Whether it passed the closing mark. -/
  closed : Bool := false
  /-- The number of comments of the other style that are open in a comment. -/
  quoted : Nat := 0
  /-- How many characters it had passed at the first closer of the other style
      that nothing opened. -/
  stray : Option Nat := none

namespace Walk

/-! ### One step -/

/-- Passes some characters. -/
def pass (w : Walk) (n : Nat) : Walk :=
  { w with ahead := w.ahead.drop n, passed := w.passed + n }

/-- Goes back to code without a closing mark. -/
def leave (w : Walk) : Walk :=
  { w with mode := .code }

/-- Goes back to code behind a closing mark. -/
def close (w : Walk) (mark : List Char) : Walk :=
  { w with mode := .code, closed := true, ahead := w.ahead.drop mark.length }

/-- One step to the end of a line. -/
def lineStep (w : Walk) : Walk :=
  if w.ahead.head?.all isLineEnd then w.leave else w.pass 1

/-- One step in a string. -/
def stringStep (w : Walk) : Walk :=
  match w.ahead with
  | '\'' :: '\'' :: _ => w.pass 2
  | '\'' :: _ => w.close ['\'']
  | _ => w.lineStep

/-- One step in a block comment. -/
def blockStep (nested : Bool) (style : BlockStyle) (inner : Nat) (w : Walk) : Walk :=
  if w.ahead = [] then w.leave
  else if style.closer <+: w.ahead then
    match inner with
    | 0 => w.close style.closer
    | inner + 1 => { w.pass style.closer.length with mode := .blockComment style inner }
  else if nested ∧ style.opener <+: w.ahead then
    { w.pass style.opener.length with mode := .blockComment style (inner + 1) }
  else if style.other.opener <+: w.ahead then
    { w.pass style.other.opener.length with quoted := w.quoted + 1 }
  else if style.other.closer <+: w.ahead then
    if 0 < w.quoted then { w.pass style.other.closer.length with quoted := w.quoted - 1 }
    else { w.pass style.other.closer.length with stray := w.stray.or (some w.passed) }
  else w.pass 1

/-- One step. -/
def step (nested : Bool) (w : Walk) : Walk :=
  match w.mode with
  | .code => w
  | .lineComment => w.lineStep
  | .blockComment style inner => w.blockStep nested style inner
  | .string => w.stringStep

/-! ### The way back to code -/

/-- How many steps may be left. -/
def work (w : Walk) : Nat :=
  if w.mode = .code then 0 else w.ahead.length + 1

theorem work_of_mode {w : Walk} (h : w.mode = .code) : w.work = 0 :=
  if_pos h

theorem work_le (w : Walk) : w.work ≤ w.ahead.length + 1 := by
  unfold work
  split
  · exact Nat.zero_le _
  · exact Nat.le_refl _

/-- A step that passes a character leaves less to do. -/
theorem work_lt {w w' : Walk} (hcode : w.mode ≠ .code) (hahead : w.ahead ≠ []) {n : Nat}
    (hn : 0 < n) (h : w'.ahead = w.ahead.drop n) : w'.work < w.work := by
  have hlength : 0 < w.ahead.length := List.length_pos_iff.mpr hahead
  have hle := w'.work_le
  rw [h, List.length_drop] at hle
  rw [work.eq_def w, if_neg hcode]
  omega

theorem work_lt_of_leave {w w' : Walk} (hcode : w.mode ≠ .code) (h : w'.mode = .code) :
    w'.work < w.work := by
  rw [work_of_mode h, work, if_neg hcode]
  exact Nat.succ_pos _

theorem work_lineStep {w : Walk} (hcode : w.mode ≠ .code) : w.lineStep.work < w.work := by
  unfold lineStep
  split
  · exact work_lt_of_leave hcode rfl
  · next hnext =>
    refine work_lt hcode ?_ Nat.one_pos rfl
    intro hnil
    exact hnext (by rw [hnil]; rfl)

theorem work_stringStep {w : Walk} (hcode : w.mode ≠ .code) : w.stringStep.work < w.work := by
  unfold stringStep
  split
  · next h => exact work_lt hcode (by rw [h]; exact List.cons_ne_nil _ _) Nat.two_pos rfl
  · exact work_lt_of_leave hcode rfl
  · exact work_lineStep hcode

theorem work_blockStep {w : Walk} (hcode : w.mode ≠ .code) (nested : Bool) (style : BlockStyle)
    (inner : Nat) : (w.blockStep nested style inner).work < w.work := by
  have hopener := style.opener_length_pos
  have hcloser := style.length_closer ▸ hopener
  have hother := style.other.opener_length_pos
  have hotherCloser := style.other.length_closer ▸ hother
  unfold blockStep
  split
  · exact work_lt_of_leave hcode rfl
  next hahead =>
  split
  · split
    · exact work_lt_of_leave hcode rfl
    · exact work_lt hcode hahead hcloser rfl
  split
  · exact work_lt hcode hahead hopener rfl
  split
  · exact work_lt hcode hahead hother rfl
  split
  · split
    · exact work_lt hcode hahead hotherCloser rfl
    · exact work_lt hcode hahead hotherCloser rfl
  · exact work_lt hcode hahead Nat.one_pos rfl

theorem work_step {w : Walk} (hcode : w.mode ≠ .code) (nested : Bool) :
    (w.step nested).work < w.work := by
  unfold step
  split
  · next h => exact absurd h hcode
  · exact work_lineStep hcode
  · exact work_blockStep hcode nested _ _
  · exact work_stringStep hcode

/-- Takes steps until the lexer is back in code. -/
def run (nested : Bool) (w : Walk) : Walk :=
  if w.mode = .code then w else run nested (w.step nested)
termination_by w.work
decreasing_by exact work_step ‹_› nested

/-- Every string and comment leads back to code. -/
theorem mode_run (nested : Bool) (w : Walk) : (w.run nested).mode = .code := by
  fun_induction run nested w with
  | case1 w h => exact h
  | case2 w h ih => exact ih

/-! ### Where it ends -/

/-- What a block comment leaves of a text, and whether it has a closer. -/
def blockGoal (style : BlockStyle) (closed : Bool) (ahead : List Char) :
    Option Nat → List Char × Bool
  | some n => (ahead.drop (n + style.closer.length), true)
  | none => ([], closed)

/-- What is left behind a string or comment, and whether it has a closing mark,
    as the lexer finds them. -/
def goal (nested : Bool) (w : Walk) : List Char × Bool :=
  match w.mode with
  | .code => (w.ahead, w.closed)
  | .lineComment => (w.ahead.dropWhile fun c => !isLineEnd c, w.closed)
  | .blockComment style inner =>
    blockGoal style w.closed w.ahead (style.closerFrom nested inner 0 0 w.ahead)
  | .string =>
    (w.ahead.drop (stringFrom 0 w.ahead).1, (stringFrom 0 w.ahead).2 || w.closed)

section Goal

variable {nested : Bool} {style : BlockStyle} {inner : Nat} {w : Walk}

theorem goal_of_code (h : w.mode = .code) : w.goal nested = (w.ahead, w.closed) := by
  rw [goal, h]

theorem goal_of_block (h : w.mode = .blockComment style inner) :
    w.goal nested
      = blockGoal style w.closed w.ahead (style.closerFrom nested inner 0 0 w.ahead) := by
  rw [goal, h]

theorem goal_of_string (h : w.mode = .string) :
    w.goal nested
      = (w.ahead.drop (stringFrom 0 w.ahead).1, (stringFrom 0 w.ahead).2 || w.closed) := by
  rw [goal, h]

theorem goal_lineStep (hmode : w.mode = .lineComment) :
    w.lineStep.goal nested = w.goal nested := by
  obtain ⟨mode, ahead, passed, closed, quoted, stray⟩ := w
  obtain rfl : mode = .lineComment := hmode
  cases ahead with
  | nil => rfl
  | cons c cs =>
    cases hend : isLineEnd c with
    | true => simp [lineStep, leave, goal, hend]
    | false => simp [lineStep, pass, goal, hend]

/-- A string goes on behind characters that do not end it. -/
theorem goal_pass_of_string (hmode : w.mode = .string) {n : Nat}
    (hstring : stringFrom 0 w.ahead = stringFrom (0 + n) (w.ahead.drop n)) :
    (w.pass n).goal nested = w.goal nested := by
  rw [stringFrom_add] at hstring
  rw [goal_of_string hmode, hstring, goal_of_string (w := w.pass n) hmode]
  show ((w.ahead.drop n).drop _, _) = _
  rw [List.drop_drop, Nat.add_comm n]
  rfl

theorem goal_stringStep (hmode : w.mode = .string) : w.stringStep.goal nested = w.goal nested := by
  unfold stringStep
  split
  · next cs hahead =>
    refine goal_pass_of_string hmode ?_
    rw [hahead, stringFrom]
    rfl
  · next cs hsingle hahead =>
    have hquote : stringFrom 0 w.ahead = (1, true) := by
      rw [hahead, stringFrom_quote]
      cases cs with
      | nil => rfl
      | cons d cs =>
        have hd : d ≠ '\'' := by
          rintro rfl
          exact hsingle cs rfl
        simpa using hd
    rw [goal_of_code rfl, goal_of_string hmode, hquote]
    rfl
  · next hpair hquote =>
    unfold lineStep
    split
    · next hend =>
      -- The line ends here, and so does the string.
      have hnone : stringFrom 0 w.ahead = (0, false) := by
        cases hahead : w.ahead with
        | nil => rfl
        | cons c cs =>
          rw [hahead] at hend
          exact stringFrom_cons_of_isLineEnd hend 0 cs
      rw [goal_of_code rfl, goal_of_string hmode, hnone]
      rfl
    · next hend =>
      refine goal_pass_of_string hmode ?_
      cases hahead : w.ahead with
      | nil => exact absurd (by rw [hahead]; rfl) hend
      | cons c cs =>
        rw [hahead] at hend
        exact stringFrom_cons_of_ne (fun hc => hquote cs (hc ▸ hahead)) (by simpa using hend) 0 cs

/-- A block comment goes on behind characters that do not end it. -/
theorem goal_eq_of_pass {inner' n : Nat} {w' : Walk} (hmode : w.mode = .blockComment style inner)
    (hmode' : w'.mode = .blockComment style inner') (hahead : w'.ahead = w.ahead.drop n)
    (hclosed : w'.closed = w.closed)
    (hcloser : style.closerFrom nested inner 0 0 w.ahead
      = (style.closerFrom nested inner' 0 0 (w.ahead.drop n)).map (· + n)) :
    w'.goal nested = w.goal nested := by
  rw [goal_of_block hmode', goal_of_block hmode, hcloser, hclosed, hahead]
  cases style.closerFrom nested inner' 0 0 (w.ahead.drop n) with
  | none => rfl
  | some m =>
    rw [Option.map_some, blockGoal, blockGoal, List.drop_drop, Nat.add_right_comm, Nat.add_comm n]

theorem goal_blockStep (hmode : w.mode = .blockComment style inner) :
    (w.blockStep nested style inner).goal nested = w.goal nested := by
  unfold blockStep
  split
  · next hahead =>
    rw [goal_of_code rfl, goal_of_block hmode]
    simp [leave, hahead, BlockStyle.closerFrom, blockGoal]
  next hahead =>
  split
  · next hcloser =>
    obtain ⟨rest, hrest⟩ := hcloser
    split
    · rw [goal_of_code rfl, goal_of_block hmode, ← hrest, style.closerFrom_zero_closer_append,
        blockGoal, Nat.zero_add, close, hrest]
    · next inner =>
      refine goal_eq_of_pass hmode rfl rfl rfl ?_
      rw [← hrest, style.closerFrom_closer_append, List.drop_left]
  next hcloser =>
  split
  · next hopener =>
    obtain ⟨rfl, rest, hrest⟩ := hopener
    refine goal_eq_of_pass hmode rfl rfl rfl ?_
    rw [← hrest, style.closerFrom_opener_append, List.drop_left]
  next hopener =>
  -- What is left are marks of the other style, and other characters.
  have hother {mark : List Char} (hmark : mark = style.other.opener ∨ mark = style.other.closer)
      (hahead : mark <+: w.ahead) : style.closerFrom nested inner 0 0 w.ahead
        = (style.closerFrom nested inner 0 0 (w.ahead.drop mark.length)).map (· + mark.length) := by
    obtain ⟨rest, hrest⟩ := hahead
    rw [← hrest, style.closerFrom_other_append hmark, List.drop_left]
  split
  · next hmark => exact goal_eq_of_pass hmode hmode rfl rfl (hother (.inl rfl) hmark)
  split
  · next hmark =>
    split
    · exact goal_eq_of_pass hmode hmode rfl rfl (hother (.inr rfl) hmark)
    · exact goal_eq_of_pass hmode hmode rfl rfl (hother (.inr rfl) hmark)
  · obtain ⟨c, cs, hcs⟩ := List.exists_cons_of_ne_nil hahead
    refine goal_eq_of_pass hmode hmode rfl rfl ?_
    rw [hcs] at hcloser hopener ⊢
    exact style.closerFrom_cons hcloser (fun hnested hp => hopener ⟨hnested, hp⟩) inner

end Goal

/-- No step changes where the string or comment ends. -/
theorem goal_step (nested : Bool) (w : Walk) : (w.step nested).goal nested = w.goal nested := by
  unfold step
  split
  · rfl
  · next h => exact goal_lineStep h
  · next h => exact goal_blockStep h
  · next h => exact goal_stringStep h

/-- The way back to code ends where the lexer finds the end. -/
theorem run_eq_goal (nested : Bool) (w : Walk) :
    ((w.run nested).ahead, (w.run nested).closed) = w.goal nested := by
  fun_induction run nested w with
  | case1 w h => rw [goal_of_code h]
  | case2 w h ih => rw [ih, goal_step]

/-! ### Lexemes -/

/-- The lexer behind the first character `c` of a lexeme, or behind the opening
    mark of a string or comment. A lexeme of code is passed at once. -/
def enter (nested : Bool) (c : Char) (cs : List Char) : Walk :=
  if c = '\x7b' then { mode := .blockComment .brace 0, ahead := cs }
  else if c = '(' ∧ cs.head? = some '*' then
    { mode := .blockComment .parenStar 0, ahead := cs.tail }
  else if c = '/' ∧ cs.head? = some '/' then { mode := .lineComment, ahead := cs.tail }
  else if c = '\'' then { mode := .string, ahead := cs }
  else { mode := .code, ahead := cs.drop (cut nested c cs).2 }

theorem fst_blockGoal {style : BlockStyle} {nested : Bool} {cs rest : List Char}
    (h : Reads (blockComment style nested cs) cs rest) (closed : Bool) :
    (blockGoal style closed cs (style.closerFrom nested 0 0 0 cs)).1 = rest := by
  unfold blockComment BlockStyle.closerAt at h
  cases hn : style.closerFrom nested 0 0 0 cs with
  | some n =>
    rw [hn] at h
    have htext : cs.take n ++ cs.drop n = cs.take n ++ (style.closer ++ rest) := by
      rw [List.take_append_drop, ← List.append_assoc]
      exact h.text
    rw [blockGoal, ← List.drop_drop, List.append_cancel_left htext, List.drop_left]
  | none =>
    rw [hn] at h
    exact ((h.unclosed rfl).resolve_left CommentStyle.noConfusion).symm

/-- The automaton leaves every lexeme in code, at the place where the lexer cuts
    it off, whatever it counted of the other style's marks. -/
theorem ahead_run_enter (nested : Bool) (c : Char) (cs : List Char) (quoted : Nat)
    (stray : Option Nat) :
    (({ enter nested c cs with quoted, stray } : Walk).run nested).ahead
      = cs.drop (cut nested c cs).2 := by
  have hgoal := congrArg Prod.fst (run_eq_goal nested { enter nested c cs with quoted, stray })
  dsimp only at hgoal
  rw [hgoal]
  unfold enter
  split
  · next hbrace =>
    subst hbrace
    obtain ⟨rest, hreads⟩ := reads_blockComment .brace nested cs
    have hstyle := blockComment_style .brace nested cs
    exact (fst_blockGoal hreads false).trans
      (split_commentCut (c := '\x7b') (hstyle ▸ rfl) hreads).2.symm
  split
  · next hparen =>
    obtain ⟨rfl, hstar⟩ := hparen
    obtain ⟨inner, rfl⟩ := List.head?_eq_some_iff.mp hstar
    obtain ⟨rest, hreads⟩ := reads_blockComment .parenStar nested inner
    have hstyle := blockComment_style .parenStar nested inner
    exact (fst_blockGoal hreads false).trans
      (split_commentCut (c := '(') (hstyle ▸ rfl) hreads).2.symm
  split
  · next hslash =>
    obtain ⟨rfl, hnext⟩ := hslash
    obtain ⟨inner, rfl⟩ := List.head?_eq_some_iff.mp hnext
    exact (split_commentCut (c := '/') rfl (reads_lineComment inner)).2.symm
  split
  · next hquote =>
    subst hquote
    rfl
  · rfl

end Walk

end PascalOutline.Lexer
