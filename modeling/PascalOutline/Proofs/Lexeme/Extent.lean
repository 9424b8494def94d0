import PascalOutline.Proofs.Lexeme.Local

/-! # Where strings and comments end

  A string goes to the first quote that is not one of a doubled pair, a block
  comment to its own closer. Where comments nest, the marks of its style are
  counted: the comment ends with the shortest text in which as many of the
  comments in it were closed as were opened, and the comment itself too.

  The definitions here say this of texts alone. `StringExtent.of_stringFrom`,
  `FlatExtent.of_blockComment` and `NestedExtent.of_blockComment` say that the
  lexer cuts strings and comments off there.
-/

namespace PascalOutline

/-! ### Marks of a comment -/

namespace BlockStyle

/-- The number of openers of a style in a text less the number of its closers.
    The marks are read from left to right, and none overlaps another. -/
def surplus (style : BlockStyle) : List Char → Int
  | [] => 0
  | c :: cs =>
    if style.opener <+: c :: cs then style.surplus (cs.drop (style.opener.length - 1)) + 1
    else if style.closer <+: c :: cs then style.surplus (cs.drop (style.closer.length - 1)) - 1
    else style.surplus cs
termination_by cs => cs.length
decreasing_by all_goals simp only [List.length_drop, List.length_cons]; omega

/-- With `depth` comments open before a text, one is still open after each of its
    beginnings that are shorter than `n`. -/
def OpenBefore (style : BlockStyle) (depth n : Nat) (cs : List Char) : Prop :=
  ∀ q, q <+: cs → q.length < n → depth + style.surplus q ≠ 0

/-- With `depth` comments open before it, a text closes the last one with its
    last character and not earlier. -/
structure Closes (style : BlockStyle) (depth : Nat) (cs : List Char) : Prop where
  /-- After the text no comment is open. -/
  shut : depth + style.surplus cs = 0
  /-- Before its last character one is. -/
  shortest : style.OpenBefore depth cs.length cs

/-- With `depth` comments open before it, a text never closes the last one. -/
def StaysOpen (style : BlockStyle) (depth : Nat) (cs : List Char) : Prop :=
  style.OpenBefore depth (cs.length + 1) cs

variable (style : BlockStyle)

/-! #### Reading marks -/

@[simp] theorem surplus_nil : style.surplus [] = 0 := by
  rw [surplus]

theorem length_closer : style.closer.length = style.opener.length := by
  cases style <;> rfl

@[simp] theorem surplus_opener_append (cs : List Char) :
    style.surplus (style.opener ++ cs) = style.surplus cs + 1 := by
  cases style <;> simp [opener, surplus]

@[simp] theorem surplus_closer_append (cs : List Char) :
    style.surplus (style.closer ++ cs) = style.surplus cs - 1 := by
  cases style <;> simp [opener, closer, surplus]

theorem surplus_cons {c : Char} {cs : List Char} (hopener : ¬ style.opener <+: c :: cs)
    (hcloser : ¬ style.closer <+: c :: cs) : style.surplus (c :: cs) = style.surplus cs := by
  rw [surplus, if_neg hopener, if_neg hcloser]

/-- A text that is shorter than a mark has none. -/
theorem surplus_of_length_lt {cs : List Char} (h : cs.length < style.opener.length) :
    style.surplus cs = 0 := by
  induction cs with
  | nil => exact style.surplus_nil
  | cons c cs ih =>
    have hopener : ¬ style.opener <+: c :: cs := fun hp => absurd hp.length_le (by omega)
    have hcloser : ¬ style.closer <+: c :: cs := fun hp => by
      have hle := hp.length_le
      rw [style.length_closer] at hle
      omega
    rw [style.surplus_cons hopener hcloser]
    exact ih (by rw [List.length_cons] at h; omega)

/-- Every text is read mark by mark, and character by character in between. -/
theorem marks_induction {motive : List Char → Prop} (nil : motive [])
    (opening : ∀ cs, motive cs → motive (style.opener ++ cs))
    (closing : ∀ cs, motive cs → motive (style.closer ++ cs))
    (other : ∀ c cs, ¬ style.opener <+: c :: cs → ¬ style.closer <+: c :: cs → motive cs →
      motive (c :: cs))
    (cs : List Char) : motive cs := by
  generalize hn : cs.length = n
  induction n using Nat.strongRecOn generalizing cs with
  | ind n ih =>
    cases cs with
    | nil => exact nil
    | cons c cs =>
      have hpos := style.opener_length_pos
      by_cases hopener : style.opener <+: c :: cs
      · obtain ⟨rest, hrest⟩ := hopener
        have hlength := congrArg List.length hrest
        rw [List.length_append] at hlength
        rw [← hrest]
        exact opening rest (ih _ (by omega) rest rfl)
      · by_cases hcloser : style.closer <+: c :: cs
        · obtain ⟨rest, hrest⟩ := hcloser
          have hlength := congrArg List.length hrest
          rw [List.length_append, style.length_closer] at hlength
          rw [← hrest]
          exact closing rest (ih _ (by omega) rest rfl)
        · rw [List.length_cons] at hn
          exact other c cs hopener hcloser (ih _ (by omega) cs rfl)

/-- A beginning of a text after a mark is shorter than the mark, or it has it. -/
theorem prefix_mark_append {mark q cs : List Char} (hlength : mark.length = style.opener.length)
    (h : q <+: mark ++ cs) : style.surplus q = 0 ∨ ∃ q', q' <+: cs ∧ q = mark ++ q' := by
  rcases List.prefix_or_prefix_of_prefix h (List.prefix_append mark cs) with hq | hq
  · by_cases hlt : q.length < mark.length
    · exact .inl (style.surplus_of_length_lt (hlength ▸ hlt))
    · obtain rfl := hq.eq_of_length_le (by omega)
      exact .inr ⟨[], List.nil_prefix, (List.append_nil q).symm⟩
  · obtain ⟨q', rfl⟩ := hq
    exact .inr ⟨q', (List.prefix_append_right_inj mark).mp h, rfl⟩

/-! #### Counting marks -/

section Counting

variable {style} {depth n : Nat} {cs : List Char}

theorem OpenBefore.opener_append (h : style.OpenBefore (depth + 1) n cs) (hdepth : 0 < depth) :
    style.OpenBefore depth (style.opener.length + n) (style.opener ++ cs) := by
  intro q hq hlt
  rcases style.prefix_mark_append rfl hq with hzero | ⟨q', hq', rfl⟩
  · omega
  · rw [List.length_append] at hlt
    have hopen := h q' hq' (by omega)
    rw [style.surplus_opener_append]
    omega

theorem OpenBefore.closer_append (h : style.OpenBefore depth n cs) :
    style.OpenBefore (depth + 1) (style.closer.length + n) (style.closer ++ cs) := by
  intro q hq hlt
  rcases style.prefix_mark_append style.length_closer hq with hzero | ⟨q', hq', rfl⟩
  · omega
  · rw [List.length_append] at hlt
    have hopen := h q' hq' (by omega)
    rw [style.surplus_closer_append]
    omega

theorem OpenBefore.cons (h : style.OpenBefore depth n cs) (hdepth : 0 < depth) {c : Char}
    (hopener : ¬ style.opener <+: c :: cs) (hcloser : ¬ style.closer <+: c :: cs) :
    style.OpenBefore depth (n + 1) (c :: cs) := by
  intro q hq hlt
  rcases List.prefix_cons_iff.mp hq with rfl | ⟨q', rfl, hq'⟩
  · rw [style.surplus_nil]
    omega
  · rw [style.surplus_cons (fun hp => hopener (hp.trans hq)) (fun hp => hcloser (hp.trans hq))]
    rw [List.length_cons] at hlt
    exact h q' hq' (by omega)

theorem closes_closer : style.Closes 1 style.closer := by
  have hcloser : style.surplus style.closer = -1 := by
    rw [← List.append_nil style.closer, style.surplus_closer_append, style.surplus_nil]
    rfl
  constructor
  case shut =>
    rw [hcloser]
    rfl
  case shortest =>
    intro q _ hlt
    rw [style.surplus_of_length_lt (style.length_closer ▸ hlt)]
    decide

theorem Closes.opener_append (h : style.Closes (depth + 1) cs) (hdepth : 0 < depth) :
    style.Closes depth (style.opener ++ cs) := by
  have hshut := h.shut
  constructor
  case shut =>
    rw [style.surplus_opener_append]
    omega
  case shortest =>
    rw [List.length_append]
    exact h.shortest.opener_append hdepth

theorem Closes.closer_append (h : style.Closes depth cs) :
    style.Closes (depth + 1) (style.closer ++ cs) := by
  have hshut := h.shut
  constructor
  case shut =>
    rw [style.surplus_closer_append]
    omega
  case shortest =>
    rw [List.length_append]
    exact h.shortest.closer_append

theorem Closes.cons (h : style.Closes depth cs) (hdepth : 0 < depth) {c : Char}
    (hopener : ¬ style.opener <+: c :: cs) (hcloser : ¬ style.closer <+: c :: cs) :
    style.Closes depth (c :: cs) :=
  ⟨by rw [style.surplus_cons hopener hcloser, h.shut], h.shortest.cons hdepth hopener hcloser⟩

end Counting

/-! #### The search for the closer -/

/-- Where no closer stands, the search goes on. -/
theorem closerFrom_of_closer_eq_false {style : BlockStyle} {c : Char} {cs : List Char}
    (h : style.closer.isPrefixOf (c :: cs) = false) (nested : Bool) (depth before : Nat) :
    style.closerFrom nested depth 0 before (c :: cs)
      = if nested && style.opener.isPrefixOf (c :: cs) then
          style.closerFrom nested (depth + 1) (style.opener.length - 1) (before + 1) cs
        else style.closerFrom nested depth 0 (before + 1) cs := by
  cases depth <;> rw [closerFrom, if_neg (by simp [h])]

/-- Where a search begins to count makes no other difference. -/
theorem closerFrom_add (nested : Bool) (depth skip before : Nat) (cs : List Char) (k : Nat) :
    style.closerFrom nested depth skip (before + k) cs
      = (style.closerFrom nested depth skip before cs).map (· + k) := by
  fun_induction closerFrom style nested depth skip before cs with
  | case1 => rfl
  | case2 depth skip before c cs ih => rw [closerFrom, Nat.add_right_comm, ih]
  | case3 before c cs hcloser => rw [closerFrom, if_pos hcloser, Option.map_some]
  | case4 before c cs hcloser depth ih => rw [closerFrom, if_pos hcloser, Nat.add_right_comm, ih]
  | case5 depth before c cs hcloser hopener ih =>
    rw [closerFrom_of_closer_eq_false (Bool.eq_false_iff.mpr hcloser), if_pos hopener,
      Nat.add_right_comm, ih]
  | case6 depth before c cs hcloser hopener ih =>
    rw [closerFrom_of_closer_eq_false (Bool.eq_false_iff.mpr hcloser), if_neg hopener,
      Nat.add_right_comm, ih]

theorem closerFrom_closer_append (nested : Bool) (depth : Nat) (cs : List Char) :
    style.closerFrom nested (depth + 1) 0 0 (style.closer ++ cs)
      = (style.closerFrom nested depth 0 0 cs).map (· + style.closer.length) := by
  rw [← closerFrom_add]
  cases style <;> simp [closer, closerFrom]

theorem closerFrom_zero_closer_append (nested : Bool) (cs : List Char) :
    style.closerFrom nested 0 0 0 (style.closer ++ cs) = some 0 := by
  cases style <;> simp [closer, closerFrom]

theorem closerFrom_opener_append (depth : Nat) (cs : List Char) :
    style.closerFrom true depth 0 0 (style.opener ++ cs)
      = (style.closerFrom true (depth + 1) 0 0 cs).map (· + style.opener.length) := by
  rw [← closerFrom_add]
  cases style <;> cases depth <;> simp [opener, closer, closerFrom]

theorem closerFrom_cons {c : Char} {cs : List Char} (hcloser : ¬ style.closer <+: c :: cs)
    {nested : Bool} (hopener : nested = true → ¬ style.opener <+: c :: cs) (depth : Nat) :
    style.closerFrom nested depth 0 0 (c :: cs)
      = (style.closerFrom nested depth 0 0 cs).map (· + 1) := by
  have hno : ¬ (nested && style.opener.isPrefixOf (c :: cs)) = true := by
    intro h
    obtain ⟨hnested, hp⟩ := Bool.and_eq_true_iff.mp h
    exact hopener hnested (List.isPrefixOf_iff_prefix.mp hp)
  rw [← closerFrom_add, closerFrom_of_closer_eq_false, if_neg hno]
  exact Bool.eq_false_iff.mpr (mt List.isPrefixOf_iff_prefix.mp hcloser)

/-- The marks of the other style are no marks for the search. -/
theorem closerFrom_other_append {mark : List Char}
    (hmark : mark = style.other.opener ∨ mark = style.other.closer) (nested : Bool) (depth : Nat)
    (cs : List Char) :
    style.closerFrom nested depth 0 0 (mark ++ cs)
      = (style.closerFrom nested depth 0 0 cs).map (· + mark.length) := by
  rw [← closerFrom_add]
  rcases hmark with rfl | rfl <;> cases style <;> cases depth <;>
    simp [other, opener, closer, closerFrom]

/-- A text begins with what stands before the closer and the closer. -/
theorem take_append_closer_prefix {nested : Bool} {depth n : Nat} {cs : List Char}
    (h : style.closerFrom nested depth 0 0 cs = some n) : cs.take n ++ style.closer <+: cs := by
  obtain ⟨rest, hrest⟩ := (Lexer.closer_prefix_of_closerFrom h).2
  rw [Nat.sub_zero] at hrest
  exact ⟨rest, by rw [List.append_assoc, hrest, List.take_append_drop]⟩

/-- Where comments nest, the search finds the closer with which the last open
    comment is closed, if there is one. -/
theorem closes_of_closerFrom {depth n : Nat} {cs : List Char}
    (h : style.closerFrom true depth 0 0 cs = some n) :
    style.Closes (depth + 1) (cs.take n ++ style.closer) := by
  induction cs using style.marks_induction generalizing depth n with
  | nil => cases h
  | opening cs ih =>
    rw [closerFrom_opener_append] at h
    obtain ⟨m, hm, rfl⟩ := Option.map_eq_some_iff.mp h
    rw [Nat.add_comm m, List.take_length_add_append, List.append_assoc]
    exact (ih hm).opener_append (Nat.succ_pos depth)
  | closing cs ih =>
    cases depth with
    | zero =>
      rw [closerFrom_zero_closer_append] at h
      cases h
      exact closes_closer
    | succ depth =>
      rw [closerFrom_closer_append] at h
      obtain ⟨m, hm, rfl⟩ := Option.map_eq_some_iff.mp h
      rw [Nat.add_comm m, List.take_length_add_append, List.append_assoc]
      exact (ih hm).closer_append
  | other c cs hopener hcloser ih =>
    rw [closerFrom_cons style hcloser (fun _ => hopener)] at h
    obtain ⟨m, hm, rfl⟩ := Option.map_eq_some_iff.mp h
    have hprefix := style.take_append_closer_prefix hm
    have hmark {mark : List Char} (hno : ¬ mark <+: c :: cs) :
        ¬ mark <+: c :: (cs.take m ++ style.closer) :=
      fun hp => hno (hp.trans ((List.prefix_cons_inj c).mpr hprefix))
    rw [List.take_succ_cons, List.cons_append]
    exact (ih hm).cons (Nat.succ_pos depth) (hmark hopener) (hmark hcloser)

theorem staysOpen_of_closerFrom {depth : Nat} {cs : List Char}
    (h : style.closerFrom true depth 0 0 cs = none) : style.StaysOpen (depth + 1) cs := by
  induction cs using style.marks_induction generalizing depth with
  | nil =>
    intro q hq _
    rw [List.prefix_nil.mp hq, style.surplus_nil]
    omega
  | opening cs ih =>
    rw [closerFrom_opener_append, Option.map_eq_none_iff] at h
    rw [StaysOpen, List.length_append, Nat.add_assoc]
    exact (ih h).opener_append (Nat.succ_pos depth)
  | closing cs ih =>
    cases depth with
    | zero =>
      rw [closerFrom_zero_closer_append] at h
      cases h
    | succ depth =>
      rw [closerFrom_closer_append, Option.map_eq_none_iff] at h
      rw [StaysOpen, List.length_append, Nat.add_assoc]
      exact (ih h).closer_append
  | other c cs hopener hcloser ih =>
    rw [closerFrom_cons style hcloser (fun _ => hopener), Option.map_eq_none_iff] at h
    exact (ih h).cons (Nat.succ_pos depth) hopener hcloser

/-- Where comments do not nest, the search finds the first closer. -/
theorem not_closer_prefix_of_closerFrom {n m : Nat} {cs : List Char}
    (h : style.closerFrom false 0 0 0 cs = some n) (hm : m < n) :
    ¬ style.closer <+: cs.drop m := by
  induction cs generalizing n m with
  | nil => cases h
  | cons c cs ih =>
    by_cases hcloser : style.closer <+: c :: cs
    · rw [closerFrom, if_pos (List.isPrefixOf_iff_prefix.mpr hcloser)] at h
      cases h
      cases hm
    · rw [closerFrom_cons style hcloser (fun h => by cases h)] at h
      obtain ⟨k, hk, rfl⟩ := Option.map_eq_some_iff.mp h
      cases m with
      | zero => exact hcloser
      | succ m => exact ih hk (Nat.lt_of_succ_lt_succ hm)

theorem not_closer_infix_of_closerFrom {cs : List Char}
    (h : style.closerFrom false 0 0 0 cs = none) : ¬ style.closer <:+: cs := by
  induction cs with
  | nil =>
    intro hcloser
    have hle := hcloser.length_le
    have hpos := style.opener_length_pos
    rw [style.length_closer, List.length_nil] at hle
    omega
  | cons c cs ih =>
    by_cases hcloser : style.closer <+: c :: cs
    · rw [closerFrom, if_pos (List.isPrefixOf_iff_prefix.mpr hcloser)] at h
      cases h
    · rw [closerFrom_cons style hcloser (fun h => by cases h), Option.map_eq_none_iff] at h
      rw [List.infix_cons_iff]
      exact not_or.mpr ⟨hcloser, ih h⟩

end BlockStyle

namespace Lexer

/-! ### Comments -/

/-- A block comment that was read from the text `cs` after its opener and has
    `rest` after it ends with the first closer of its style. -/
inductive FlatExtent (style : BlockStyle) (k : Comment) (cs rest : List Char) : Prop where
  /-- There is a closer. -/
  | closed (isClosed : k.closed = true) (text : cs = k.body ++ style.closer ++ rest)
      (first : ∀ m < k.body.length, ¬ style.closer <+: cs.drop m)
  /-- There is none, and the comment takes the whole text. -/
  | cutOff (isOpen : k.closed = false) (text : cs = k.body) (end_ : rest = [])
      (absent : ¬ style.closer <:+: cs)

/-- A block comment that was read from the text `cs` after its opener and has
    `rest` after it ends where it and all comments in it are closed. -/
inductive NestedExtent (style : BlockStyle) (k : Comment) (cs rest : List Char) : Prop where
  /-- There is such a place. -/
  | closed (isClosed : k.closed = true) (text : cs = k.body ++ style.closer ++ rest)
      (closes : style.Closes 1 (k.body ++ style.closer))
  /-- There is none, and the comment takes the whole text. -/
  | cutOff (isOpen : k.closed = false) (text : cs = k.body) (end_ : rest = [])
      (staysOpen : style.StaysOpen 1 cs)

section Comments

variable {style : BlockStyle} {k : Comment} {cs rest : List Char}

theorem FlatExtent.of_blockComment (hk : blockComment style false cs = k) (h : Reads k cs rest) :
    FlatExtent style k cs rest := by
  unfold blockComment at hk
  split at hk
  · next n hn =>
    subst hk
    refine .closed rfl h.text ?_
    intro m hm
    have hlt : m < n := Nat.lt_of_lt_of_le hm (List.length_take_le n cs)
    exact style.not_closer_prefix_of_closerFrom hn hlt
  · next hn =>
    subst hk
    have hrest : rest = [] := (h.unclosed rfl).resolve_left (by simp)
    exact .cutOff rfl rfl hrest (style.not_closer_infix_of_closerFrom hn)

theorem NestedExtent.of_blockComment (hk : blockComment style true cs = k) (h : Reads k cs rest) :
    NestedExtent style k cs rest := by
  unfold blockComment at hk
  split at hk
  · next n hn =>
    subst hk
    exact .closed rfl h.text (style.closes_of_closerFrom hn)
  · next hn =>
    subst hk
    have hrest : rest = [] := (h.unclosed rfl).resolve_left (by simp)
    exact .cutOff rfl rfl hrest (style.staysOpen_of_closerFrom hn)

end Comments

/-! ### Strings -/

/-- A text in which every quote is one of a pair of quotes that stand for one,
    counted from its beginning, and which stays on its line. -/
inductive Quoted : List Char → Prop where
  /-- No text. -/
  | nil : Quoted []
  /-- A character that is neither a quote nor a line end. -/
  | char {c : Char} {cs : List Char} (plain : c ≠ '\'') (inline : isLineEnd c = false)
      (h : Quoted cs) : Quoted (c :: cs)
  /-- A doubled quote. -/
  | pair {cs : List Char} (h : Quoted cs) : Quoted ('\'' :: '\'' :: cs)

/-- What a string takes of the text after its opening quote, and what it leaves:
    it ends with the first quote that belongs to no pair, or before the line
    does. -/
inductive StringExtent : (taken rest : List Char) → (terminated : Bool) → Prop where
  /-- There is a closing quote. -/
  | closed {body rest : List Char} (quoted : Quoted body) (single : rest.head? ≠ some '\'') :
      StringExtent (body ++ ['\'']) rest true
  /-- The line or the text ends first. -/
  | cutOff {body rest : List Char} (quoted : Quoted body)
      (lineEnd : rest.head?.all isLineEnd = true) : StringExtent body rest false

/-- A string stops before the end of its line. -/
theorem stringFrom_cons_of_isLineEnd {c : Char} (h : isLineEnd c = true) (before : Nat)
    (cs : List Char) : stringFrom before (c :: cs) = (before, false) := by
  rw [stringFrom.eq_3, if_pos h]
  rintro rest rfl
  cases h

/-- Where a string begins to be counted makes no other difference. -/
theorem stringFrom_add (before : Nat) (cs : List Char) (k : Nat) :
    stringFrom (before + k) cs = ((stringFrom before cs).1 + k, (stringFrom before cs).2) := by
  fun_induction stringFrom before cs with
  | case1 before => rfl
  | case2 before cs ih => rw [stringFrom, Nat.add_right_comm, ih]
  | case3 before c cs hpair hend => rw [stringFrom.eq_3 _ _ _ hpair, if_pos hend]
  | case4 before cs hpair hend =>
    rw [stringFrom.eq_3 _ _ _ hpair, if_neg hend, if_pos rfl, Nat.add_right_comm]
  | case5 before c cs hpair hend hquote ih =>
    rw [stringFrom.eq_3 _ _ _ hpair, if_neg hend, if_neg hquote, Nat.add_right_comm, ih]

section Strings

variable {taken rest : List Char} {terminated : Bool}

theorem StringExtent.char (h : StringExtent taken rest terminated) {c : Char} (hc : c ≠ '\'')
    (hend : isLineEnd c = false) : StringExtent (c :: taken) rest terminated := by
  cases h with
  | closed quoted single => exact .closed (.char hc hend quoted) single
  | cutOff quoted lineEnd => exact .cutOff (.char hc hend quoted) lineEnd

theorem StringExtent.pair (h : StringExtent taken rest terminated) :
    StringExtent ('\'' :: '\'' :: taken) rest terminated := by
  cases h with
  | closed quoted single => exact .closed (.pair quoted) single
  | cutOff quoted lineEnd => exact .cutOff (.pair quoted) lineEnd

/-- The induction carries the number of characters that were passed before. -/
theorem StringExtent.of_stringFrom (before : Nat) (cs : List Char) :
    StringExtent (cs.take ((stringFrom before cs).1 - before))
      (cs.drop ((stringFrom before cs).1 - before)) (stringFrom before cs).2 := by
  fun_induction stringFrom before cs with
  | case1 before =>
    rw [List.take_nil, List.drop_nil]
    exact .cutOff .nil rfl
  | case2 before cs ih =>
    have hle := (inline_stringFrom (before + 2) cs).1
    rw [show (stringFrom (before + 2) cs).1 - before
      = (stringFrom (before + 2) cs).1 - (before + 2) + 1 + 1 by omega]
    exact ih.pair
  | case3 before c cs _ hc =>
    rw [Nat.sub_self]
    exact .cutOff .nil hc
  | case4 before cs hsingle _ =>
    rw [Nat.add_sub_cancel_left]
    have hnext : cs.head? ≠ some '\'' := by
      intro hquote
      obtain ⟨rest, rfl⟩ := List.head?_eq_some_iff.mp hquote
      exact hsingle rest rfl rfl
    have hempty : StringExtent ([] ++ ['\'']) cs true := .closed .nil hnext
    exact hempty
  | case5 before c cs _ hc hquote ih =>
    have hle := (inline_stringFrom (before + 1) cs).1
    rw [show (stringFrom (before + 1) cs).1 - before
      = (stringFrom (before + 1) cs).1 - (before + 1) + 1 by omega]
    exact ih.char hquote (by simpa using hc)

end Strings

end Lexer

end PascalOutline
