import PascalOutline.Proofs.Lexeme.Cut

/-! # A cut looks no further than it has to

  Where a token ends is decided by the characters right after it. If these are
  replaced by a blank or by the end of the text, at once or after some of them
  were kept, the token ends where it ended before. Only a string without its
  closing quote goes on over a blank; it keeps its end before the end of the
  text.

  `cut_take_append` says so for every token, and nothing after it opens the
  definition of `cut`.
-/

namespace PascalOutline.Lexer

/-! ### Texts that break off -/

/-- The second text is the first one up to a place at which it breaks off,
    with a blank or with its end. -/
inductive BreaksOff : List Char → List Char → Prop where
  /-- The end of the text. -/
  | end_ (cs : List Char) : BreaksOff cs []
  /-- A blank, and anything after it. -/
  | blank (cs ds : List Char) : BreaksOff cs (' ' :: ds)
  /-- One more character of the first text. -/
  | keep (c : Char) {cs ds : List Char} (h : BreaksOff cs ds) : BreaksOff (c :: cs) (c :: ds)

namespace BreaksOff

variable {cs ds : List Char}

theorem append_left (kept : List Char) (h : BreaksOff cs ds) :
    BreaksOff (kept ++ cs) (kept ++ ds) := by
  induction kept with
  | nil => exact h
  | cons c kept ih => exact .keep c ih

/-- A test that the next character does not pass, and no blank either, is not
    passed after the text was broken off. -/
theorem head?_any_eq_false (h : BreaksOff cs ds) {p : Char → Bool} (hblank : p ' ' = false)
    (hcs : cs.head?.any p = false) : ds.head?.any p = false := by
  cases h with
  | end_ cs => rfl
  | blank cs ds => exact hblank
  | keep c h => exact hcs

/-- What lies after the taken characters breaks off, so the whole text does. -/
theorem of_drop {n : Nat} (h : BreaksOff (cs.drop n) ds) : BreaksOff cs (cs.take n ++ ds) := by
  have happend := h.append_left (cs.take n)
  rwa [List.take_append_drop] at happend

end BreaksOff

/-! ### Lengths -/

/-- A length does not change when the text breaks off after it. -/
def Local (length : List Char → Nat) : Prop :=
  ∀ cs ds, BreaksOff (cs.drop (length cs)) ds → length (cs.take (length cs) ++ ds) = length cs

theorem runLength_append {p : Char → Bool} {run rest : List Char} (hrun : ∀ c ∈ run, p c = true)
    (hrest : rest.head?.any p = false) : runLength p (run ++ rest) = run.length := by
  induction run with
  | nil =>
    cases rest with
    | nil => rfl
    | cons c rest =>
      rw [runLength, List.nil_append, List.takeWhile_cons_of_neg (by simpa using hrest)]
  | cons c run ih =>
    rw [runLength, List.cons_append, List.takeWhile_cons_of_pos (hrun c List.mem_cons_self)]
    exact congrArg Nat.succ (ih fun d hd => hrun d (List.mem_cons_of_mem c hd))

theorem head?_drop_runLength (p : Char → Bool) (cs : List Char) :
    (cs.drop (runLength p cs)).head?.any p = false := by
  induction cs with
  | nil => rfl
  | cons c cs ih =>
    by_cases hc : p c = true
    · rw [runLength, List.takeWhile_cons_of_pos hc]
      exact ih
    · rw [runLength, List.takeWhile_cons_of_neg hc]
      simpa using hc

theorem runLength_le (p : Char → Bool) (cs : List Char) : runLength p cs ≤ cs.length :=
  (List.takeWhile_prefix p).length_le

theorem local_runLength {p : Char → Bool} (hblank : p ' ' = false) : Local (runLength p) := by
  intro cs ds hbreak
  have hrun : ∀ c ∈ cs.take (runLength p cs), p c = true := by
    intro c hc
    rw [take_runLength] at hc
    exact List.all_eq_true.mp List.all_takeWhile c hc
  have hrest := hbreak.head?_any_eq_false hblank (head?_drop_runLength p cs)
  rw [runLength_append hrun hrest, List.length_take, Nat.min_eq_left (runLength_le p cs)]

theorem local_digitsLength : Local digitsLength :=
  local_runLength rfl

/-- A run that begins with a character that passes the test is not empty. -/
theorem runLength_cons_of_pos {p : Char → Bool} {c : Char} (hc : p c = true) (cs : List Char) :
    runLength p (c :: cs) = runLength p cs + 1 := by
  rw [runLength, List.takeWhile_cons_of_pos hc]
  rfl

theorem digitsLength_cons {d : Char} (hd : d.isDigit = true) (cs : List Char) :
    digitsLength (d :: cs) = digitsLength cs + 1 :=
  runLength_cons_of_pos (by rw [orUnderscore, hd, Bool.true_or]) cs

theorem fractionLength_eq_zero {cs ds : List Char} (h : BreaksOff cs ds)
    (hzero : fractionLength cs = 0) : fractionLength ds = 0 := by
  cases h with
  | end_ cs => rfl
  | blank cs ds => rfl
  | @keep c cs ds h =>
    by_cases hpoint : c = '.'
    · subst hpoint
      cases h with
      | end_ cs => rfl
      | blank cs ds => rfl
      | @keep d cs ds h =>
        by_cases hd : d.isDigit = true
        · simp [fractionLength, hd] at hzero
        · simp [fractionLength, hd]
    · cases ds <;> simp [fractionLength, hpoint]

theorem local_fractionLength : Local fractionLength := by
  intro cs ds hbreak
  fun_cases fractionLength cs with
  | case1 d cs hd =>
    rw [fractionLength, if_pos hd] at hbreak
    -- The point and the first digit are kept, and the digits are a run.
    rw [Nat.add_comm, List.drop_succ_cons] at hbreak
    have hdigits := local_digitsLength (d :: cs) ds hbreak
    rw [digitsLength_cons hd, List.take_succ_cons, List.cons_append] at hdigits
    rw [Nat.add_comm, digitsLength_cons hd, List.take_succ_cons, List.take_succ_cons,
      List.cons_append, List.cons_append, fractionLength, if_pos hd, hdigits, Nat.add_comm]
  | case2 d cs hd =>
    have hzero : fractionLength ('.' :: d :: cs) = 0 := by rw [fractionLength, if_neg hd]
    rw [hzero] at hbreak
    exact fractionLength_eq_zero hbreak hzero
  | case3 cs hshort =>
    have hzero : fractionLength cs = 0 := fractionLength.eq_2 cs hshort
    rw [hzero] at hbreak
    exact fractionLength_eq_zero hbreak hzero

theorem exponentLength_eq_zero {cs ds : List Char} (h : BreaksOff cs ds)
    (hzero : exponentLength cs = 0) : exponentLength ds = 0 := by
  cases h with
  | end_ cs => rfl
  | blank cs ds => rfl
  | @keep e cs ds h =>
    by_cases he : (e == 'e' || e == 'E') = true
    · cases h with
      | end_ cs => rw [exponentLength, if_pos he]
      | blank cs ds =>
        rw [exponentLength, if_pos he]
        rfl
      | @keep d cs ds h =>
        rw [exponentLength, if_pos he] at hzero ⊢
        by_cases hd : d.isDigit = true
        · rw [if_pos hd] at hzero
          omega
        · rw [if_neg hd] at hzero ⊢
          -- After a sign the digit is missing, before and after the break.
          cases hsign : (d == '+' || d == '-') with
          | false => rfl
          | true =>
            cases hdigit : cs.head?.any Char.isDigit with
            | true => simp [hsign, hdigit] at hzero
            | false => rw [h.head?_any_eq_false rfl hdigit]; rfl
    · cases ds <;> rw [exponentLength, if_neg he]

theorem local_exponentLength : Local exponentLength := by
  intro cs ds hbreak
  fun_cases exponentLength cs with
  | case1 e he d rest hd =>
    have hlength : exponentLength (e :: d :: rest) = 2 + digitsLength rest := by
      rw [exponentLength, if_pos he, if_pos hd]
    rw [hlength, Nat.add_comm, List.drop_succ_cons, List.drop_succ_cons] at hbreak
    rw [Nat.add_comm, List.take_succ_cons, List.take_succ_cons, List.cons_append, List.cons_append,
      exponentLength, if_pos he, if_pos hd, local_digitsLength rest ds hbreak, Nat.add_comm]
  | case2 e he d rest hd hsign =>
    have hlength : exponentLength (e :: d :: rest) = 2 + digitsLength rest := by
      rw [exponentLength, if_pos he, if_neg hd, if_pos hsign]
    rw [hlength, Nat.add_comm, List.drop_succ_cons, List.drop_succ_cons] at hbreak
    have hdigits := local_digitsLength rest ds hbreak
    -- The first digit after the sign is kept, so the sign still counts.
    have hhead : (rest.take (digitsLength rest) ++ ds).head? = rest.head? := by
      cases rest with
      | nil => simp at hsign
      | cons x rest =>
        have hx : x.isDigit = true := (Bool.and_eq_true_iff.mp hsign).2
        rw [digitsLength_cons hx, List.take_succ_cons]
        rfl
    rw [← hhead] at hsign
    rw [Nat.add_comm, List.take_succ_cons, List.take_succ_cons, List.cons_append, List.cons_append,
      exponentLength, if_pos he, if_neg hd, if_pos hsign, hdigits, Nat.add_comm]
  | case3 e he d rest hd hsign =>
    have hzero : exponentLength (e :: d :: rest) = 0 := by
      rw [exponentLength, if_pos he, if_neg hd, if_neg hsign]
    rw [hzero] at hbreak
    exact exponentLength_eq_zero hbreak hzero
  | case4 e he =>
    have hzero : exponentLength [e] = 0 := by rw [exponentLength, if_pos he]
    rw [hzero] at hbreak
    exact exponentLength_eq_zero hbreak hzero
  | case5 e cs he =>
    have hzero : exponentLength (e :: cs) = 0 := by cases cs <;> rw [exponentLength, if_neg he]
    rw [hzero] at hbreak
    exact exponentLength_eq_zero hbreak hzero
  | case6 => exact exponentLength_eq_zero hbreak rfl

/-- A length that is followed by another one. -/
theorem Local.add {f g : List Char → Nat} (hf : Local f) (hg : Local g)
    (hle : ∀ cs, f cs ≤ cs.length) : Local fun cs => f cs + g (cs.drop (f cs)) := by
  intro cs ds hbreak
  dsimp only at hbreak ⊢
  rw [← List.drop_drop] at hbreak
  have hsecond := hg (cs.drop (f cs)) ds hbreak
  have hfirst := hf cs ((cs.drop (f cs)).take (g (cs.drop (f cs))) ++ ds) hbreak.of_drop
  have hsplit : cs.take (f cs + g (cs.drop (f cs))) ++ ds
      = cs.take (f cs) ++ ((cs.drop (f cs)).take (g (cs.drop (f cs))) ++ ds) := by
    rw [List.take_add, List.append_assoc]
  have htaken : (cs.take (f cs)).length = f cs := by
    rw [List.length_take, Nat.min_eq_left (hle cs)]
  rw [hsplit, hfirst, List.drop_left' htaken, hsecond]

theorem fractionLength_le (cs : List Char) : fractionLength cs ≤ cs.length := by
  fun_cases fractionLength cs with
  | case1 d cs hd =>
    have hdigits := runLength_le (orUnderscore Char.isDigit) (d :: cs)
    rw [List.length_cons, digitsLength]
    omega
  | case2 => exact Nat.zero_le _
  | case3 => exact Nat.zero_le _

theorem local_decimalLength : Local decimalLength := by
  have hwhole : Local fun cs => digitsLength cs + fractionLength (cs.drop (digitsLength cs)) :=
    local_digitsLength.add local_fractionLength (runLength_le _)
  refine hwhole.add local_exponentLength ?_
  intro cs
  have hdigits : digitsLength cs ≤ cs.length := runLength_le _ cs
  have hfraction := fractionLength_le (cs.drop (digitsLength cs))
  rw [List.length_drop] at hfraction
  omega

theorem charCodeLength_of_head {cs : List Char} (h : (cs.head?.any fun c => c == '$') = false) :
    charCodeLength cs = runLength isHexDigit cs := by
  fun_cases charCodeLength cs with
  | case1 cs => cases h
  | case2 cs hmark => rfl

theorem local_charCodeLength : Local charCodeLength := by
  intro cs ds hbreak
  cases hmark : cs.head?.any fun c => c == '$' with
  | true =>
    obtain ⟨c, hc, hdollar⟩ := (Option.any_eq_true _ _).mp hmark
    obtain ⟨rest, rfl⟩ := List.head?_eq_some_iff.mp hc
    obtain rfl : c = '$' := by simpa using hdollar
    rw [charCodeLength, Nat.add_comm, List.drop_succ_cons] at hbreak
    rw [charCodeLength, Nat.add_comm, List.take_succ_cons, List.cons_append, charCodeLength,
      local_runLength rfl rest ds hbreak, Nat.add_comm]
  | false =>
    have hmark' := hbreak.of_drop.head?_any_eq_false rfl hmark
    rw [charCodeLength_of_head hmark']
    rw [charCodeLength_of_head hmark] at hbreak ⊢
    exact local_runLength rfl cs ds hbreak

/-! ### Strings -/

/-- A character that is no quote belongs to its string. -/
theorem stringFrom_cons_of_ne {c : Char} (hquote : c ≠ '\'') (hend : isLineEnd c = false)
    (before : Nat) (cs : List Char) : stringFrom before (c :: cs) = stringFrom (before + 1) cs := by
  rw [stringFrom.eq_3 before c cs (fun _ hc _ => hquote hc), if_neg (by simp [hend]),
    if_neg hquote]

/-- A single quote ends its string. -/
theorem stringFrom_quote {cs : List Char} (h : (cs.head?.any fun c => c == '\'') = false)
    (before : Nat) : stringFrom before ('\'' :: cs) = (before + 1, true) := by
  rw [stringFrom.eq_3 before '\'' cs, if_neg (by decide), if_pos rfl]
  rintro rest _ rfl
  cases h

/-- A string that was closed is closed at the same place. -/
theorem stringFrom_take_append {before n : Nat} {cs ds : List Char}
    (h : stringFrom before cs = (n, true)) (hbreak : BreaksOff (cs.drop (n - before)) ds) :
    stringFrom before (cs.take (n - before) ++ ds) = (n, true) := by
  fun_induction stringFrom before cs with
  | case1 before => cases h
  | case2 before cs ih =>
    have hle := (inline_stringFrom (before + 2) cs).1
    rw [h] at hle
    rw [show n - before = n - (before + 2) + 1 + 1 by omega] at hbreak ⊢
    rw [List.take_succ_cons, List.take_succ_cons, List.cons_append, List.cons_append, stringFrom]
    exact ih h hbreak
  | case3 before c cs _ hc => cases h
  | case4 before cs hsingle _ =>
    obtain ⟨rfl, _⟩ := Prod.mk.inj h
    rw [Nat.add_sub_cancel_left, List.drop_succ_cons, List.drop_zero] at hbreak
    rw [Nat.add_sub_cancel_left, List.take_succ_cons, List.take_zero, List.cons_append]
    -- No other quote follows, before and after the break.
    refine stringFrom_quote (hbreak.head?_any_eq_false rfl ?_) before
    cases cs with
    | nil => rfl
    | cons d cs =>
      by_cases hd : d = '\''
      · exact (hsingle cs rfl (by rw [hd])).elim
      · simpa using hd
  | case5 before c cs _ hc hquote ih =>
    have hle := (inline_stringFrom (before + 1) cs).1
    rw [h] at hle
    rw [show n - before = n - (before + 1) + 1 by omega] at hbreak ⊢
    rw [List.take_succ_cons, List.cons_append,
      stringFrom_cons_of_ne hquote (by simpa using hc)]
    exact ih h hbreak

/-- A string that was not closed reaches up to the end of a text that ends
    there. -/
theorem stringFrom_take {before n : Nat} {cs : List Char} (h : stringFrom before cs = (n, false)) :
    stringFrom before (cs.take (n - before)) = (n, false) := by
  fun_induction stringFrom before cs with
  | case1 before =>
    rw [List.take_nil, stringFrom]
    exact h
  | case2 before cs ih =>
    have hle := (inline_stringFrom (before + 2) cs).1
    rw [h] at hle
    rw [show n - before = n - (before + 2) + 1 + 1 by omega, List.take_succ_cons,
      List.take_succ_cons, stringFrom]
    exact ih h
  | case3 before c cs _ hc =>
    obtain ⟨rfl, _⟩ := Prod.mk.inj h
    rw [Nat.sub_self, List.take_zero, stringFrom]
  | case4 before cs _ _ => cases h
  | case5 before c cs _ hc hquote ih =>
    have hle := (inline_stringFrom (before + 1) cs).1
    rw [h] at hle
    rw [show n - before = n - (before + 1) + 1 by omega, List.take_succ_cons,
      stringFrom_cons_of_ne hquote (by simpa using hc)]
    exact ih h

/-! ### One lexeme -/

/-- One decision of a cut: a decision that was not made is not made after the
    break, and one that was made leads to the same result. -/
theorem ite_eq_of_ite_eq {p q : Prop} [Decidable p] [Decidable q] {a b a' b' x : LexemeKind × Nat}
    (h : (if p then a else b) = x) (hq : ¬ p → ¬ q) (hpos : p → a = x → q ∧ a' = x)
    (hneg : ¬ p → b = x → b' = x) : (if q then a' else b') = x := by
  by_cases hp : p
  · rw [if_pos hp] at h
    obtain ⟨hq, ha⟩ := hpos hp h
    rw [if_pos hq, ha]
  · rw [if_neg hp] at h
    rw [if_neg (hq hp), hneg hp h]

theorem isTrivia_commentCut (k : Comment) : (commentCut k).1.isTrivia = true := by
  rcases commentKind_eq k with h | h <;> rw [commentCut, h] <;> rfl

/-- A run that is guarded by a test of its first character is not empty. -/
theorem runLength_pos {p q : Char → Bool} {cs : List Char} (h : cs.head?.any p = true)
    (hpq : ∀ c, p c = true → q c = true) : 0 < runLength q cs := by
  cases cs with
  | nil => cases h
  | cons c cs =>
    rw [runLength_cons_of_pos (hpq c h)]
    exact Nat.succ_pos _

theorem charCodeLength_pos {cs : List Char}
    (h : (cs.head?.any fun d => d.isDigit || d == '$') = true) : 0 < charCodeLength cs := by
  fun_cases charCodeLength cs with
  | case1 cs => omega
  | case2 cs hmark =>
    cases cs with
    | nil => cases h
    | cons c cs =>
      have hc : c.isDigit = true := by
        rcases Bool.or_eq_true_iff.mp h with hdigit | hdollar
        · exact hdigit
        · exact (hmark cs (by rw [beq_iff_eq.mp hdollar])).elim
      rw [runLength_cons_of_pos (by rw [isHexDigit, hc, Bool.true_or, Bool.true_or])]
      exact Nat.succ_pos _

theorem any_beq_iff (next : Option Char) (d : Char) :
    (next.any fun x => x == d) = true ↔ next = some d := by
  cases next <;> simp

theorem isNameRest_of_isNameStart {c : Char} (h : isNameStart c = true) : isNameRest c = true := by
  simp only [isNameStart, isNameRest, Char.isAlphanum, Bool.or_eq_true] at h ⊢
  rcases h with (h | h) | h
  · exact Or.inl (Or.inl (Or.inl h))
  · exact Or.inl (Or.inr h)
  · exact Or.inr h

theorem orUnderscore_of_pos {p : Char → Bool} {c : Char} (h : p c = true) :
    orUnderscore p c = true := by
  rw [orUnderscore, h, Bool.true_or]

/-- A character that is the second one of no symbol makes none with the character
    before it. -/
theorem not_pairSymbol {d : Char} (hd : ∀ pair ∈ pairSymbols, pair.2 ≠ d) (c : Char) :
    pairSymbols.contains (c, d) = false := by
  rw [← Bool.not_eq_true]
  intro hmem
  exact hd (c, d) (List.elem_iff.mp hmem) rfl

/-! ### Tokens lie within their text -/

theorem exponentLength_le (cs : List Char) : exponentLength cs ≤ cs.length := by
  fun_cases exponentLength cs with
  | case1 e he d rest hd =>
    have hdigits : digitsLength rest ≤ rest.length := runLength_le _ rest
    simp only [List.length_cons]
    omega
  | case2 e he d rest hd hsign =>
    have hdigits : digitsLength rest ≤ rest.length := runLength_le _ rest
    simp only [List.length_cons]
    omega
  | case3 => exact Nat.zero_le _
  | case4 => exact Nat.zero_le _
  | case5 => exact Nat.zero_le _
  | case6 => exact Nat.zero_le _

theorem decimalLength_le (cs : List Char) : decimalLength cs ≤ cs.length := by
  have hdigits : digitsLength cs ≤ cs.length := runLength_le _ cs
  have hfraction := fractionLength_le (cs.drop (digitsLength cs))
  have hexponent := exponentLength_le
    (cs.drop (digitsLength cs + fractionLength (cs.drop (digitsLength cs))))
  rw [List.length_drop] at hfraction hexponent
  unfold decimalLength
  dsimp only
  omega

theorem charCodeLength_le (cs : List Char) : charCodeLength cs ≤ cs.length := by
  fun_cases charCodeLength cs with
  | case1 cs =>
    have hrun := runLength_le isHexDigit cs
    rw [List.length_cons]
    omega
  | case2 cs _ => exact runLength_le isHexDigit cs

theorem stringFrom_le (before : Nat) (cs : List Char) :
    (stringFrom before cs).1 ≤ before + cs.length := by
  fun_induction stringFrom before cs with
  | case1 before => exact Nat.le_refl _
  | case2 before cs ih =>
    simp only [List.length_cons]
    omega
  | case3 before c cs _ _ => exact Nat.le_add_right _ _
  | case4 before cs _ _ =>
    rw [List.length_cons]
    omega
  | case5 before c cs _ _ _ ih =>
    rw [List.length_cons]
    omega

theorem of_ite_eq {p Q : Prop} [Decidable p] {a b x : LexemeKind × Nat}
    (h : (if p then a else b) = x) (hpos : p → a = x → Q) (hneg : b = x → Q) : Q := by
  by_cases hp : p
  · rw [if_pos hp] at h
    exact hpos hp h
  · rw [if_neg hp] at h
    exact hneg h

theorem snd_commentCut_le {c : Char} {cs inner rest : List Char} {k : Comment}
    (hopener : c :: cs = k.style.opener ++ inner) (hreads : Reads k inner rest) :
    (commentCut k).2 ≤ cs.length := by
  have hlength := congrArg List.length (hopener.trans (congrArg _ hreads.text))
  simp only [commentCut, Comment.chars, List.length_append, List.length_cons] at hlength ⊢
  omega

theorem snd_ite_le {p : Prop} [Decidable p] {a b : LexemeKind × Nat} {n : Nat}
    (ha : p → a.2 ≤ n) (hb : b.2 ≤ n) : (if p then a else b).2 ≤ n := by
  by_cases hp : p
  · rw [if_pos hp]
    exact ha hp
  · rwa [if_neg hp]

/-- What is cut off a text lies within it. -/
theorem snd_cut_le (nested : Bool) (c : Char) (cs : List Char) :
    (cut nested c cs).2 ≤ cs.length := by
  have hone {p : Char → Bool} (h : cs.head?.any p = true) : 1 ≤ cs.length := by
    cases cs with
    | nil => cases h
    | cons d cs => exact Nat.succ_le_succ (Nat.zero_le _)
  unfold cut
  dsimp only
  refine snd_ite_le (fun hpair => ?_) (snd_ite_le (fun _ => Nat.zero_le _) ?_)
  · exact hone ((any_beq_iff _ '\n').mpr hpair.2)
  refine snd_ite_le (fun _ => runLength_le _ cs) (snd_ite_le (fun _ => ?_) ?_)
  · obtain ⟨rest, hreads⟩ := reads_blockComment .brace nested cs
    have hopener : '\x7b' :: cs = (blockComment .brace nested cs).style.opener ++ cs := by
      rw [blockComment_style]
      rfl
    exact snd_commentCut_le hopener hreads
  refine snd_ite_le (fun hparen => ?_) (snd_ite_le (fun hslash => ?_) ?_)
  · obtain ⟨rfl, hstar⟩ := hparen
    obtain ⟨inner, rfl⟩ := List.head?_eq_some_iff.mp hstar
    obtain ⟨rest, hreads⟩ := reads_blockComment .parenStar nested inner
    have hopener : '(' :: '*' :: inner
        = (blockComment .parenStar nested inner).style.opener ++ inner := by
      rw [blockComment_style]
      rfl
    exact snd_commentCut_le hopener hreads
  · obtain ⟨rfl, hnext⟩ := hslash
    obtain ⟨inner, rfl⟩ := List.head?_eq_some_iff.mp hnext
    exact snd_commentCut_le (c := '/') rfl (reads_lineComment inner)
  refine snd_ite_le (fun _ => ?_) ?_
  · have hstring := stringFrom_le 0 cs
    rwa [Nat.zero_add] at hstring
  refine snd_ite_le (fun _ => charCodeLength_le cs) (snd_ite_le (fun _ => runLength_le _ cs) ?_)
  refine snd_ite_le (fun _ => runLength_le _ cs) (snd_ite_le (fun _ => runLength_le _ cs) ?_)
  refine snd_ite_le (fun _ => runLength_le _ cs) (snd_ite_le (fun _ => decimalLength_le cs) ?_)
  exact snd_ite_le (fun _ => runLength_le _ cs) (snd_ite_le hone (Nat.zero_le _))

theorem le_of_cut {nested : Bool} {c : Char} {cs : List Char} {kind : LexemeKind} {n : Nat}
    (hcut : cut nested c cs = (kind, n)) : n ≤ cs.length := by
  have hle := snd_cut_le nested c cs
  rwa [hcut] at hle

/-- A token does not begin with a blank. -/
theorem isGap_eq_false_of_cut {nested : Bool} {c : Char} {cs : List Char} {kind : LexemeKind}
    {n : Nat} (hcut : cut nested c cs = (kind, n)) (htoken : kind.isTrivia = false) :
    isGap c = false := by
  have htrivia {x : LexemeKind × Nat} (hx : x.1.isTrivia = true) (h : x = (kind, n)) :
      isGap c = false := by
    rw [h, htoken] at hx
    cases hx
  unfold cut at hcut
  dsimp only at hcut
  refine of_ite_eq hcut (fun _ => htrivia rfl) (fun hcut => ?_)
  refine of_ite_eq hcut (fun _ => htrivia rfl) (fun hcut => ?_)
  by_cases hgap : isGap c = true
  · rw [if_pos hgap] at hcut
    exact htrivia rfl hcut
  · simpa using hgap

/-- A single blank is a lexeme of its own. -/
theorem exists_lexFrom_blank {c : Char} (hc : isGap c = false) (nested : Bool) (start : Location)
    (cs : List Char) :
    ∃ text stop, lexFrom nested start (' ' :: c :: cs)
      = ⟨.blank, text, start, stop⟩ :: lexFrom nested stop (c :: cs) := by
  have hrun : runLength isGap (c :: cs) = 0 := by
    rw [runLength, List.takeWhile_cons_of_neg (by simp [hc])]
    rfl
  have hcut : cut nested ' ' (c :: cs) = (.blank, 0) := by
    rw [← hrun]
    rfl
  rw [lexFrom, hcut]
  exact ⟨_, _, rfl⟩

/-! ### Tokens before a break -/

/-- A string is cut off in the same way from a text that breaks off after it,
    if it was closed or the text ends there. -/
theorem string_take_append {cs ds : List Char} {kind : LexemeKind} {n : Nat}
    (hcut : (LexemeKind.str (stringFrom 0 cs).2, (stringFrom 0 cs).1) = (kind, n))
    (hbreak : BreaksOff (cs.drop n) ds) (hclosed : kind = .str false → ds = []) :
    (LexemeKind.str (stringFrom 0 (cs.take n ++ ds)).2, (stringFrom 0 (cs.take n ++ ds)).1)
      = (kind, n) := by
  obtain ⟨hkind, hn⟩ := Prod.mk.inj hcut
  cases hread : (stringFrom 0 cs).2 with
  | true =>
    have hstring : stringFrom 0 cs = (n, true) := by rw [← hn, ← hread]
    have hlocal := stringFrom_take_append hstring hbreak
    rw [Nat.sub_zero] at hlocal
    rw [hlocal, ← hkind, hread]
  | false =>
    have hstring : stringFrom 0 cs = (n, false) := by rw [← hn, ← hread]
    have hlocal := stringFrom_take hstring
    rw [hread] at hkind
    rw [Nat.sub_zero] at hlocal
    rw [hclosed hkind.symm, List.append_nil, hlocal, ← hkind]

/-- A token is cut off in the same way from a text that breaks off after it,
    whether comments nest or not. A string that was not closed needs the end
    of the text after it. -/
theorem cut_take_append {nested : Bool} (nested' : Bool) {c : Char} {cs ds : List Char}
    {kind : LexemeKind} {n : Nat} (hcut : cut nested c cs = (kind, n))
    (htoken : kind.isTrivia = false) (hbreak : BreaksOff (cs.drop n) ds)
    (hclosed : kind = .str false → ds = []) : cut nested' c (cs.take n ++ ds) = (kind, n) := by
  have hfails {p : Char → Bool} (hblank : p ' ' = false) (h : ¬ cs.head?.any p = true) :
      ¬ (cs.take n ++ ds).head?.any p = true := by
    rw [Bool.not_eq_true] at h ⊢
    exact hbreak.of_drop.head?_any_eq_false hblank h
  have hkeeps {p : Char → Bool} (hblank : p ' ' = false) {mark : Char}
      (h : ¬ (c = mark ∧ cs.head?.any p = true)) :
      ¬ (c = mark ∧ (cs.take n ++ ds).head?.any p = true) :=
    fun hboth => hfails hblank (fun hany => h ⟨hboth.1, hany⟩) hboth.2
  have hmade {p : Char → Bool} (h : cs.head?.any p = true) (hn : 0 < n) :
      (cs.take n ++ ds).head?.any p = true := by
    cases cs with
    | nil => cases h
    | cons d cs =>
      cases n with
      | zero => cases hn
      | succ n => exact h
  have hnext {mark d : Char} (hd : (' ' == d) = false) (h : ¬ (c = mark ∧ cs.head? = some d)) :
      ¬ (c = mark ∧ (cs.take n ++ ds).head? = some d) := by
    rw [← any_beq_iff] at h ⊢
    exact hkeeps hd h
  have htrivia {x : LexemeKind × Nat} {P : Prop} (hx : x.1.isTrivia = true) (h : x = (kind, n)) :
      P := by
    rw [h, htoken] at hx
    cases hx
  -- A run of characters after a mark, of which the first one is special.
  have hrun {mark : Char} {kind' : LexemeKind} {p q : Char → Bool} (hblank : q ' ' = false)
      (hpq : ∀ c, p c = true → q c = true) (hmark : c = mark ∧ cs.head?.any p = true)
      (h : (kind', runLength q cs) = (kind, n)) :
      (c = mark ∧ (cs.take n ++ ds).head?.any p = true) ∧
        (kind', runLength q (cs.take n ++ ds)) = (kind, n) := by
    obtain ⟨rfl, rfl⟩ := Prod.mk.inj h
    exact ⟨⟨hmark.1, hmade hmark.2 (runLength_pos hmark.2 hpq)⟩,
      by rw [local_runLength hblank cs ds hbreak]⟩
  unfold cut at hcut ⊢
  dsimp only at hcut ⊢
  -- Trivia is ruled out, arm by arm.
  refine ite_eq_of_ite_eq hcut (hnext rfl) (fun _ h => htrivia rfl h) (fun _ hcut => ?_)
  refine ite_eq_of_ite_eq hcut id (fun _ h => htrivia rfl h) (fun _ hcut => ?_)
  refine ite_eq_of_ite_eq hcut id (fun _ h => htrivia rfl h) (fun _ hcut => ?_)
  refine ite_eq_of_ite_eq hcut id (fun _ h => htrivia (isTrivia_commentCut _) h) (fun _ hcut => ?_)
  refine ite_eq_of_ite_eq hcut (hnext rfl) (fun _ h => htrivia (isTrivia_commentCut _) h)
    (fun _ hcut => ?_)
  refine ite_eq_of_ite_eq hcut (hnext rfl) (fun _ h => htrivia (isTrivia_commentCut _) h)
    (fun _ hcut => ?_)
  -- A string, closed or not.
  refine ite_eq_of_ite_eq hcut id
    (fun hquote h => ⟨hquote, string_take_append h hbreak hclosed⟩) (fun _ hcut => ?_)
  -- Names and numbers after a mark.
  refine ite_eq_of_ite_eq hcut (hkeeps rfl) (fun hmark h => ?_) (fun _ hcut => ?_)
  · obtain ⟨rfl, rfl⟩ := Prod.mk.inj h
    exact ⟨⟨hmark.1, hmade hmark.2 (charCodeLength_pos hmark.2)⟩,
      by rw [local_charCodeLength cs ds hbreak]⟩
  refine ite_eq_of_ite_eq hcut (hkeeps rfl) (hrun rfl fun _ => isNameRest_of_isNameStart)
    (fun _ hcut => ?_)
  refine ite_eq_of_ite_eq hcut (hkeeps rfl) (hrun rfl fun _ => orUnderscore_of_pos)
    (fun _ hcut => ?_)
  refine ite_eq_of_ite_eq hcut (hkeeps rfl) (hrun rfl fun _ => orUnderscore_of_pos)
    (fun _ hcut => ?_)
  refine ite_eq_of_ite_eq hcut (hkeeps rfl) (hrun rfl fun _ => orUnderscore_of_pos)
    (fun _ hcut => ?_)
  -- Numbers and names without one.
  refine ite_eq_of_ite_eq hcut id (fun hdigit h => ⟨hdigit, ?_⟩) (fun _ hcut => ?_)
  · obtain ⟨rfl, rfl⟩ := Prod.mk.inj h
    rw [local_decimalLength cs ds hbreak]
  refine ite_eq_of_ite_eq hcut id (fun hname h => ⟨hname, ?_⟩) (fun _ hcut => ?_)
  · obtain ⟨rfl, rfl⟩ := Prod.mk.inj h
    have htaken : (cs.take (runLength isNameRest cs)).length = runLength isNameRest cs := by
      rw [List.length_take, Nat.min_eq_left (runLength_le _ cs)]
    rw [nameCut, local_runLength rfl cs ds hbreak, List.take_left' htaken]
  -- Symbols.
  refine ite_eq_of_ite_eq hcut (hfails (not_pairSymbol (by decide) c)) (fun hpair h => ?_)
    (fun _ h => h)
  · obtain ⟨rfl, rfl⟩ := Prod.mk.inj h
    exact ⟨hmade hpair Nat.one_pos, rfl⟩

end PascalOutline.Lexer
