import PascalOutline.Lexeme.Lexer

/-! # What one cut takes

  The lexer decides by the first characters of a text what its first lexeme
  is and how far it reaches. Whatever it decides, one of three things is cut
  off:

  - a whole line end;
  - a comment or directive from its opener to its closer, or to where the
    line or the text ends;
  - a piece of one line.

  `cuts_cut` says so for every text; nothing after it opens the definition
  of `cut`.
-/

namespace PascalOutline.Lexer

/-! ### Pieces of a line -/

/-- The first `n` characters of a text stand on one line. -/
def Inline (cs : List Char) (n : Nat) : Prop :=
  ∀ x ∈ cs.take n, isLineEnd x = false

theorem inline_zero (cs : List Char) : Inline cs 0 := by
  intro x hx
  simp at hx

theorem inline_succ {c : Char} {cs : List Char} {n : Nat} (hc : isLineEnd c = false)
    (h : Inline cs n) : Inline (c :: cs) (n + 1) := by
  intro x hx
  rw [List.take_succ_cons] at hx
  rcases List.mem_cons.mp hx with rfl | hx
  · exact hc
  · exact h x hx

theorem inline_add {cs : List Char} {m n : Nat} (hm : Inline cs m) (hn : Inline (cs.drop m) n) :
    Inline cs (m + n) := by
  intro x hx
  rw [List.take_add] at hx
  rcases List.mem_append.mp hx with hx | hx
  · exact hm x hx
  · exact hn x hx

/-- A test that neither of the two line ends passes. -/
def RefusesLineEnds (p : Char → Bool) : Prop :=
  p '\n' = false ∧ p '\r' = false

theorem RefusesLineEnds.isLineEnd_eq_false {p : Char → Bool} (hp : RefusesLineEnds p) {x : Char}
    (hx : p x = true) : isLineEnd x = false := by
  by_cases hn : x = '\n'
  · subst hn
    rw [hp.1] at hx
    cases hx
  · by_cases hr : x = '\r'
    · subst hr
      rw [hp.2] at hx
      cases hx
    · simp [isLineEnd, hn, hr]

theorem take_runLength (p : Char → Bool) (cs : List Char) :
    cs.take (runLength p cs) = cs.takeWhile p :=
  (List.prefix_iff_eq_take.mp (List.takeWhile_prefix p)).symm

theorem inline_runLength {p : Char → Bool} (hp : RefusesLineEnds p) (cs : List Char) :
    Inline cs (runLength p cs) := by
  intro x hx
  rw [take_runLength] at hx
  exact hp.isLineEnd_eq_false (List.all_eq_true.mp List.all_takeWhile x hx)

/-! ### Numbers and strings -/

theorem inline_digitsLength (cs : List Char) : Inline cs (digitsLength cs) :=
  inline_runLength ⟨rfl, rfl⟩ cs

theorem refusesLineEnds_isDigit : RefusesLineEnds Char.isDigit := ⟨rfl, rfl⟩

theorem inline_fractionLength (cs : List Char) : Inline cs (fractionLength cs) := by
  fun_cases fractionLength cs with
  | case1 d cs hd =>
    rw [Nat.add_comm]
    exact inline_succ rfl (inline_digitsLength (d :: cs))
  | case2 => exact inline_zero _
  | case3 => exact inline_zero _

theorem inline_exponentLength (cs : List Char) : Inline cs (exponentLength cs) := by
  have hmark : RefusesLineEnds fun e => e == 'e' || e == 'E' := ⟨rfl, rfl⟩
  have hsign : RefusesLineEnds fun d => d == '+' || d == '-' := ⟨rfl, rfl⟩
  fun_cases exponentLength cs with
  | case1 e he d rest hd =>
    -- The mark is followed by a digit.
    rw [Nat.add_comm]
    refine inline_succ (hmark.isLineEnd_eq_false he) (inline_succ ?_ (inline_digitsLength rest))
    exact refusesLineEnds_isDigit.isLineEnd_eq_false hd
  | case2 e he d rest _ hd =>
    -- The mark is followed by a sign and a digit.
    rw [Nat.add_comm]
    refine inline_succ (hmark.isLineEnd_eq_false he) (inline_succ ?_ (inline_digitsLength rest))
    exact hsign.isLineEnd_eq_false (Bool.and_eq_true_iff.mp hd).1
  | case3 => exact inline_zero _
  | case4 => exact inline_zero _
  | case5 => exact inline_zero _
  | case6 => exact inline_zero _

theorem inline_decimalLength (cs : List Char) : Inline cs (decimalLength cs) := by
  unfold decimalLength
  refine inline_add (inline_add (inline_digitsLength cs) ?_) ?_
  · exact inline_fractionLength _
  · exact inline_exponentLength _

theorem inline_charCodeLength (cs : List Char) : Inline cs (charCodeLength cs) := by
  fun_cases charCodeLength cs with
  | case1 cs =>
    rw [Nat.add_comm]
    exact inline_succ rfl (inline_runLength ⟨rfl, rfl⟩ cs)
  | case2 => exact inline_runLength ⟨rfl, rfl⟩ _

/-- A string ends before its line does. The induction carries the number of
    characters that were passed before. -/
theorem inline_stringFrom (before : Nat) (cs : List Char) :
    before ≤ (stringFrom before cs).1 ∧ Inline cs ((stringFrom before cs).1 - before) := by
  fun_induction stringFrom before cs with
  | case1 before => exact ⟨Nat.le_refl _, fun x hx => by simp at hx⟩
  | case2 before cs ih =>
    -- Two quotes stand for one, and the string goes on.
    obtain ⟨hle, hin⟩ := ih
    refine ⟨by omega, ?_⟩
    have hcount : (stringFrom (before + 2) cs).1 - before
        = (stringFrom (before + 2) cs).1 - (before + 2) + 1 + 1 := by omega
    rw [hcount]
    exact inline_succ rfl (inline_succ rfl hin)
  | case3 before c cs _ hc =>
    -- The line ends first, and its end is not taken.
    refine ⟨Nat.le_refl _, ?_⟩
    rw [Nat.sub_self]
    exact inline_zero _
  | case4 before cs _ _ =>
    -- The closing quote is taken.
    refine ⟨Nat.le_succ _, ?_⟩
    rw [Nat.add_sub_cancel_left]
    exact inline_succ rfl (inline_zero _)
  | case5 before c cs _ hc _ ih =>
    obtain ⟨hle, hin⟩ := ih
    refine ⟨by omega, ?_⟩
    have hcount : (stringFrom (before + 1) cs).1 - before
        = (stringFrom (before + 1) cs).1 - (before + 1) + 1 := by omega
    rw [hcount]
    exact inline_succ (by simpa using hc) hin

/-! ### Comments -/

/-- A closer found after the first character of a text is found in the text. -/
theorem closer_prefix_drop_cons {closer cs : List Char} {before n : Nat} (c : Char)
    (h : before + 1 ≤ n ∧ closer <+: cs.drop (n - (before + 1))) :
    before ≤ n ∧ closer <+: (c :: cs).drop (n - before) := by
  obtain ⟨hle, hcloser⟩ := h
  refine ⟨by omega, ?_⟩
  rwa [show n - before = n - (before + 1) + 1 by omega, List.drop_succ_cons]

/-- A closer stands where the end of a comment was found. The induction
    carries the number of characters that were passed before. -/
theorem closer_prefix_of_closerFrom {style : BlockStyle} {nested : Bool}
    {depth skip before n : Nat} {cs : List Char}
    (h : style.closerFrom nested depth skip before cs = some n) :
    before ≤ n ∧ style.closer <+: cs.drop (n - before) := by
  -- Only `case3` finds a closer. All other cases pass one character, and what
  -- they skip or count makes no difference to the place.
  fun_induction BlockStyle.closerFrom style nested depth skip before cs with
  | case1 => cases h
  | case2 depth skip before c cs ih => exact closer_prefix_drop_cons c (ih h)
  | case3 before c cs hcloser =>
    cases h
    refine ⟨Nat.le_refl _, ?_⟩
    rw [Nat.sub_self]
    exact List.isPrefixOf_iff_prefix.mp hcloser
  | case4 before c cs _ depth ih => exact closer_prefix_drop_cons c (ih h)
  | case5 depth before c cs _ _ ih => exact closer_prefix_drop_cons c (ih h)
  | case6 depth before c cs _ _ ih => exact closer_prefix_drop_cons c (ih h)

/-- A comment as it is read from the text after its opener: its body and its
    closer begin that text; without a closer it reaches to the end of the line
    or of the text. -/
structure Reads (k : Comment) (cs rest : List Char) : Prop where
  /-- The body, the closer and the rest make up the text. -/
  text : cs = k.body ++ k.closing ++ rest
  /-- Only a block comment has a closer. -/
  closed : k.closed = true → k.style ≠ .line
  /-- Only a line comment or the end of the text makes do without one. -/
  unclosed : k.closed = false → k.style = .line ∨ rest = []
  /-- A line comment stays on its line. -/
  line : k.style = .line → ∀ x ∈ k.body, isLineEnd x = false

theorem reads_blockComment (style : BlockStyle) (nested : Bool) (cs : List Char) :
    ∃ rest, Reads (blockComment style nested cs) cs rest := by
  unfold blockComment BlockStyle.closerAt
  split
  · next n h =>
    obtain ⟨_, rest, hrest⟩ := closer_prefix_of_closerFrom h
    rw [Nat.sub_zero] at hrest
    refine ⟨rest, ?_, by simp, by simp, by simp⟩
    show cs = cs.take n ++ style.closer ++ rest
    rw [List.append_assoc, hrest, List.take_append_drop]
  · -- Without a closer the comment takes all of the text.
    refine ⟨[], ?_, by simp, by simp, by simp⟩
    show cs = cs ++ [] ++ []
    simp

theorem blockComment_style (style : BlockStyle) (nested : Bool) (cs : List Char) :
    (blockComment style nested cs).style = .block style := by
  unfold blockComment
  split <;> rfl

theorem reads_lineComment (cs : List Char) :
    Reads (lineComment cs) cs (cs.dropWhile fun c => !isLineEnd c) := by
  refine ⟨?_, ?_, ?_, ?_⟩
  · show cs = cs.takeWhile _ ++ [] ++ cs.dropWhile _
    rw [List.append_nil, List.takeWhile_append_dropWhile]
  · intro h
    cases h
  · intro _
    exact Or.inl rfl
  · intro _ x hx
    have hx := List.all_eq_true.mp List.all_takeWhile x hx
    simpa using hx

theorem commentKind_eq (k : Comment) :
    commentKind k = .comment k ∨ commentKind k = .directive k := by
  unfold commentKind
  split
  · exact Or.inr rfl
  · exact Or.inl rfl

theorem commentKind_comment? {l : Lexeme} {k : Comment} (h : l.kind = commentKind k) :
    l.comment? = some k := by
  rcases commentKind_eq k with hk | hk <;> rw [Lexeme.comment?, h, hk]

/-! ### One lexeme -/

/-- What is cut off a text that begins with `c`: its kind and the number of
    characters after `c`. -/
inductive Cuts (c : Char) (cs : List Char) : LexemeKind → Nat → Prop where
  /-- A whole line end. -/
  | newline (n : Nat)
      (whole : (c :: cs.take n).getLast? = some '\r' → (cs.drop n).head? ≠ some '\n') :
      Cuts c cs .newline n
  /-- A comment or directive, of which the opener has the first characters. -/
  | comment (k : Comment) (n : Nat) (inner : List Char) (chars : c :: cs.take n = k.chars)
      (reads : Reads k inner (cs.drop n)) : Cuts c cs (commentKind k) n
  /-- A piece of one line that is no comment. -/
  | inline (kind : LexemeKind) (n : Nat)
      (plain : ∀ k, kind ≠ .comment k ∧ kind ≠ .directive k)
      (first : isLineEnd c = false) (others : Inline cs n) : Cuts c cs kind n

/-- A comment as a lexeme takes its characters from the text. -/
theorem split_commentCut {c : Char} {cs inner rest : List Char} {k : Comment}
    (hopener : c :: cs = k.style.opener ++ inner) (hreads : Reads k inner rest) :
    c :: cs.take (commentCut k).2 = k.chars ∧ cs.drop (commentCut k).2 = rest := by
  have hpos : 0 < k.chars.length := by
    have hopener_pos : 0 < k.style.opener.length := by
      cases k.style with
      | block style => exact style.opener_length_pos
      | line => exact Nat.zero_lt_two
    simp only [Comment.chars, List.length_append]
    omega
  have hsplit : c :: cs = k.chars ++ rest := by
    rw [hopener, hreads.text, Comment.chars]
    simp only [List.append_assoc]
  -- The comment takes the first character of the text with it.
  have hlength : k.chars.length = (commentCut k).2 + 1 := by
    rw [commentCut]
    omega
  constructor
  · rw [← List.take_succ_cons, ← hlength, hsplit, List.take_left]
  · rw [← List.drop_succ_cons (a := c), ← hlength, hsplit, List.drop_left]

theorem cuts_commentCut {c : Char} {cs inner rest : List Char} {k : Comment}
    (hopener : c :: cs = k.style.opener ++ inner) (hreads : Reads k inner rest) :
    Cuts c cs (commentCut k).1 (commentCut k).2 := by
  obtain ⟨htake, hdrop⟩ := split_commentCut hopener hreads
  exact .comment k (commentCut k).2 inner htake (hdrop ▸ hreads)

/-- An opener begins the comment that is read from the text after it. -/
theorem cut_of_opener {style : BlockStyle} {nested : Bool} {c : Char} {cs inner : List Char}
    (h : c :: cs = style.opener ++ inner) :
    cut nested c cs = commentCut (blockComment style nested inner) := by
  cases style with
  | brace =>
    cases h
    rfl
  | parenStar =>
    cases h
    rfl

/-- The second character of a symbol is no line end. -/
theorem inline_pairSymbol {c : Char} {cs : List Char}
    (h : (cs.head?.any fun d => pairSymbols.contains (c, d)) = true) : Inline cs 1 := by
  have hsymbols : ∀ pair ∈ pairSymbols, isLineEnd pair.2 = false := by decide
  cases cs with
  | nil => cases h
  | cons d cs =>
    have hmem : (c, d) ∈ pairSymbols := List.elem_iff.mp h
    exact inline_succ (hsymbols (c, d) hmem) (inline_zero cs)

theorem cuts_ite {c : Char} {cs : List Char} {p : Prop} [Decidable p] {a b : LexemeKind × Nat}
    (ha : p → Cuts c cs a.1 a.2) (hb : ¬ p → Cuts c cs b.1 b.2) :
    Cuts c cs (if p then a else b).1 (if p then a else b).2 := by
  by_cases hp : p
  · rw [if_pos hp]
    exact ha hp
  · rw [if_neg hp]
    exact hb hp

/-- Every cut takes a whole line end, a comment, or a piece of one line. -/
theorem cuts_cut (nested : Bool) (c : Char) (cs : List Char) :
    Cuts c cs (cut nested c cs).1 (cut nested c cs).2 := by
  unfold cut
  -- The pair of a carriage return and a line feed is tested before single line
  -- ends, so a single carriage return has no line feed after it.
  refine cuts_ite (fun hpair => ?_) (fun hpair => cuts_ite (fun hend => ?_) (fun hend => ?_))
  · obtain ⟨rest, rfl⟩ := List.head?_eq_some_iff.mp hpair.2
    exact .newline 1 (fun hlast => by simp at hlast)
  · refine .newline 0 (fun hlast hhead => hpair ⟨?_, hhead⟩)
    simpa using hlast
  have hfirst : isLineEnd c = false := by simpa using hend
  have hrun (kind : LexemeKind) (plain : ∀ k, kind ≠ .comment k ∧ kind ≠ .directive k)
      {p : Char → Bool} (hp : RefusesLineEnds p) : Cuts c cs kind (runLength p cs) :=
    .inline kind _ plain hfirst (inline_runLength hp cs)
  refine cuts_ite (fun _ => hrun _ (by simp) ⟨rfl, rfl⟩) (fun _ => ?_)
  -- The three comments: the opener is what the first characters were tested for.
  refine cuts_ite (fun hbrace => ?_) (fun _ => cuts_ite (fun hparen => ?_) (fun _ =>
    cuts_ite (fun hslash => ?_) (fun _ => ?_)))
  · obtain ⟨rest, hreads⟩ := reads_blockComment .brace nested cs
    subst hbrace
    exact cuts_commentCut (blockComment_style .brace nested cs ▸ rfl) hreads
  · obtain ⟨rfl, hstar⟩ := hparen
    obtain ⟨inner, rfl⟩ := List.head?_eq_some_iff.mp hstar
    obtain ⟨rest, hreads⟩ := reads_blockComment .parenStar nested inner
    exact cuts_commentCut (blockComment_style .parenStar nested inner ▸ rfl) hreads
  · obtain ⟨rfl, hnext⟩ := hslash
    obtain ⟨inner, rfl⟩ := List.head?_eq_some_iff.mp hnext
    exact cuts_commentCut rfl (reads_lineComment inner)
  -- Everything else lies within one line.
  refine cuts_ite (fun _ => ?_) (fun _ => ?_)
  · obtain ⟨_, hin⟩ := inline_stringFrom 0 cs
    exact .inline _ _ (by simp) hfirst hin
  refine cuts_ite (fun _ => ?_) (fun _ => ?_)
  · exact .inline _ _ (by simp) hfirst (inline_charCodeLength cs)
  refine cuts_ite (fun _ => hrun _ (by simp) ⟨rfl, rfl⟩) (fun _ => ?_)
  refine cuts_ite (fun _ => hrun _ (by simp) ⟨rfl, rfl⟩) (fun _ => ?_)
  refine cuts_ite (fun _ => hrun _ (by simp) ⟨rfl, rfl⟩) (fun _ => ?_)
  refine cuts_ite (fun _ => hrun _ (by simp) ⟨rfl, rfl⟩) (fun _ => ?_)
  refine cuts_ite (fun _ => ?_) (fun _ => ?_)
  · exact .inline _ _ (by simp) hfirst (inline_decimalLength cs)
  refine cuts_ite (fun _ => hrun _ (by simp [nameCut]) ⟨rfl, rfl⟩) (fun _ => ?_)
  refine cuts_ite (fun hsymbol => ?_) (fun _ => ?_)
  · exact .inline _ _ (by simp) hfirst (inline_pairSymbol hsymbol)
  · exact .inline _ _ (by simp) hfirst (inline_zero cs)

theorem cuts_of_cut {nested : Bool} {c : Char} {cs : List Char} {kind : LexemeKind} {n : Nat}
    (hcut : cut nested c cs = (kind, n)) : Cuts c cs kind n := by
  have hcuts := cuts_cut nested c cs
  rwa [hcut] at hcuts

/-! ### Line ends stay whole -/

theorem getLast?_ne_of_inline {c : Char} {cs : List Char} {n : Nat} (hfirst : isLineEnd c = false)
    (hothers : Inline cs n) : (c :: cs.take n).getLast? ≠ some '\r' := by
  intro hlast
  have hmem : '\r' ∈ c :: cs.take n := List.mem_of_getLast? hlast
  rcases List.mem_cons.mp hmem with rfl | hmem
  · cases hfirst
  · have hend := hothers '\r' hmem
    cases hend

/-- The last character of a comment is a carriage return only if the comment
    was not closed before the end of the text. -/
theorem Reads.getLast?_chars_ne {k : Comment} {cs rest : List Char} (h : Reads k cs rest)
    (hrest : rest ≠ []) : k.chars.getLast? ≠ some '\r' := by
  obtain ⟨style, body, closed⟩ := k
  cases closed with
  | true =>
    cases style with
    | line => exact absurd rfl (h.closed rfl)
    | block style =>
      -- The last character is that of the closer.
      have hclosing : (Comment.mk (.block style) body true).closing = style.closer := rfl
      rw [Comment.chars, hclosing, List.getLast?_append]
      cases style <;> simp [BlockStyle.closer]
  | false =>
    rcases h.unclosed rfl with hline | hnil
    · -- A line comment has no line end in it.
      obtain rfl : style = .line := hline
      intro hlast
      have hmem : '\r' ∈ ['/', '/'] ++ body ++ [] := List.mem_of_getLast? hlast
      have hbody : '\r' ∈ body := by simpa using hmem
      cases h.line rfl '\r' hbody
    · exact absurd hnil hrest

/-- No cut parts a carriage return from its line feed. -/
theorem Cuts.whole {c : Char} {cs : List Char} {kind : LexemeKind} {n : Nat}
    (h : Cuts c cs kind n) (hlast : (c :: cs.take n).getLast? = some '\r') :
    (cs.drop n).head? ≠ some '\n' := by
  cases h with
  | newline n whole => exact whole hlast
  | comment k n inner chars reads =>
    intro hhead
    rw [chars] at hlast
    refine reads.getLast?_chars_ne ?_ hlast
    intro hnil
    rw [hnil] at hhead
    cases hhead
  | inline kind n plain first others => exact absurd hlast (getLast?_ne_of_inline first others)

end PascalOutline.Lexer
