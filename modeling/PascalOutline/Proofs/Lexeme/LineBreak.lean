import PascalOutline.Proofs.Lexeme.Extent
import PascalOutline.Proofs.Lexeme.Tiling

/-! # A line feed ends a lexeme as the end of the text does

  No lexeme but a block comment goes on over a line feed, and what stands after
  one decides nothing before it. So a text is cut in the same way whether it
  ends or a line feed follows; of block comments this holds when they are
  closed. A carriage return at the end of the text would take the line feed to
  itself, and is left out.

  `lexFrom_append_lineFeed` says so for all lexemes of a text.
-/

namespace PascalOutline

/-- A lexeme of this kind is no block comment that lacks its closer. -/
def LexemeKind.IsWhole : LexemeKind → Prop
  | .comment k | .directive k => k.style = .line ∨ k.closed = true
  | _ => True

instance : DecidablePred LexemeKind.IsWhole
  | .comment k | .directive k => inferInstanceAs (Decidable (k.style = .line ∨ k.closed = true))
  | .ident _ _ | .number | .str _ | .charCode | .symbol | .blank | .newline => .isTrue trivial

namespace Lexer

/-! ### Lengths -/

theorem head?_any_append_lineFeed {p : Char → Bool} (hp : p '\n' = false) (cs ds : List Char) :
    (cs ++ '\n' :: ds).head?.any p = cs.head?.any p := by
  cases cs with
  | nil => exact hp
  | cons c cs => rfl

theorem takeWhile_append_lineFeed {p : Char → Bool} (hp : p '\n' = false) (cs ds : List Char) :
    (cs ++ '\n' :: ds).takeWhile p = cs.takeWhile p := by
  induction cs with
  | nil => rw [List.nil_append, List.takeWhile_cons_of_neg (Bool.eq_false_iff.mp hp)]; rfl
  | cons c cs ih => rw [List.cons_append, List.takeWhile_cons, List.takeWhile_cons, ih]

theorem runLength_append_lineFeed {p : Char → Bool} (hp : p '\n' = false) (cs ds : List Char) :
    runLength p (cs ++ '\n' :: ds) = runLength p cs :=
  congrArg List.length (takeWhile_append_lineFeed hp cs ds)

/-- What stays on its line ends before the line feed. -/
theorem Inline.le_length {cs ds : List Char} {n : Nat} (h : Inline (cs ++ '\n' :: ds) n) :
    n ≤ cs.length := by
  by_contra hlt
  have hmem : '\n' ∈ (cs ++ '\n' :: ds).take n := by
    rw [List.take_append, List.mem_append, show n - cs.length = n - cs.length - 1 + 1 by omega]
    exact .inr List.mem_cons_self
  exact absurd (h '\n' hmem) (by decide)

/-- A length on one line that depends on nothing far ahead is the same before a
    line feed. -/
theorem Local.append_lineFeed {length : List Char → Nat} (hlocal : Local length)
    (hinline : ∀ cs, Inline cs (length cs)) (cs ds : List Char) :
    length (cs ++ '\n' :: ds) = length cs := by
  have hle := (hinline (cs ++ '\n' :: ds)).le_length
  have hsame := hlocal (cs ++ '\n' :: ds) (cs.drop (length (cs ++ '\n' :: ds))) ?_
  · rw [List.take_append_of_le_length hle, List.take_append_drop] at hsame
    exact hsame.symm
  · rw [List.drop_append_of_le_length hle]
    generalize cs.drop (length (cs ++ '\n' :: ds)) = rest
    have hbreak := (BreaksOff.end_ ('\n' :: ds)).append_left rest
    rwa [List.append_nil] at hbreak

theorem charCodeLength_append_lineFeed (cs ds : List Char) :
    charCodeLength (cs ++ '\n' :: ds) = charCodeLength cs :=
  local_charCodeLength.append_lineFeed inline_charCodeLength cs ds

theorem decimalLength_append_lineFeed (cs ds : List Char) :
    decimalLength (cs ++ '\n' :: ds) = decimalLength cs :=
  local_decimalLength.append_lineFeed inline_decimalLength cs ds

theorem stringFrom_append_lineFeed (before : Nat) (cs ds : List Char) :
    stringFrom before (cs ++ '\n' :: ds) = stringFrom before cs := by
  fun_induction stringFrom before cs with
  | case1 before => rw [List.nil_append, stringFrom_cons_of_isLineEnd rfl]
  | case2 before cs ih => rw [List.cons_append, List.cons_append, stringFrom, ih]
  | case3 before c cs _ hc => rw [List.cons_append, stringFrom_cons_of_isLineEnd hc]
  | case4 before cs hsingle _ =>
    rw [List.cons_append]
    refine stringFrom_quote ?_ before
    rw [head?_any_append_lineFeed rfl]
    cases cs with
    | nil => rfl
    | cons d cs =>
      by_cases hd : d = '\''
      · exact (hsingle cs rfl (by rw [hd])).elim
      · simpa using hd
  | case5 before c cs _ hc hquote ih =>
    rw [List.cons_append, stringFrom_cons_of_ne hquote (by simpa using hc), ih]

/-! ### Comments -/

theorem isPrefixOf_append_lineFeed {mark : List Char} (hmark : '\n' ∉ mark) (cs ds : List Char) :
    mark.isPrefixOf (cs ++ '\n' :: ds) = mark.isPrefixOf cs := by
  induction mark generalizing cs with
  | nil => rfl
  | cons m mark ih =>
    rw [List.mem_cons, not_or] at hmark
    cases cs with
    | nil =>
      have hne : (m == '\n') = false := by simpa using Ne.symm hmark.1
      rw [List.nil_append, List.isPrefixOf_cons_cons, hne]
      rfl
    | cons c cs =>
      rw [List.cons_append, List.isPrefixOf_cons_cons, List.isPrefixOf_cons_cons, ih hmark.2]

/-- The closer of a comment stays where it is. -/
theorem closerFrom_append_lineFeed {style : BlockStyle} {nested : Bool} {depth skip before n : Nat}
    {cs : List Char} (h : style.closerFrom nested depth skip before cs = some n) (ds : List Char) :
    style.closerFrom nested depth skip before (cs ++ '\n' :: ds) = some n := by
  have hopener (c : Char) (cs : List Char) :
      style.opener.isPrefixOf (c :: (cs ++ '\n' :: ds)) = style.opener.isPrefixOf (c :: cs) :=
    isPrefixOf_append_lineFeed (by cases style <;> decide) (c :: cs) ds
  have hcloser (c : Char) (cs : List Char) :
      style.closer.isPrefixOf (c :: (cs ++ '\n' :: ds)) = style.closer.isPrefixOf (c :: cs) :=
    isPrefixOf_append_lineFeed (by cases style <;> decide) (c :: cs) ds
  fun_induction BlockStyle.closerFrom style nested depth skip before cs with
  | case1 => cases h
  | case2 depth skip before c cs ih =>
    rw [List.cons_append, BlockStyle.closerFrom]
    exact ih h
  | case3 before c cs hclose =>
    rw [List.cons_append, BlockStyle.closerFrom, hcloser, if_pos hclose]
    exact h
  | case4 before c cs hclose depth ih =>
    rw [List.cons_append, BlockStyle.closerFrom, hcloser, if_pos hclose]
    exact ih h
  | case5 depth before c cs hclose hopen ih =>
    rw [List.cons_append, BlockStyle.closerFrom_of_closer_eq_false, hopener, if_pos hopen]
    · exact ih h
    · rw [hcloser]
      exact Bool.eq_false_iff.mpr hclose
  | case6 depth before c cs hclose hopen ih =>
    rw [List.cons_append, BlockStyle.closerFrom_of_closer_eq_false, hopener, if_neg hopen]
    · exact ih h
    · rw [hcloser]
      exact Bool.eq_false_iff.mpr hclose

theorem blockComment_append_lineFeed {style : BlockStyle} {nested : Bool} {cs : List Char}
    (h : (blockComment style nested cs).closed = true) (ds : List Char) :
    blockComment style nested (cs ++ '\n' :: ds) = blockComment style nested cs := by
  cases hcloser : style.closerAt nested cs with
  | none =>
    rw [blockComment, hcloser] at h
    cases h
  | some n =>
    have hle : n ≤ cs.length := by
      obtain ⟨_, hprefix⟩ := closer_prefix_of_closerFrom hcloser
      by_contra hlt
      rw [Nat.sub_zero, List.drop_of_length_le (by omega), List.prefix_nil] at hprefix
      cases style <;> cases hprefix
    have hcloser' : style.closerAt nested (cs ++ '\n' :: ds) = some n :=
      closerFrom_append_lineFeed hcloser ds
    rw [blockComment, hcloser', blockComment, hcloser]
    dsimp only
    rw [List.take_append_of_le_length hle]

theorem lineComment_append_lineFeed (cs ds : List Char) :
    lineComment (cs ++ '\n' :: ds) = lineComment cs := by
  rw [lineComment, takeWhile_append_lineFeed (by decide)]
  rfl

theorem isWhole_commentKind {k : Comment} :
    (commentKind k).IsWhole ↔ k.style = .line ∨ k.closed = true := by
  rcases commentKind_eq k with h | h <;> rw [h] <;> rfl

/-- A block comment is whole if and only if it is closed. -/
theorem closed_of_isWhole {style : BlockStyle} {nested : Bool} {cs : List Char}
    (h : (commentCut (blockComment style nested cs)).1.IsWhole) :
    (blockComment style nested cs).closed = true := by
  rcases isWhole_commentKind.mp h with hline | hclosed
  · rw [blockComment_style] at hline
    cases hline
  · exact hclosed

/-! ### One lexeme -/

/-- One decision of a cut that gives a whole lexeme. -/
theorem ite_congr_of_isWhole {p q : Prop} [Decidable p] [Decidable q] {a b a' b' : LexemeKind × Nat}
    (h : (if p then a else b).1.IsWhole) (hpq : q ↔ p) (ha : p → a.1.IsWhole → a' = a)
    (hb : b.1.IsWhole → b' = b) : (if q then a' else b') = if p then a else b := by
  by_cases hp : p
  · rw [if_pos hp] at h
    rw [if_pos hp, if_pos (hpq.mpr hp), ha hp h]
  · rw [if_neg hp] at h
    rw [if_neg hp, if_neg (mt hpq.mp hp), hb h]

theorem nameCut_append_lineFeed (c : Char) (cs ds : List Char) :
    nameCut c (cs ++ '\n' :: ds) = nameCut c cs := by
  rw [nameCut, runLength_append_lineFeed (by decide),
    List.take_append_of_le_length (runLength_le _ cs)]
  rfl

/-- What a text begins with does not change when a line feed follows. -/
theorem cut_append_lineFeed {nested : Bool} {c : Char} {cs : List Char}
    (hreturn : (c :: cs).getLast? ≠ some '\r') (hwhole : (cut nested c cs).1.IsWhole)
    (ds : List Char) : cut nested c (cs ++ '\n' :: ds) = cut nested c cs := by
  have hmark {p : Char → Bool} (hp : p '\n' = false) (mark : Char) :
      c = mark ∧ (cs ++ '\n' :: ds).head?.any p = true ↔ c = mark ∧ cs.head?.any p = true := by
    rw [head?_any_append_lineFeed hp]
  have hnext {d : Char} (hd : d ≠ '\n') (mark : Char) :
      c = mark ∧ (cs ++ '\n' :: ds).head? = some d ↔ c = mark ∧ cs.head? = some d := by
    rw [← any_beq_iff, ← any_beq_iff]
    exact hmark (by simpa using Ne.symm hd) mark
  -- Only a carriage return at the end would look at the line feed.
  have hpair : c = '\r' ∧ (cs ++ '\n' :: ds).head? = some '\n' ↔
      c = '\r' ∧ cs.head? = some '\n' := by
    cases cs with
    | nil =>
      have hc : c ≠ '\r' := fun hc => hreturn (congrArg some hc)
      exact iff_of_false (hc ·.1) (hc ·.1)
    | cons d cs => exact Iff.rfl
  have htail {d : Char} (hd : cs.head? = some d) :
      (cs ++ '\n' :: ds).tail = cs.tail ++ '\n' :: ds := by
    obtain ⟨rest, rfl⟩ := List.head?_eq_some_iff.mp hd
    rfl
  unfold cut at hwhole ⊢
  dsimp only at hwhole ⊢
  refine ite_congr_of_isWhole hwhole hpair (fun _ _ => rfl) (fun hwhole => ?_)
  refine ite_congr_of_isWhole hwhole Iff.rfl (fun _ _ => rfl) (fun hwhole => ?_)
  refine ite_congr_of_isWhole hwhole Iff.rfl (fun _ _ => ?_) (fun hwhole => ?_)
  · rw [runLength_append_lineFeed (by decide)]
  -- Comments.
  refine ite_congr_of_isWhole hwhole Iff.rfl (fun _ hblock => ?_) (fun hwhole => ?_)
  · rw [blockComment_append_lineFeed (closed_of_isWhole hblock)]
  refine ite_congr_of_isWhole hwhole (hnext (by decide) _) (fun hstar hblock => ?_)
    (fun hwhole => ?_)
  · rw [htail hstar.2, blockComment_append_lineFeed (closed_of_isWhole hblock)]
  refine ite_congr_of_isWhole hwhole (hnext (by decide) _) (fun hslash _ => ?_) (fun hwhole => ?_)
  · rw [htail hslash.2, lineComment_append_lineFeed]
  -- Strings, numbers, names and symbols.
  refine ite_congr_of_isWhole hwhole Iff.rfl (fun _ _ => ?_) (fun hwhole => ?_)
  · rw [stringFrom_append_lineFeed]
  refine ite_congr_of_isWhole hwhole (hmark rfl _) (fun _ _ => ?_) (fun hwhole => ?_)
  · rw [charCodeLength_append_lineFeed]
  refine ite_congr_of_isWhole hwhole (hmark rfl _) (fun _ _ => ?_) (fun hwhole => ?_)
  · rw [runLength_append_lineFeed rfl]
  refine ite_congr_of_isWhole hwhole (hmark rfl _) (fun _ _ => ?_) (fun hwhole => ?_)
  · rw [runLength_append_lineFeed rfl]
  refine ite_congr_of_isWhole hwhole (hmark rfl _) (fun _ _ => ?_) (fun hwhole => ?_)
  · rw [runLength_append_lineFeed rfl]
  refine ite_congr_of_isWhole hwhole (hmark rfl _) (fun _ _ => ?_) (fun hwhole => ?_)
  · rw [runLength_append_lineFeed rfl]
  refine ite_congr_of_isWhole hwhole Iff.rfl (fun _ _ => ?_) (fun hwhole => ?_)
  · rw [decimalLength_append_lineFeed]
  refine ite_congr_of_isWhole hwhole Iff.rfl (fun _ _ => nameCut_append_lineFeed c cs ds)
    (fun hwhole => ?_)
  refine ite_congr_of_isWhole hwhole ?_ (fun _ _ => rfl) (fun _ => rfl)
  rw [head?_any_append_lineFeed (not_pairSymbol (by decide) c)]

/-! ### All lexemes -/

/-- Only a lexeme that takes the rest of the text can lack its closer. -/
theorem Cuts.isWhole {c : Char} {cs : List Char} {kind : LexemeKind} {n : Nat}
    (h : Cuts c cs kind n) (hrest : cs.drop n ≠ []) : kind.IsWhole := by
  cases h with
  | newline n _ => trivial
  | comment k n inner _ reads =>
    rw [isWhole_commentKind]
    cases hclosed : k.closed with
    | true => exact .inr rfl
    | false => exact .inl ((reads.unclosed hclosed).resolve_right hrest)
  | inline kind n plain _ _ =>
    cases kind with
    | comment k => exact absurd rfl (plain k).1
    | directive k => exact absurd rfl (plain k).2
    | _ => trivial

/-- A line feed after a text leaves its lexemes as they are, and the lexer goes
    on with it where they end. -/
theorem lexFrom_append_lineFeed {nested : Bool} {start : Location} {cs : List Char}
    (hreturn : cs.getLast? ≠ some '\r')
    (hwhole : ∀ l ∈ (lexFrom nested start cs).getLast?, l.kind.IsWhole) (ds : List Char) :
    lexFrom nested start (cs ++ '\n' :: ds) = lexFrom nested start cs
      ++ lexFrom nested (endFrom start (lexFrom nested start cs)) ('\n' :: ds) := by
  fun_induction lexFrom nested start cs with
  | case1 start => rfl
  | case2 start c cs kind n hcut chars stop ih =>
    have hn := le_of_cut hcut
    -- This lexeme is the last one, or it leaves something to the next one.
    have hkind : kind.IsWhole := by
      by_cases hrest : cs.drop n = []
      · rw [hrest, lexFrom] at hwhole
        exact hwhole _ rfl
      · exact (cuts_of_cut hcut).isWhole hrest
    have hcut' : cut nested c (cs ++ '\n' :: ds) = (kind, n) := by
      rw [cut_append_lineFeed hreturn (by rwa [hcut]), hcut]
    have hreturn' : (cs.drop n).getLast? ≠ some '\r' := by
      intro hlast
      have hchars : (c :: (cs.take n ++ cs.drop n)).getLast? = some '\r' := by
        rw [List.getLast?_cons, List.getLast?_append, hlast]
        rfl
      rw [List.take_append_drop] at hchars
      exact hreturn hchars
    have hwhole' : ∀ l ∈ (lexFrom nested stop (cs.drop n)).getLast?, l.kind.IsWhole := by
      intro l hl
      refine hwhole l ?_
      rw [List.getLast?_cons, Option.mem_def.mp hl]
      rfl
    rw [List.cons_append, lexFrom, hcut']
    dsimp only
    rw [List.take_append_of_le_length hn, List.drop_append_of_le_length hn, endFrom_cons,
      List.cons_append, ← ih hreturn' hwhole']

end Lexer

end PascalOutline
