import PascalOutline.Proofs.Cursor.Movement

/-! # Balanced brackets

  A list is balanced when each of its beginnings opens at least as much as it
  closes, and the whole list as much as it closes. Two readers of tokens count
  brackets. The reader of a group stops at the bracket that closes its first
  one, so it passes balanced tokens (`groupFrom_append`). The reader of a type
  counts brackets of three kinds together, and blocks beside them; it passes
  tokens that are balanced in both, if the tokens that end a type stand inside
  of a bracket or a block (`typeExprFrom_append`).
-/

namespace PascalOutline

/-! ### Balance -/

section Balance

variable {α : Type}

/-- With `depth` open before it, a list closes all that is open, and none of its
    beginnings closes more than that. -/
structure ClosesFrom (opens closes : α → Bool) (depth : Nat) (l : List α) : Prop where
  /-- Only what is open is closed. -/
  opened : ∀ n ≤ l.length, (l.take n).countP closes ≤ depth + (l.take n).countP opens
  /-- In the end nothing is open. -/
  closed : l.countP closes = depth + l.countP opens

/-- What is opened in a list is closed in it, and nothing else is. -/
abbrev IsBalanced (opens closes : α → Bool) (l : List α) : Prop :=
  ClosesFrom opens closes 0 l

instance (opens closes : α → Bool) (depth : Nat) (l : List α) :
    Decidable (ClosesFrom opens closes depth l) :=
  decidable_of_iff
    ((∀ n ≤ l.length, (l.take n).countP closes ≤ depth + (l.take n).countP opens) ∧
      l.countP closes = depth + l.countP opens)
    ⟨fun h => ⟨h.1, h.2⟩, fun h => ⟨h.opened, h.closed⟩⟩

namespace ClosesFrom

variable {opens closes : α → Bool} {depth : Nat} {a : α} {l : List α}

theorem eq_zero (h : ClosesFrom opens closes depth []) : depth = 0 := by
  have hclosed := h.closed
  rw [List.countP_nil, List.countP_nil] at hclosed
  omega

/-- The first member closes at most what is open. -/
theorem head_le (h : ClosesFrom opens closes depth (a :: l)) :
    (closes a).toNat ≤ depth + (opens a).toNat := by
  have hfirst := h.opened 1 (by simp)
  simp only [List.take_succ_cons, List.take_zero, List.countP_cons, List.countP_nil] at hfirst
  cases hopens : opens a <;> cases hcloses : closes a <;> simp_all

theorem tail (h : ClosesFrom opens closes depth (a :: l)) :
    ClosesFrom opens closes (depth + (opens a).toNat - (closes a).toNat) l := by
  have hle := h.head_le
  have hcount (p : α → Bool) (k : List α) : (a :: k).countP p = k.countP p + (p a).toNat := by
    rw [List.countP_cons]
    cases p a <;> rfl
  constructor
  case opened =>
    intro n hn
    have hopened := h.opened (n + 1) (Nat.succ_le_succ hn)
    rw [List.take_succ_cons, hcount, hcount] at hopened
    omega
  case closed =>
    have hclosed := h.closed
    rw [hcount, hcount] at hclosed
    omega

end ClosesFrom

end Balance

/-! ### Groups in brackets -/

namespace Extent

theorem isSymbol_ne {t : Token} {symbol other : String} (h : t.isSymbol symbol = true)
    (hne : symbol ≠ other) : t.isSymbol other = false := by
  simp only [Token.isSymbol, Lexeme.isSymbol, Bool.and_eq_true, decide_eq_true_eq] at h
  simp [Token.isSymbol, Lexeme.isSymbol, h.2, hne]

/-- A reader inside of one bracket passes tokens in which as many are open as
    it has counted beside that one. -/
theorem groupFrom_append {opening closing : String} (hne : opening ≠ closing) {depth : Nat}
    {ts : List Token}
    (hbalance : ClosesFrom (Token.isSymbol · opening) (Token.isSymbol · closing) depth ts)
    (hkeywords : ∀ t ∈ ts, t.isKeywordThat Keyword.endsHeader = false) (rest : List Token) :
    groupFrom opening closing (depth + 1) (ts ++ rest)
      = ts.length + groupFrom opening closing 1 rest := by
  induction ts generalizing depth with
  | nil =>
    obtain rfl := hbalance.eq_zero
    exact (Nat.zero_add _).symm
  | cons t ts ih =>
    obtain ⟨hfirst, hothers⟩ := List.forall_mem_cons.mp hkeywords
    have hle := hbalance.head_le
    have htail := hbalance.tail
    rw [List.cons_append, groupFrom, hfirst, if_neg Bool.false_ne_true, List.length_cons]
    cases hopening : t.isSymbol opening with
    | true =>
      have hclosing := isSymbol_ne hopening hne
      rw [hopening, hclosing] at htail
      have hdeeper :
          ClosesFrom (Token.isSymbol · opening) (Token.isSymbol · closing) (depth + 1) ts := htail
      rw [if_pos rfl, ih hdeeper hothers]
      omega
    | false =>
      rw [if_neg Bool.false_ne_true]
      cases hclosing : t.isSymbol closing with
      | true =>
        -- The bracket that is closed is not the one that the group began with.
        rw [hopening, hclosing] at htail hle
        obtain ⟨outer, rfl⟩ : ∃ outer, depth = outer + 1 := Nat.exists_eq_succ_of_ne_zero
          (Nat.ne_of_gt hle)
        have houter : ClosesFrom (Token.isSymbol · opening) (Token.isSymbol · closing) outer ts :=
          htail
        rw [if_pos rfl, if_neg (by omega), Nat.add_sub_cancel, ih houter hothers]
        omega
      | false =>
        rw [hopening, hclosing] at htail
        have hsame : ClosesFrom (Token.isSymbol · opening) (Token.isSymbol · closing) depth ts :=
          htail
        rw [if_neg Bool.false_ne_true, ih hsame hothers]
        omega

/-- A group is its two brackets and what is balanced between them. -/
theorem group_eq {opening closing : String} (hne : opening ≠ closing) {first last : Token}
    {ts : List Token} (hfirst : first.isSymbol opening = true)
    (hlast : last.isSymbol closing = true)
    (hbalance : IsBalanced (Token.isSymbol · opening) (Token.isSymbol · closing) ts)
    (hkeywords : ∀ t ∈ ts, t.isKeywordThat Keyword.endsHeader = false) (rest : List Token) :
    group opening closing (first :: (ts ++ last :: rest)) = ts.length + 2 := by
  have hkeyword {t : Token} {symbol : String} (h : t.isSymbol symbol = true) :
      t.isKeywordThat Keyword.endsHeader = false := by
    rw [Token.isKeywordThat, Cursor.keyword?_of_isSymbol h]
    rfl
  have hclosed : groupFrom opening closing 1 (last :: rest) = 1 := by
    rw [groupFrom, hkeyword hlast, isSymbol_ne hlast hne.symm, hlast]
    rfl
  rw [group, groupFrom, hkeyword hfirst, hfirst, if_neg Bool.false_ne_true, if_pos rfl,
    groupFrom_append hne hbalance hkeywords, hclosed]
  omega

/-! ### Types -/

theorem isSymbolIn_closeBrackets {t : Token} (h : t.isSymbolIn openBrackets = true) :
    t.isSymbolIn closeBrackets = false := by
  have hapart : ∀ symbol ∈ openBrackets, ∀ other ∈ closeBrackets, symbol ≠ other := by decide
  obtain ⟨symbol, hmem, hsymbol⟩ := List.any_eq_true.mp h
  refine List.any_eq_false.mpr ?_
  intro other hother
  rw [isSymbol_ne hsymbol (hapart symbol hmem other hother)]
  exact Bool.false_ne_true

/-- The tokens of a type, each one with whether `of` stands right before it. -/
def markOf (afterOf : Bool) : List Token → List (Token × Bool)
  | [] => []
  | t :: ts => (t, afterOf) :: markOf (t.isKeyword .of_) ts

/-- Whether a token opens a bracket in a type. -/
def opensBracket (p : Token × Bool) : Bool :=
  p.1.isSymbolIn ["(", "[", "(."]

/-- Whether a token closes a bracket in a type. -/
def closesBracket (p : Token × Bool) : Bool :=
  p.1.isSymbolIn [")", "]", ".)"]

/-- Whether a token opens a block in a type: `record`, or `object` unless it
    belongs to `of object`. -/
def opensBlock (p : Token × Bool) : Bool :=
  p.1.isKeyword .record || (p.1.isKeyword .object && !p.2)

/-- Whether a token closes a block in a type. -/
def closesBlock (p : Token × Bool) : Bool :=
  p.1.isKeyword .end_

/-- Whether a type in which nothing is open ends before a token. The `const` of
    `array of const` does not end it. -/
def endsType (p : Token × Bool) : Bool :=
  p.1.isSymbol ";" || p.1.isKeyword .type_ || p.1.isKeyword .var || (p.1.isKeyword .const && !p.2)

/-- Whether a bracket or a block is open after some tokens, before which as many
    were open as `n` says. -/
def Nesting.StaysOpen (n : Nesting) (ps : List (Token × Bool)) : Prop :=
  ps.countP closesBracket < n.brackets + ps.countP opensBracket ∨
    ps.countP closesBlock < n.blocks + ps.countP opensBlock

instance (n : Nesting) (ps : List (Token × Bool)) : Decidable (n.StaysOpen ps) :=
  inferInstanceAs (Decidable (_ ∨ _))

/-- The rest of a type, inside of which as much is open as `n` says. -/
structure Nesting.Completes (n : Nesting) (ps : List (Token × Bool)) : Prop where
  /-- Brackets are balanced. -/
  brackets : ClosesFrom opensBracket closesBracket n.brackets ps
  /-- So are blocks. -/
  blocks : ClosesFrom opensBlock closesBlock n.blocks ps
  /-- No keyword stands there that occurs in no type. -/
  plain : ∀ p ∈ ps, p.1.isKeywordThat Keyword.isHardStop = false
  /-- What ends a type stands inside of a bracket or a block. -/
  inside : ∀ (i : Nat) (hi : i < ps.length), endsType ps[i] = true → n.StaysOpen (ps.take i)

instance (n : Nesting) (ps : List (Token × Bool)) : Decidable (n.Completes ps) :=
  decidable_of_iff
    (ClosesFrom opensBracket closesBracket n.brackets ps ∧
      ClosesFrom opensBlock closesBlock n.blocks ps ∧
      (∀ p ∈ ps, p.1.isKeywordThat Keyword.isHardStop = false) ∧
      ∀ (i : Nat) (hi : i < ps.length), endsType ps[i] = true → n.StaysOpen (ps.take i))
    ⟨fun h => ⟨h.1, h.2.1, h.2.2.1, h.2.2.2⟩, fun h => ⟨h.brackets, h.blocks, h.plain, h.inside⟩⟩

/-- The nesting after one more token. -/
def Nesting.after (n : Nesting) (p : Token × Bool) : Nesting :=
  ⟨n.brackets + (opensBracket p).toNat - (closesBracket p).toNat,
    n.blocks + (opensBlock p).toNat - (closesBlock p).toNat⟩

namespace Nesting.Completes

variable {n : Nesting} {p : Token × Bool} {ps : List (Token × Bool)}

theorem eq_outer (h : n.Completes []) : n = ⟨0, 0⟩ := by
  obtain ⟨brackets, blocks⟩ := n
  rw [Nesting.mk.injEq]
  exact ⟨h.brackets.eq_zero, h.blocks.eq_zero⟩

theorem tail (h : n.Completes (p :: ps)) : (n.after p).Completes ps := by
  obtain ⟨_, hplain⟩ := List.forall_mem_cons.mp h.plain
  refine ⟨h.brackets.tail, h.blocks.tail, hplain, ?_⟩
  intro i hi hends
  have hopen := h.inside (i + 1) (Nat.succ_lt_succ hi) hends
  have hbrackets := h.brackets.head_le
  have hblocks := h.blocks.head_le
  have hcount (q : Token × Bool → Bool) :
      (p :: ps.take i).countP q = (ps.take i).countP q + (q p).toNat := by
    rw [List.countP_cons]
    cases q p <;> rfl
  unfold StaysOpen at hopen ⊢
  rw [List.take_succ_cons, hcount, hcount, hcount, hcount] at hopen
  unfold Nesting.after
  dsimp only
  omega

/-- Nothing is open at the first token only if the type began there. -/
theorem isOuter_eq_false (h : n.Completes (p :: ps)) (hends : endsType p = true) :
    n.isOuter = false := by
  have hopen := h.inside 0 (Nat.succ_pos _) hends
  unfold StaysOpen at hopen
  simp only [List.take_zero, List.countP_nil, Nat.add_zero] at hopen
  simp only [isOuter, Bool.and_eq_false_iff, beq_eq_false_iff_ne]
  omega

variable {t : Token} {afterOf : Bool}

/-- A keyword opens or closes a block, or the type goes on over it. -/
theorem keyword_eq (h : n.Completes ((t, afterOf) :: ps)) {kw : Keyword}
    (hkw : t.keyword? = some kw) : n.keyword afterOf kw = some (n.after (t, afterOf)) := by
  have hsymbol (symbol : String) : t.isSymbol symbol = false := by
    rw [← Bool.not_eq_true]
    intro hsymbol
    rw [Cursor.keyword?_of_isSymbol hsymbol] at hkw
    cases hkw
  have hopens : opensBlock (t, afterOf)
      = (decide (kw = .record) || (decide (kw = .object) && !afterOf)) := by
    simp [opensBlock, Token.isKeyword, hkw]
  have hcloses : closesBlock (t, afterOf) = decide (kw = .end_) := by
    simp [closesBlock, Token.isKeyword, hkw]
  have hafter : n.after (t, afterOf) = { n with
      blocks :=
        n.blocks + (opensBlock (t, afterOf)).toNat - (closesBlock (t, afterOf)).toNat } := by
    simp [after, opensBracket, closesBracket, Token.isSymbolIn, hsymbol]
  have hplain : kw.isHardStop = false := by
    simpa [Token.isKeywordThat, hkw] using (List.forall_mem_cons.mp h.plain).1
  have hblocks := h.blocks.head_le
  have houter := h.isOuter_eq_false
  simp only [endsType, Token.isKeyword, hkw, hsymbol] at houter
  rw [hafter, hopens, hcloses]
  unfold Nesting.keyword
  split
  · rfl
  · cases afterOf <;> rfl
  · -- An `end` closes a block of the type.
    have hopen : 1 ≤ n.blocks := by
      rw [hopens, hcloses] at hblocks
      exact hblocks
    rw [if_neg (Nat.ne_of_gt hopen)]
    rfl
  · rw [houter rfl]
    rfl
  · rw [houter rfl]
    rfl
  · cases afterOf with
    | true =>
      rw [Bool.not_true, Bool.and_false]
      rfl
    | false =>
      rw [houter rfl]
      rfl
  · next hrecord hobject hend _ _ _ =>
    have hkinds : (kw = .record) = False ∧ (kw = .object) = False ∧ (kw = .end_) = False :=
      ⟨eq_false hrecord, eq_false hobject, eq_false hend⟩
    simp [hplain, hkinds]

/-- A symbol opens or closes a bracket, or the type goes on over it. -/
theorem symbol_eq (h : n.Completes ((t, afterOf) :: ps)) (hkw : t.keyword? = none) :
    n.symbol t = some (n.after (t, afterOf)) := by
  have hafter : n.after (t, afterOf) = { n with
      brackets := n.brackets + (t.isSymbolIn openBrackets).toNat
        - (t.isSymbolIn closeBrackets).toNat } := by
    simp [after, opensBlock, closesBlock, Token.isKeyword, hkw, opensBracket, closesBracket,
      openBrackets, closeBrackets]
  have hbrackets : (t.isSymbolIn closeBrackets).toNat
      ≤ n.brackets + (t.isSymbolIn openBrackets).toNat := h.brackets.head_le
  have houter := h.isOuter_eq_false
  rw [hafter, Nesting.symbol]
  cases hopens : t.isSymbolIn openBrackets with
  | true =>
    rw [isSymbolIn_closeBrackets hopens]
    rfl
  | false =>
    cases hcloses : t.isSymbolIn closeBrackets with
    | true =>
      have hopen : n.brackets ≠ 0 := by
        rw [hopens, hcloses] at hbrackets
        exact Nat.ne_of_gt hbrackets
      simp [hopen]
    | false =>
      have hgoesOn : (t.isSymbol ";" && n.isOuter) = false := by
        cases hsemicolon : t.isSymbol ";" with
        | false => rfl
        | true => exact houter (by simp [endsType, hsemicolon])
      simp [hgoesOn]

/-- The reader of a type goes on over a token of it. -/
theorem token_eq (h : n.Completes ((t, afterOf) :: ps)) :
    n.token [] afterOf t = some (n.after (t, afterOf)) := by
  rw [Nesting.token, isOneOf, List.any_nil, Bool.and_false, if_neg Bool.false_ne_true]
  cases hkw : t.keyword? with
  | some kw => exact h.keyword_eq hkw
  | none => exact h.symbol_eq hkw

end Nesting.Completes

/-- A type with a semicolon behind it is read up to the semicolon. -/
theorem typeExprFrom_append {n : Nesting} {afterOf : Bool} {ts : List Token}
    (h : n.Completes (markOf afterOf ts)) {semicolon : Token}
    (hsemicolon : semicolon.isSymbol ";" = true) (rest : List Token) :
    typeExprFrom [] n afterOf (ts ++ semicolon :: rest) = ts.length := by
  induction ts generalizing n afterOf with
  | nil =>
    obtain rfl := h.eq_outer
    have hends : Nesting.token ⟨0, 0⟩ [] afterOf semicolon = none := by
      have hnoBracket : semicolon.isSymbolIn openBrackets = false ∧
          semicolon.isSymbolIn closeBrackets = false := by
        have hapart : ∀ other ∈ openBrackets ++ closeBrackets, ";" ≠ other := by decide
        constructor
        all_goals
          refine List.any_eq_false.mpr ?_
          intro other hother
          rw [isSymbol_ne hsemicolon (hapart other (by simp [hother]))]
          exact Bool.false_ne_true
      rw [Nesting.token, Cursor.keyword?_of_isSymbol hsemicolon]
      simp [isOneOf, Nesting.symbol, hnoBracket, hsemicolon, Nesting.isOuter]
    rw [List.nil_append, typeExprFrom, hends]
    rfl
  | cons t ts ih =>
    rw [List.cons_append, typeExprFrom, h.token_eq]
    dsimp only
    rw [ih h.tail, List.length_cons, Nat.add_comm]

end Extent

end PascalOutline
