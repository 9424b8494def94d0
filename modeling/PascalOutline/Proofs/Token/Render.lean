import PascalOutline.Proofs.Lexeme.Local
import PascalOutline.Proofs.Token.Alike

/-! # Rendered tokens are read back

  A rendering puts one blank where trivia stood and nothing where there was
  none. So the characters after a token are those of the source up to a blank
  or the end, and the lexer cuts the token off as it did in the source: the
  tokens of the rendering are the same code as the tokens that were rendered.

  The one exception is a string without its closing quote. In the source its
  line ends after it; a blank in place of the line end would belong to it.
-/

namespace PascalOutline.Token

/-! ### Tokens in a text -/

/-- Tokens that follow each other in a text, of which the first one begins the
    text. After a gap nothing is said of the text, so it may be another one. -/
inductive Laid (nested : Bool) : List Token → List Char → Prop where
  /-- No token. -/
  | nil (cs : List Char) : Laid nested [] cs
  /-- A token that is cut off the text, and those after it. -/
  | cons {t : Token} {ts : List Token} {c : Char} {cs rest : List Char} {n : Nat}
      (hcut : Lexer.cut nested c cs = (t.lexeme.kind, n))
      (htext : t.text = String.ofList (c :: cs.take n))
      (htoken : t.lexeme.kind.isTrivia = false) (hrest : Laid nested ts rest)
      (hadjacent : ∀ u ∈ ts.head?, u.spaced = false → rest = cs.drop n) :
      Laid nested (t :: ts) (c :: cs)

namespace Laid

variable {nested : Bool} {ts : List Token} {cs : List Char}

theorem take (h : Laid nested ts cs) (n : Nat) : Laid nested (ts.take n) cs := by
  induction h generalizing n with
  | nil cs =>
    rw [List.take_nil]
    exact .nil cs
  | cons hcut htext htoken _ hadjacent ih =>
    cases n with
    | zero => exact .nil _
    | succ n =>
      refine .cons hcut htext htoken (ih n) ?_
      intro u hu
      rw [List.head?_take] at hu
      split at hu
      · cases hu
      · exact hadjacent u hu

theorem exists_drop (h : Laid nested ts cs) (n : Nat) : ∃ ds, Laid nested (ts.drop n) ds := by
  induction h generalizing n with
  | nil cs =>
    rw [List.drop_nil]
    exact ⟨cs, .nil cs⟩
  | cons hcut htext htoken hrest hadjacent ih =>
    cases n with
    | zero => exact ⟨_, .cons hcut htext htoken hrest hadjacent⟩
    | succ n => exact ih n

/-- Every token is cut off some text. -/
theorem exists_cut (h : Laid nested ts cs) {t : Token} (ht : t ∈ ts) :
    t.lexeme.kind.isTrivia = false ∧ ∃ c ds n, Lexer.cut nested c ds = (t.lexeme.kind, n) ∧
      t.text = String.ofList (c :: ds.take n) := by
  induction h with
  | nil => cases ht
  | cons hcut htext htoken _ _ ih =>
    rcases List.mem_cons.mp ht with rfl | ht
    · exact ⟨htoken, _, _, _, hcut, htext⟩
    · exact ih ht

end Laid

section

variable {kind : LexemeKind} {text : String} {start stop : Location}

theorem ofLexemesFrom_cons_trivia (h : kind.isTrivia = true) (index : Nat) (spaced : Bool)
    (ls : List Lexeme) :
    ofLexemesFrom index spaced (⟨kind, text, start, stop⟩ :: ls)
      = ofLexemesFrom (index + 1) true ls := by
  rw [ofLexemesFrom]
  exact if_pos h

theorem ofLexemesFrom_cons_token (h : kind.isTrivia = false) (index : Nat) (spaced : Bool)
    (ls : List Lexeme) :
    ofLexemesFrom index spaced (⟨kind, text, start, stop⟩ :: ls)
      = ⟨⟨kind, text, start, stop⟩, index, spaced⟩ :: ofLexemesFrom (index + 1) false ls := by
  rw [ofLexemesFrom]
  exact if_neg (ne_true_of_eq_false h)

end

theorem spaced_of_head?_ofLexemesFrom {index : Nat} {lexemes : List Lexeme} {u : Token}
    (h : u ∈ (ofLexemesFrom index true lexemes).head?) : u.spaced = true := by
  induction lexemes generalizing index with
  | nil => cases h
  | cons l ls ih =>
    rw [ofLexemesFrom] at h
    split at h
    · exact ih h
    · cases h
      rfl

/-- The tokens of a text are laid out in it; in front of the first one there
    may be trivia. -/
theorem laid_ofLexemesFrom (nested : Bool) (start : Location) (cs : List Char) (index : Nat)
    (spaced : Bool) :
    ∃ ds, Laid nested (ofLexemesFrom index spaced (Lexer.lexFrom nested start cs)) ds ∧
      ∀ u ∈ (ofLexemesFrom index spaced (Lexer.lexFrom nested start cs)).head?,
        u.spaced = false → ds = cs := by
  fun_induction Lexer.lexFrom nested start cs generalizing index spaced with
  | case1 start => exact ⟨[], .nil [], fun u hu => by cases hu⟩
  | case2 start c cs kind n hcut chars stop ih =>
    rw [ofLexemesFrom]
    split
    · -- A token after trivia is marked, so it need not begin the text.
      obtain ⟨ds, hlaid, _⟩ := ih (index + 1) true
      refine ⟨ds, hlaid, ?_⟩
      intro u hu hspaced
      rw [spaced_of_head?_ofLexemesFrom hu] at hspaced
      cases hspaced
    · rename_i htoken
      obtain ⟨ds, hlaid, hadjacent⟩ := ih (index + 1) false
      refine ⟨c :: cs, .cons hcut rfl (by simpa [Lexeme.isTrivia] using htoken) hlaid hadjacent, ?_⟩
      intro u _ _
      rfl

theorem exists_laid_ofLexemes (nested : Bool) (source : String) :
    ∃ cs, Laid nested (ofLexemes (Lexer.lex nested source)) cs := by
  obtain ⟨cs, hlaid, _⟩ := laid_ofLexemesFrom nested .start source.toList 0 false
  exact ⟨cs, hlaid⟩

/-! ### The rendering -/

theorem toList_renderRest_cons (t : Token) (ts : List Token) :
    (renderRest (t :: ts)).toList
      = (if t.spaced then [' '] else []) ++ (t.text.toList ++ (renderRest ts).toList) := by
  rw [renderRest, String.toList_append, String.toList_append, List.append_assoc]
  split <;> rfl

theorem toList_render_cons (t : Token) (ts : List Token) :
    (render (t :: ts)).toList = t.text.toList ++ (renderRest ts).toList := by
  rw [render, String.toList_append]

/-- What is rendered after a token is what stood after it in the text, up to a
    blank or the end. -/
theorem Laid.breaksOff {nested : Bool} {ts : List Token} {cs rest : List Char}
    (h : Laid nested ts cs) (hadjacent : ∀ u ∈ ts.head?, u.spaced = false → cs = rest) :
    Lexer.BreaksOff rest (renderRest ts).toList := by
  induction h generalizing rest with
  | nil cs => exact .end_ rest
  | @cons t ts c cs ds n hcut htext htoken hrest hnext ih =>
    rw [toList_renderRest_cons]
    cases hspaced : t.spaced with
    | true => exact .blank rest _
    | false =>
      obtain rfl := hadjacent t rfl hspaced
      rw [htext, String.toList_ofList]
      exact .keep c (ih hnext).of_drop

/-! ### Reading it back -/

/-- No string is left open, except perhaps the last token. -/
def StringsClosed (ts : List Token) : Prop :=
  ∀ t ∈ ts.dropLast, t.lexeme.kind ≠ .str false

instance (ts : List Token) : Decidable (StringsClosed ts) :=
  inferInstanceAs (Decidable (∀ t ∈ ts.dropLast, t.lexeme.kind ≠ .str false))

theorem StringsClosed.tail {t : Token} {ts : List Token} (h : StringsClosed (t :: ts)) :
    StringsClosed ts := by
  cases ts with
  | nil => exact fun u hu => by cases hu
  | cons s ts => exact fun u hu => h u (List.mem_cons_of_mem t hu)

theorem StringsClosed.eq_nil {t : Token} {ts : List Token} (h : StringsClosed (t :: ts))
    (hopen : t.lexeme.kind = .str false) : ts = [] := by
  cases ts with
  | nil => rfl
  | cons s ts => exact absurd hopen (h t List.mem_cons_self)

/-- The lexer cuts off a token that begins a text, if it did so before the
    text after it broke off. -/
theorem exists_lexFrom_text_append {nested : Bool} {t : Token} {c : Char} {cs ds : List Char}
    {n : Nat} (hcut : Lexer.cut nested c cs = (t.lexeme.kind, n))
    (htext : t.text = String.ofList (c :: cs.take n)) (htoken : t.lexeme.kind.isTrivia = false)
    (hbreak : Lexer.BreaksOff (cs.drop n) ds) (hclosed : t.lexeme.kind = .str false → ds = [])
    (nested' : Bool) (start : Location) :
    ∃ stop, Lexer.lexFrom nested' start (t.text.toList ++ ds)
      = ⟨t.lexeme.kind, t.text, start, stop⟩ :: Lexer.lexFrom nested' stop ds := by
  have htaken : (cs.take n).length = n := by
    rw [List.length_take, Nat.min_eq_left (Lexer.le_of_cut hcut)]
  have hcut' := Lexer.cut_take_append nested' hcut htoken hbreak hclosed
  rw [htext, String.toList_ofList, List.cons_append, Lexer.lexFrom, hcut']
  dsimp only
  rw [List.take_left' htaken, List.drop_left' htaken]
  exact ⟨_, rfl⟩

/-- Lexemes that are some tokens, with one blank in front of each token that
    trivia stands before. -/
inductive Spells : List Lexeme → List Token → Prop where
  /-- No token. -/
  | nil : Spells [] []
  /-- A token right after what stands before it. -/
  | adjacent {t : Token} {ts : List Token} {ls : List Lexeme} {start stop : Location}
      (htoken : t.lexeme.kind.isTrivia = false) (hspaced : t.spaced = false)
      (hrest : Spells ls ts) : Spells (⟨t.lexeme.kind, t.text, start, stop⟩ :: ls) (t :: ts)
  /-- A token after a blank. -/
  | spaced {t : Token} {ts : List Token} {ls : List Lexeme} {text : String}
      {start middle stop : Location}
      (htoken : t.lexeme.kind.isTrivia = false) (hspaced : t.spaced = true)
      (hrest : Spells ls ts) :
      Spells (⟨.blank, text, start, middle⟩ :: ⟨t.lexeme.kind, t.text, middle, stop⟩ :: ls)
        (t :: ts)

theorem spells_lexFrom_renderRest {nested : Bool} {ts : List Token} {cs : List Char}
    (h : Laid nested ts cs) (hclosed : StringsClosed ts) (nested' : Bool) (start : Location) :
    Spells (Lexer.lexFrom nested' start (renderRest ts).toList) ts := by
  induction h generalizing start with
  | nil cs =>
    rw [show (renderRest []).toList = [] from rfl, Lexer.lexFrom]
    exact .nil
  | @cons t ts c cs ds n hcut htext htoken hrest hnext ih =>
    have hbreak := hrest.breaksOff hnext
    have hread := exists_lexFrom_text_append hcut htext htoken hbreak
      (fun hopen => by rw [hclosed.eq_nil hopen]; rfl) nested'
    rw [toList_renderRest_cons]
    cases hspaced : t.spaced with
    | false =>
      obtain ⟨stop, hlex⟩ := hread start
      rw [if_neg Bool.false_ne_true, List.nil_append, hlex]
      exact .adjacent htoken hspaced (ih hclosed.tail stop)
    | true =>
      have hgap := Lexer.isGap_eq_false_of_cut hcut htoken
      have hfirst : t.text.toList ++ (renderRest ts).toList
          = c :: (cs.take n ++ (renderRest ts).toList) := by
        rw [htext, String.toList_ofList]
        rfl
      obtain ⟨text, after, hblank⟩ := Lexer.exists_lexFrom_blank hgap nested' start
        (cs.take n ++ (renderRest ts).toList)
      rw [← hfirst] at hblank
      obtain ⟨stop, hlex⟩ := hread after
      rw [if_pos rfl, List.singleton_append, hblank, hlex]
      exact .spaced htoken hspaced (ih hclosed.tail stop)

theorem exists_spells_lex_render {nested : Bool} {t : Token} {ts : List Token} {cs : List Char}
    (h : Laid nested (t :: ts) cs) (hclosed : StringsClosed (t :: ts)) (nested' : Bool) :
    t.lexeme.kind.isTrivia = false ∧ ∃ stop ls, Spells ls ts ∧
      Lexer.lex nested' (render (t :: ts)) = ⟨t.lexeme.kind, t.text, .start, stop⟩ :: ls := by
  cases h with
  | cons hcut htext htoken hrest hnext =>
    obtain ⟨stop, hlex⟩ := exists_lexFrom_text_append hcut htext htoken (hrest.breaksOff hnext)
      (fun hopen => by rw [hclosed.eq_nil hopen]; rfl) nested' .start
    refine ⟨htoken, stop, _, spells_lexFrom_renderRest hrest hclosed.tail nested' stop, ?_⟩
    rw [Lexer.lex, toList_render_cons, hlex]

theorem lex_render_nil (nested : Bool) : Lexer.lex nested (render []) = [] := by
  rw [Lexer.lex, show (render []).toList = [] from rfl, Lexer.lexFrom]

namespace Spells

variable {ls : List Lexeme} {ts : List Token}

/-- The tokens among the lexemes are the same words after the same gaps. -/
theorem sameWords (h : Spells ls ts) (index : Nat) :
    SameWords (ofLexemesFrom index false ls) ts ∧
      (ofLexemesFrom index false ls).map Token.spaced = ts.map Token.spaced := by
  induction h generalizing index with
  | nil => exact ⟨.nil, rfl⟩
  | adjacent htoken hspaced _ ih =>
    rw [ofLexemesFrom_cons_token htoken]
    obtain ⟨hwords, hgaps⟩ := ih (index + 1)
    exact ⟨.cons ⟨rfl, rfl⟩ hwords, congrArg₂ List.cons hspaced.symm hgaps⟩
  | spaced htoken hspaced _ ih =>
    rw [ofLexemesFrom_cons_trivia rfl, ofLexemesFrom_cons_token htoken]
    obtain ⟨hwords, hgaps⟩ := ih (index + 1 + 1)
    exact ⟨.cons ⟨rfl, rfl⟩ hwords, congrArg₂ List.cons hspaced.symm hgaps⟩

/-- Nothing but blanks and the tokens themselves is there. -/
theorem exists_of_mem (h : Spells ls ts) {l : Lexeme} (hl : l ∈ ls) :
    l.kind = .blank ∨ ∃ t ∈ ts, l.kind = t.lexeme.kind ∧ l.text = t.text := by
  induction h with
  | nil => cases hl
  | @adjacent t ts _ _ _ _ _ _ ih =>
    rcases List.mem_cons.mp hl with rfl | hl
    · exact Or.inr ⟨t, List.mem_cons_self, rfl, rfl⟩
    · exact (ih hl).imp_right fun ⟨u, hu, halike⟩ => ⟨u, List.mem_cons_of_mem t hu, halike⟩
  | @spaced t ts _ _ _ _ _ _ _ _ ih =>
    rcases List.mem_cons.mp hl with rfl | hl
    · exact Or.inl rfl
    · rcases List.mem_cons.mp hl with rfl | hl
      · exact Or.inr ⟨t, List.mem_cons_self, rfl, rfl⟩
      · exact (ih hl).imp_right fun ⟨u, hu, halike⟩ => ⟨u, List.mem_cons_of_mem t hu, halike⟩

end Spells

/-- The tokens of a rendering are the tokens that were rendered. -/
theorem sameCode_lex_render {nested : Bool} {ts : List Token} {cs : List Char}
    (h : Laid nested ts cs) (hclosed : StringsClosed ts) (nested' : Bool) :
    SameCode (ofLexemes (Lexer.lex nested' (render ts))) ts := by
  cases ts with
  | nil =>
    rw [lex_render_nil]
    exact .refl []
  | cons t ts =>
    obtain ⟨htoken, stop, ls, hspells, hlex⟩ := exists_spells_lex_render h hclosed nested'
    obtain ⟨hwords, hgaps⟩ := hspells.sameWords 1
    rw [hlex, ofLexemes, ofLexemesFrom_cons_token htoken]
    exact ⟨.cons ⟨rfl, rfl⟩ hwords, hgaps⟩

/-- The lexemes of a rendering are blanks and the tokens that were rendered. -/
theorem exists_of_mem_lex_render {nested : Bool} {ts : List Token} {cs : List Char}
    (h : Laid nested ts cs) (hclosed : StringsClosed ts) {nested' : Bool} {l : Lexeme}
    (hl : l ∈ Lexer.lex nested' (render ts)) :
    l.kind = .blank ∨ ∃ t ∈ ts, l.kind = t.lexeme.kind ∧ l.text = t.text := by
  cases ts with
  | nil =>
    rw [lex_render_nil] at hl
    cases hl
  | cons t ts =>
    obtain ⟨_, stop, ls, hspells, hlex⟩ := exists_spells_lex_render h hclosed nested'
    rw [hlex] at hl
    rcases List.mem_cons.mp hl with rfl | hl
    · exact Or.inr ⟨t, List.mem_cons_self, rfl, rfl⟩
    · exact (hspells.exists_of_mem hl).imp_right
        fun ⟨u, hu, halike⟩ => ⟨u, List.mem_cons_of_mem t hu, halike⟩

end PascalOutline.Token
