import PascalOutline.Diagnostic
import PascalOutline.Proofs.HeaderExtent
import PascalOutline.Proofs.Token.Render

/-! # Rendering is stable

  The text of a range of tokens is a source of its own. Read again, it has the
  same tokens and blanks in the gaps between them, and nothing else: what
  stood in the gaps is gone. So the only problems that a lexeme of it can have
  are stray closers, which are tokens, and a second rendering changes nothing.

  One token of the range may be a string without a closing quote, if it is the
  last one. Before another token the blank of the rendering would become part
  of it.
-/

namespace PascalOutline

/-! ### Stray closers -/

namespace Token

/-- The problem with a token: it closes a comment that nobody opened. -/
def strayCloser? (t : Token) : Option Diagnostic :=
  if t.isSymbol "\x7d" then some (.at_ (.strayCloser .brace) t.start)
  else if t.isSymbol "*)" then some (.at_ (.strayCloser .parenStar) t.start)
  else none

theorem isSymbol_iff_toList {t : Token} (h : t.lexeme.kind = .symbol) (symbol : String) :
    t.isSymbol symbol ↔ t.lexeme.text.toList = symbol.toList := by
  simp [Token.isSymbol, Lexeme.isSymbol, h, String.toList_inj]

/-- A token can have no other problem. -/
theorem ofLexeme?_eq_strayCloser? {t : Token} (h : t.lexeme.kind.isTrivia = false) :
    Diagnostic.ofLexeme? t.lexeme = t.strayCloser? := by
  unfold Diagnostic.ofLexeme? strayCloser?
  cases hkind : t.lexeme.kind with
  | symbol =>
    simp only [isSymbol_iff_toList hkind]
    rfl
  | comment | directive | blank | newline =>
    rw [hkind] at h
    cases h
  | _ => simp [Token.isSymbol, Lexeme.isSymbol, hkind]

/-- Whether a token is a stray closer, and of which style, is read off its
    kind and text. -/
theorem Alike.strayCloser?_problem {t u : Token} (h : t.Alike u) :
    t.strayCloser?.map Diagnostic.problem = u.strayCloser?.map Diagnostic.problem := by
  unfold strayCloser?
  simp only [h.corresponds.isSymbol]
  split
  · rfl
  · split <;> rfl

theorem SameWords.strayClosers {ts us : List Token} (h : SameWords ts us) :
    (ts.filterMap strayCloser?).map Diagnostic.problem
      = (us.filterMap strayCloser?).map Diagnostic.problem := by
  rw [List.map_filterMap, List.map_filterMap]
  induction h with
  | nil => rfl
  | cons htu _ ih => rw [List.filterMap_cons, List.filterMap_cons, htu.strayCloser?_problem, ih]

end Token

/-- In a text whose trivia is blanks, only tokens have problems. -/
theorem Diagnostic.ofLexemes_eq_of_blank {ls : List Lexeme}
    (h : ∀ l ∈ ls, l.isTrivia = true → l.kind = .blank) (index : Nat) (spaced : Bool) :
    Diagnostic.ofLexemes ls
      = (Token.ofLexemesFrom index spaced ls).filterMap Token.strayCloser? := by
  induction ls generalizing index spaced with
  | nil => rfl
  | cons l ls ih =>
    have hrest := ih fun m hm => h m (List.mem_cons_of_mem l hm)
    rw [Diagnostic.ofLexemes] at hrest ⊢
    cases htrivia : l.isTrivia with
    | true =>
      have hblank := h l List.mem_cons_self htrivia
      rw [Token.ofLexemesFrom_cons_trivia htrivia, ← hrest]
      simp [Diagnostic.ofLexeme?, hblank]
    | false =>
      have hone := Token.ofLexeme?_eq_strayCloser? (t := ⟨l, index, spaced⟩) htrivia
      rw [Token.ofLexemesFrom_cons_token htrivia, List.filterMap_cons, List.filterMap_cons, ← hone,
        hrest (index + 1) false]

/-! ### Ranges of tokens -/

namespace Cursor

/-- The tokens from one number up to another. -/
def range (c : Cursor) (first last : Nat) : List Token :=
  (c.tokens.drop first).take (last - first)

theorem renderRange_eq (c : Cursor) (first last : Nat) :
    c.renderRange first last = Token.render (c.range first last) := rfl

theorem range_seek (c : Cursor) (place first last : Nat) :
    (c.seek place).range first last = c.range first last := by
  rw [range, tokens_seek, range]

/-- From the first token up to the last one is everything. -/
theorem range_all (lexemes : List Lexeme) :
    (ofLexemes lexemes).range 0 (Token.ofLexemes lexemes).length = Token.ofLexemes lexemes := by
  show ((Token.ofLexemes lexemes).drop 0).take ((Token.ofLexemes lexemes).length - 0) = _
  rw [List.drop_zero, Nat.sub_zero, List.take_length]

theorem exists_laid_range (nested : Bool) (source : String) (first last : Nat) :
    ∃ cs, Token.Laid nested ((ofLexemes (Lexer.lex nested source)).range first last) cs := by
  obtain ⟨cs, hlaid⟩ := Token.exists_laid_ofLexemes nested source
  obtain ⟨ds, hdrop⟩ := hlaid.exists_drop first
  exact ⟨ds, hdrop.take _⟩

end Cursor

/-- The text of any range of the tokens of a source, with all its strings but
    perhaps the last token closed, is read back. Its trivia is blanks; its
    tokens have the same kinds and texts; its problems are the stray closers
    of the range, each at its token; and its rendering is the text itself.
    Whether comments nest is the only option that matters to the reader of
    lexemes, and it need not be the same for both texts. -/
theorem lex_renderRange (nested nested' : Bool) (source : String) (place first last : Nat) :
    let c := (Cursor.ofLexemes (Lexer.lex nested source)).seek place
    let again := Lexer.lex nested' (c.renderRange first last)
    Token.StringsClosed (c.range first last) →
      (∀ l ∈ again, l.isTrivia = true → l.kind = .blank) ∧
      (Token.ofLexemes again).map (fun t => (t.lexeme.kind, t.text))
        = (c.range first last).map (fun t => (t.lexeme.kind, t.text)) ∧
      Diagnostic.ofLexemes again = (Token.ofLexemes again).filterMap Token.strayCloser? ∧
      (Diagnostic.ofLexemes again).map Diagnostic.problem
        = ((c.range first last).filterMap Token.strayCloser?).map Diagnostic.problem ∧
      (Cursor.ofLexemes again).renderRange 0 (Token.ofLexemes again).length
        = c.renderRange first last := by
  intro c again hclosed
  obtain ⟨cs, hlaid⟩ := Cursor.exists_laid_range nested source first last
  rw [← Cursor.range_seek _ place] at hlaid
  have hcode : Token.SameCode (Token.ofLexemes again) (c.range first last) :=
    Token.sameCode_lex_render hlaid hclosed nested'
  have hblank : ∀ l ∈ again, l.isTrivia = true → l.kind = .blank := by
    intro l hl htrivia
    rcases Token.exists_of_mem_lex_render hlaid hclosed hl with hblank | ⟨t, ht, hkind, _⟩
    · exact hblank
    · have htoken := (hlaid.exists_cut ht).1
      rw [← hkind] at htoken
      rw [Lexeme.isTrivia, htoken] at htrivia
      cases htrivia
  have hproblems : Diagnostic.ofLexemes again
      = (Token.ofLexemes again).filterMap Token.strayCloser? :=
    Diagnostic.ofLexemes_eq_of_blank hblank 0 false
  refine ⟨hblank, ?_, hproblems, ?_, ?_⟩
  · exact hcode.words.map_eq fun h => by rw [h.kind, h.text]
  · rw [hproblems, hcode.words.strayClosers]
  · rw [Cursor.renderRange_eq, Cursor.range_all, hcode.render, Cursor.renderRange_eq]

/-- A range with a directive, a comment over two lines, a stray closer and a
    doubled quote in it, and a string without its closing quote at the end. -/
theorem lex_renderRange_of_open_string :
    let source := "uses\n\x7b$i x\x7d &end(* a\n b *):= \x7d'it''s' #13'y\n;"
    let c := (Cursor.ofLexemes (Lexer.lex false source)).seek 3
    Token.StringsClosed (c.range 1 7) ∧ c.renderRange 1 7 = "&end := \x7d'it''s' #13'y" ∧
      Diagnostic.ofLexemes (Lexer.lex false (c.renderRange 1 7))
        = [⟨.strayCloser .brace, 1, 9⟩] ∧
      (Token.ofLexemes (Lexer.lex false (c.renderRange 1 7))).map (fun t => (t.lexeme.kind, t.text))
        = (c.range 1 7).map (fun t => (t.lexeme.kind, t.text)) := by
  intro source c
  have hclosed : Token.StringsClosed (c.range 1 7) := by decide +kernel
  have hrender : c.renderRange 1 7 = "&end := \x7d'it''s' #13'y" := by decide +kernel
  have hproblems : Diagnostic.ofLexemes (Lexer.lex false (c.renderRange 1 7))
      = [⟨.strayCloser .brace, 1, 9⟩] := by decide +kernel
  exact ⟨hclosed, hrender, hproblems, (lex_renderRange false false source 3 1 7 hclosed).2.1⟩

end PascalOutline
