import PascalOutline.Header
import PascalOutline.Proofs.Token.Balance

/-! # The parts of a header

  A header `function Name(Parameters): Result;` is taken apart exactly: its
  name, its parameters with their brackets, its result type and its signature
  are the texts of these tokens and of no others. The parameters may hold
  groups in brackets, strings and semicolons, and the result type brackets of
  three kinds and `record ... end` blocks; it is enough that they are balanced
  (`IsParameters`, `IsResult`).

  Two readers count brackets in different ways and stop at different tokens.
  Each of them stops right where its part ends (`Extent.group_eq`,
  `Extent.typeExprFrom_append`).
-/

namespace PascalOutline

open Extent (markOf)

/-! ### The tokens of a header -/

/-- The parameters of a function, without the brackets around them. -/
structure IsParameters (ts : List Token) : Prop where
  /-- Parentheses are balanced. -/
  balanced : IsBalanced (Token.isSymbol · "(") (Token.isSymbol · ")") ts
  /-- No keyword stands there at which a header ends: neither `end` nor one that
      occurs in no header. -/
  plain : ∀ t ∈ ts, t.isKeyword .end_ = false ∧ t.isKeywordThat Keyword.isHardStop = false

instance (ts : List Token) : Decidable (IsParameters ts) :=
  decidable_of_iff
    (IsBalanced (Token.isSymbol · "(") (Token.isSymbol · ")") ts ∧
      ∀ t ∈ ts, t.isKeyword .end_ = false ∧ t.isKeywordThat Keyword.isHardStop = false)
    ⟨fun h => ⟨h.1, h.2⟩, fun h => ⟨h.balanced, h.plain⟩⟩

/-- The result type of a function: brackets and blocks are balanced in it, no
    keyword stands there that occurs in no header, and a semicolon, `type`,
    `var` or `const` stands inside of a bracket or a block, unless it is the
    `const` of `of const`. -/
structure IsResult (ts : List Token) : Prop where
  /-- There is one. -/
  nonempty : ts ≠ []
  /-- It is balanced. -/
  complete : Extent.Nesting.Completes ⟨0, 0⟩ (markOf false ts)

instance (ts : List Token) : Decidable (IsResult ts) :=
  decidable_of_iff (ts ≠ [] ∧ Extent.Nesting.Completes ⟨0, 0⟩ (markOf false ts))
    ⟨fun h => ⟨h.1, h.2⟩, fun h => ⟨h.nonempty, h.complete⟩⟩

/-- The tokens of a header `function Name(Parameters): Result;`. -/
structure FunctionHeader where
  /-- The word `function`. -/
  word : Token
  /-- The name. -/
  name : Token
  /-- The bracket before the parameters. -/
  opening : Token
  /-- The parameters. -/
  parameters : List Token
  /-- The bracket after the parameters. -/
  closing : Token
  /-- The colon. -/
  colon : Token
  /-- The result type. -/
  result : List Token
  /-- The semicolon. -/
  semicolon : Token
  isFunction : word.isKeyword .function = true
  isName : name.isName = true
  isOpening : opening.isSymbol "(" = true
  isParameters : IsParameters parameters
  isClosing : closing.isSymbol ")" = true
  isColon : colon.isSymbol ":" = true
  isResult : IsResult result
  isSemicolon : semicolon.isSymbol ";" = true

namespace FunctionHeader

/-- The parameters with their brackets. -/
def args (f : FunctionHeader) : List Token :=
  f.opening :: (f.parameters ++ [f.closing])

/-- Everything before the semicolon. -/
def signature (f : FunctionHeader) : List Token :=
  f.word :: f.name :: (f.args ++ f.colon :: f.result)

/-- All tokens. -/
def tokens (f : FunctionHeader) : List Token :=
  f.signature ++ [f.semicolon]

end FunctionHeader

/-! ### Texts between cursors -/

namespace Cursor

variable {c : Cursor} {t : Token} {ts rest : List Token}

theorem ahead_advance_length (ts : List Token) (h : c.ahead = ts ++ rest) :
    (c.advance ts.length).ahead = rest := by
  rw [ahead_advance, h, List.drop_left]

theorem textUpTo_advance (h : c.ahead = ts ++ rest) :
    c.textUpTo (c.advance ts.length) = Token.render ts := by
  have hcount : c.left - (c.advance ts.length).left = ts.length := by
    rw [left_advance, c.left_eq, h, List.length_append]
    omega
  rw [textUpTo, upTo, hcount, h, List.take_left]

theorem peek?_of_ahead (h : c.ahead = t :: rest) : c.nth? 0 = some t := by
  rw [nth?, h]
  rfl

theorem keyword?_of_ahead_cons (h : c.ahead = t :: rest) : c.keyword? = t.keyword? := by
  rw [Cursor.keyword?, nthKeyword?, peek?_of_ahead h]
  rfl

theorem atSymbol_of_ahead (h : c.ahead = t :: rest) (symbol : String) :
    c.atSymbol symbol = t.isSymbol symbol := by
  rw [atSymbol, nthIsSymbol, peek?_of_ahead h]
  rfl

end Cursor

/-! ### Where the parts begin -/

namespace FunctionHeader

variable (f : FunctionHeader) {c : Cursor} {rest : List Token}

/-- The cursor before the bracket, for a header that begins at `c`. -/
def atArgs (c : Cursor) : Cursor :=
  c.next.advance 1

/-- The cursor before the colon. -/
def atColon (c : Cursor) : Cursor :=
  (atArgs c).advance f.args.length

/-- The cursor before the semicolon. -/
def atSemicolon (c : Cursor) : Cursor :=
  (f.atColon c).next.advance f.result.length

/-- What lies ahead, part by part. -/
theorem ahead_eq (h : c.ahead = f.tokens ++ rest) :
    c.ahead = f.word :: f.name :: (f.args ++ f.colon :: (f.result ++ f.semicolon :: rest)) := by
  rw [h]
  simp [tokens, signature]

theorem ahead_next (h : c.ahead = f.tokens ++ rest) :
    c.next.ahead = f.name :: (f.args ++ f.colon :: (f.result ++ f.semicolon :: rest)) :=
  Cursor.ahead_advance_length [f.word] (f.ahead_eq h)

theorem ahead_atArgs (h : c.ahead = f.tokens ++ rest) :
    (atArgs c).ahead = f.args ++ f.colon :: (f.result ++ f.semicolon :: rest) :=
  Cursor.ahead_advance_length [f.name] (f.ahead_next h)

theorem ahead_atColon (h : c.ahead = f.tokens ++ rest) :
    (f.atColon c).ahead = f.colon :: (f.result ++ f.semicolon :: rest) :=
  Cursor.ahead_advance_length f.args (f.ahead_atArgs h)

theorem ahead_next_atColon (h : c.ahead = f.tokens ++ rest) :
    (f.atColon c).next.ahead = f.result ++ f.semicolon :: rest :=
  Cursor.ahead_advance_length [f.colon] (f.ahead_atColon h)

theorem ahead_atSemicolon (h : c.ahead = f.tokens ++ rest) :
    (f.atSemicolon c).ahead = f.semicolon :: rest :=
  Cursor.ahead_advance_length f.result (f.ahead_next_atColon h)

/-- The semicolon comes right after the signature. -/
theorem atSemicolon_eq (c : Cursor) : f.atSemicolon c = c.advance f.signature.length := by
  have hlength : f.signature.length = 1 + 1 + f.args.length + 1 + f.result.length := by
    simp only [signature, List.length_cons, List.length_append]
    omega
  rw [hlength]
  simp only [atSemicolon, atColon, atArgs, Cursor.next, Cursor.advance_advance]

/-! ### Readers of the parts -/

/-- A name with a bracket behind it has no qualifier and no type parameters. -/
theorem qualifiedName_eq (h : c.ahead = f.tokens ++ rest) :
    Extent.qualifiedName c.next.ahead = ⟨none, f.name.text, 1⟩ := by
  rw [f.ahead_next h]
  have hno (symbol : String) (hne : "(" ≠ symbol) :
      (f.args ++ f.colon :: (f.result ++ f.semicolon :: rest)).head?.any
        (Token.isSymbol · symbol) = false :=
    Extent.isSymbol_ne f.isOpening hne
  generalize f.args ++ f.colon :: (f.result ++ f.semicolon :: rest) = ts at hno
  have hsegments : Extent.segments 0 (f.name :: ts) = [⟨f.name.text, 1⟩] := by
    have hangle := hno "<" (by decide)
    have hdot := hno "." (by decide)
    rw [Extent.segments, if_pos f.isName, hangle]
    simp only [Bool.false_eq_true, if_false, List.drop_zero, hdot, Bool.false_and, Nat.zero_add]
  rw [Extent.qualifiedName, hsegments]
  rfl

/-- The group of the parameters ends at its closing bracket. -/
theorem passGroup_eq (h : c.ahead = f.tokens ++ rest) :
    (atArgs c).passGroup "(" ")" = f.atColon c := by
  have hplain : ∀ t ∈ f.parameters, t.isKeywordThat Keyword.endsHeader = false := by
    intro t ht
    obtain ⟨hend, hhard⟩ := f.isParameters.plain t ht
    unfold Token.isKeyword at hend
    unfold Token.isKeywordThat at hhard ⊢
    cases hkw : t.keyword? with
    | none => rfl
    | some kw => simp_all [Keyword.endsHeader]
  have hgroup : Extent.group "(" ")" (atArgs c).ahead = f.args.length := by
    rw [f.ahead_atArgs h, args, List.cons_append, List.append_assoc, List.singleton_append,
      Extent.group_eq (by decide) f.isOpening f.isClosing f.isParameters.balanced hplain]
    simp
  have hat : (atArgs c).atSymbol "(" = true := by
    rw [Cursor.atSymbol_of_ahead (f.ahead_atArgs h)]
    exact f.isOpening
  rw [Cursor.passGroup, if_pos hat, hgroup, atColon]

/-- The result type ends before the semicolon. -/
theorem typeExprAfter_eq (h : c.ahead = f.tokens ++ rest) :
    (f.atColon c).typeExprAfter [":"] [] = (Token.render f.result, f.atSemicolon c) := by
  have hcolon : (f.atColon c).nthIsSymbolIn 0 [":"] = true := by
    rw [Cursor.nthIsSymbolIn, Cursor.peek?_of_ahead (f.ahead_atColon h)]
    simp [Token.isSymbolIn, f.isColon]
  have hnext := f.ahead_next_atColon h
  have hcount : Extent.typeExpr [] (f.atColon c).next.ahead = f.result.length := by
    rw [hnext, Extent.typeExpr, Extent.typeExprFrom_append f.isResult.complete f.isSemicolon]
  rw [Cursor.typeExprAfter, if_pos hcolon, Cursor.typeExpr, Cursor.passTypeExpr, hcount,
    Cursor.textUpTo_advance hnext, atSemicolon]

/-- Nothing is left of the header before its semicolon. -/
theorem passHeaderRest_eq (h : c.ahead = f.tokens ++ rest) :
    (f.atSemicolon c).passHeaderRest = f.atSemicolon c := by
  rw [Cursor.passHeaderRest, Extent.headerRest, f.ahead_atSemicolon h, List.takeWhile_cons_of_neg]
  · exact Cursor.advance_zero _
  · simp [Extent.endsHeader, f.isSemicolon]

end FunctionHeader

/-! ### The whole header -/

/-- **A header is taken apart exactly**: wherever the tokens of a header
    `function Name(Parameters): Result;` stand, whatever comes behind them, it is
    read, and its name, parameters, result type and signature are the texts of
    these tokens. -/
theorem Header.function_parts (f : FunctionHeader) {c : Cursor} {rest : List Token}
    (ahead : c.ahead = f.tokens ++ rest) :
    ∃ h d, Header.routine? c = some (h, d) ∧ h.kind = .function ∧ h.name = f.name.text ∧
      h.qualifier = none ∧ h.args = Token.render f.args ∧ h.typeText = Token.render f.result ∧
      h.signature = Token.render f.signature := by
  have hkeyword : c.keyword? = some .function := by
    rw [Cursor.keyword?_of_ahead_cons (f.ahead_eq ahead)]
    exact of_decide_eq_true f.isFunction
  have hnoClass : c.passKeyword .class_ = c := by
    rw [Cursor.passKeyword, Cursor.atKeyword, hkeyword]
    rfl
  have hargs : (FunctionHeader.atArgs c).textUpTo (f.atColon c) = Token.render f.args :=
    Cursor.textUpTo_advance (f.ahead_atArgs ahead)
  have hsignature : c.textUpTo (f.atSemicolon c) = Token.render f.signature := by
    have hsplit : c.ahead = f.signature ++ f.semicolon :: rest := by
      rw [ahead, FunctionHeader.tokens, List.append_assoc, List.singleton_append]
    rw [f.atSemicolon_eq, Cursor.textUpTo_advance hsplit]
  rw [← hargs, ← hsignature]
  have hqualified := f.qualifiedName_eq ahead
  have hgroup := f.passGroup_eq ahead
  have htype := f.typeExprAfter_eq ahead
  have hrest := f.passHeaderRest_eq ahead
  unfold FunctionHeader.atArgs at hgroup ⊢
  simp [Header.routine?, hnoClass, hkeyword, Header.routineKind?, Header.routineName,
    hqualified, Header.namesResult, hgroup, htype, hrest, Cursor.nextIf]

/-- The result type of this function is a record with a semicolon and groups of
    its own, and a default value among its parameters reads like their end. -/
theorem Header.function_parts_of_record_result :
    let c := Cursor.ofLexemes (Lexer.lex false
      "function F(K: (A); S: T = ')'): record A: set of (B); end; far;")
    IsParameters ((c.ahead.drop 3).take 11) ∧ IsResult ((c.ahead.drop 16).take 10) ∧
      ∃ h d, Header.routine? c = some (h, d) ∧ h.kind = .function ∧ h.name = "F" ∧
        h.qualifier = none ∧ h.args = "(K: (A); S: T = ')')" ∧
        h.typeText = "record A: set of (B); end" ∧
        h.signature = "function F(K: (A); S: T = ')'): record A: set of (B); end" := by
  intro c
  let f : FunctionHeader :=
    { word := c.ahead[0]!, name := c.ahead[1]!, opening := c.ahead[2]!
      parameters := (c.ahead.drop 3).take 11, closing := c.ahead[14]!, colon := c.ahead[15]!
      result := (c.ahead.drop 16).take 10, semicolon := c.ahead[26]!
      isFunction := by decide +kernel
      isName := by decide +kernel
      isOpening := by decide +kernel
      isParameters := by decide +kernel
      isClosing := by decide +kernel
      isColon := by decide +kernel
      isResult := by decide +kernel
      isSemicolon := by decide +kernel }
  have hahead : c.ahead = f.tokens ++ c.ahead.drop 27 := by decide +kernel
  have hname : f.name.text = "F" := by decide +kernel
  have hargs : Token.render f.args = "(K: (A); S: T = ')')" := by decide +kernel
  have htype : Token.render f.result = "record A: set of (B); end" := by decide +kernel
  have hsignature :
      Token.render f.signature = "function F(K: (A); S: T = ')'): record A: set of (B); end" := by
    decide +kernel
  refine ⟨f.isParameters, f.isResult, ?_⟩
  rw [← hname, ← hargs, ← htype, ← hsignature]
  exact Header.function_parts f hahead

end PascalOutline
