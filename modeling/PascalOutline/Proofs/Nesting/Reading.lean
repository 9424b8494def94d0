import PascalOutline.Proofs.Cursor.Movement
import PascalOutline.Proofs.Nesting.Grammar
import PascalOutline.Proofs.Recognizer.Alike

/-! # Words of nested declarations under the cursor

  What the readers of phrases find when the words of the grammar lie ahead of
  the cursor: the header of a procedure ends at its semicolon, a list of names
  before what follows the last one, a type expression before a semicolon.
-/

namespace PascalOutline.Nesting

/-! ### Words under the cursor -/

namespace Word

@[simp] theorem text_token (w : Word) : w.token.text = w.text := rfl

@[simp] theorem keyword?_token_keyword (kw : Keyword) : (keyword kw).token.keyword? = some kw := rfl

@[simp] theorem keyword?_token_name (n : Ident) : (name n).token.keyword? = none := rfl

@[simp] theorem keyword?_token_mark (m : Mark) : (mark m).token.keyword? = none := rfl

@[simp] theorem isSymbol_token_keyword (kw : Keyword) (symbol : String) :
    (keyword kw).token.isSymbol symbol = false := rfl

@[simp] theorem isSymbol_token_name (n : Ident) (symbol : String) :
    (name n).token.isSymbol symbol = false := rfl

@[simp] theorem isSymbol_token_mark (m : Mark) (symbol : String) :
    (mark m).token.isSymbol symbol = decide (m.text = symbol) := rfl

@[simp] theorem isName_token_keyword (kw : Keyword) :
    (keyword kw).token.isName = kw.isContextual := rfl

@[simp] theorem isName_token_name (n : Ident) : (name n).token.isName = true := rfl

@[simp] theorem isName_token_mark (m : Mark) : (mark m).token.isName = false := rfl

@[simp] theorem isWord_token_keyword (kw : Keyword) (word : String) :
    (keyword kw).token.isWord word = sameWord kw.spelling word := rfl

@[simp] theorem isWord_token_name (n : Ident) (word : String) :
    (name n).token.isWord word = sameWord n.text word := rfl

@[simp] theorem isWord_token_mark (m : Mark) (word : String) :
    (mark m).token.isWord word = false := rfl

@[simp] theorem isIdent_token_name (n : Ident) : (name n).token.isIdent = true := rfl

end Word

end PascalOutline.Nesting

namespace PascalOutline

open Nesting

namespace Cursor

/-- Some words lie ahead of a cursor. -/
def Faces (c : Cursor) (ws : List Word) : Prop :=
  c.ahead = ws.map Word.token

namespace Faces

variable {c d : Cursor} {w v : Word} {vs ws : List Word} {m : Mark}

theorem eq (h : c.Faces ws) : c.ahead = ws.map Word.token :=
  h

theorem next (h : c.Faces (w :: ws)) : c.next.Faces ws := by
  rw [Faces] at h
  rw [Faces, Cursor.next, ahead_advance, h]
  rfl

theorem advance (h : c.Faces (vs ++ ws)) {n : Nat} (hn : n = vs.length) :
    (c.advance n).Faces ws := by
  rw [Faces] at h
  rw [Faces, ahead_advance, h, hn, ← List.map_drop, List.drop_left]

theorem nth? (h : c.Faces ws) (n : Nat) : c.nth? n = ws[n]?.map Word.token := by
  rw [Cursor.nth?, h, List.getElem?_map]

theorem textUpTo (h : c.Faces (vs ++ ws)) (hd : d.Faces ws) :
    c.textUpTo d = Word.spelling vs := by
  rw [Faces] at h hd
  have hcount : c.left - d.left = vs.length := by
    rw [c.left_eq, d.left_eq, h, hd, List.length_map, List.length_map, List.length_append]
    omega
  rw [Cursor.textUpTo, upTo, hcount, h, ← List.map_take, List.take_left, Word.render_tokens]

theorem keyword? (h : c.Faces (w :: ws)) : c.keyword? = w.token.keyword? := by
  simp [Cursor.keyword?, Cursor.nthKeyword?, h.nth?]

theorem atKeyword (h : c.Faces (w :: ws)) (kw : Keyword) :
    c.atKeyword kw = decide (w.token.keyword? = some kw) := by
  rw [Cursor.atKeyword, h.keyword?]

theorem atSymbol (h : c.Faces (w :: ws)) (symbol : String) :
    c.atSymbol symbol = w.token.isSymbol symbol := by
  simp [Cursor.atSymbol, Cursor.nthIsSymbol, h.nth?]

theorem nthIsSymbol_one (h : c.Faces (w :: v :: ws)) (symbol : String) :
    c.nthIsSymbol 1 symbol = v.token.isSymbol symbol := by
  simp [Cursor.nthIsSymbol, h.nth?]

theorem nthIsSymbolIn_zero (h : c.Faces (w :: ws)) (symbols : List String) :
    c.nthIsSymbolIn 0 symbols = w.token.isSymbolIn symbols := by
  simp [Cursor.nthIsSymbolIn, h.nth?]

theorem atName (h : c.Faces (w :: ws)) : c.atName = w.token.isName := by
  simp [Cursor.atName, Cursor.nthIsName, h.nth?]

theorem atWord (h : c.Faces (w :: ws)) (word : String) : c.atWord word = w.token.isWord word := by
  simp [Cursor.atWord, Cursor.nthIsWord, h.nth?]

theorem text (h : c.Faces (w :: ws)) : c.text = w.text := by
  simp [Cursor.text, Cursor.nthText, h.nth?]

theorem passSymbol (h : c.Faces (.mark m :: ws)) (symbol : String) (hm : m.text = symbol) :
    (c.passSymbol symbol).Faces ws := by
  have hat : c.atSymbol symbol = true := by simp [h.atSymbol, hm]
  rw [Cursor.passSymbol, nextIf, if_pos hat]
  exact h.next

/-- A type expression ends before a semicolon. -/
theorem token_semicolon (stops : List String) (afterOf : Bool) :
    Extent.Nesting.token ⟨0, 0⟩ stops afterOf (Word.mark .semicolon).token = none := by
  rw [Extent.Nesting.token]
  split
  · rfl
  · rfl

theorem passTypeExpr_semicolon (h : c.Faces (.mark .semicolon :: ws)) (stops : List String) :
    c.passTypeExpr stops = c := by
  have hzero : Extent.typeExpr stops c.ahead = 0 := by
    rw [h, List.map_cons, Extent.typeExpr, Extent.typeExprFrom, token_semicolon]
  rw [passTypeExpr, hzero, advance_zero]

/-- A type that is given by its name. -/
theorem typeExprAfter_colon {n : Ident}
    (h : c.Faces (.mark .colon :: .name n :: .mark .semicolon :: ws)) :
    c.typeExprAfter [":"] ["="] = (n.text, c.next.next) := by
  have hcount : Extent.typeExpr ["="] c.next.ahead = 1 := by
    have hname : Extent.Nesting.token ⟨0, 0⟩ ["="] false (Word.name n).token = some ⟨0, 0⟩ := by
      have hequals : isOneOf n.text ["="] = false := by
        simp [isOneOf, n.sameWord_eq_false]
      rw [Extent.Nesting.token, Word.text_token, Word.text, hequals]
      rfl
    rw [h.next.eq, List.map_cons, List.map_cons, Extent.typeExpr, Extent.typeExprFrom, hname]
    dsimp only
    rw [Extent.typeExprFrom, token_semicolon]
    rfl
  have htext : c.next.textUpTo c.next.next = Word.spelling [.name n] :=
    @Faces.textUpTo c.next c.next.next [.name n] _ h.next h.next.next
  have hcolon : c.nthIsSymbolIn 0 [":"] = true := by
    rw [h.nthIsSymbolIn_zero]
    decide
  rw [typeExprAfter, if_pos hcolon, typeExpr, passTypeExpr, hcount]
  exact congrArg (·, c.next.next) htext

theorem typeExprAfter_of_ne (h : c.Faces (w :: ws)) (marks stops : List String)
    (hw : w.token.isSymbolIn marks = false) :
    c.typeExprAfter marks stops = ("", c) := by
  rw [typeExprAfter, h.nthIsSymbolIn_zero, hw]
  rfl

end Faces

end Cursor

/-! ### Headers -/

namespace Nesting

/-- The keywords that may follow the header of a procedure or record. -/
def openers : List Keyword :=
  [.procedure, .type_, .var, .begin, .end_]

/-- Some words begin with the keyword of a declaration, or with one that ends
    them. -/
def Opens (ws : List Word) : Prop :=
  ∃ kw ∈ openers, ∃ rest, ws = .keyword kw :: rest

theorem Opens.directives {ws : List Word} (h : Opens ws) :
    Extent.directives (ws.map Word.token) = ⟨[], 0⟩ := by
  obtain ⟨kw, hkw, rest, rfl⟩ := h
  have hword : ∀ kw ∈ openers, (Word.keyword kw).token.isWordIn Extent.directiveWords = false := by
    decide +kernel
  rw [List.map_cons, Extent.directives, Extent.startsDirective, hword kw hkw]
  rfl

theorem Opens.modifiers {ws : List Word} (h : Opens ws) :
    Clause.modifiers (ws.map Word.token) = ⟨[], [], 0⟩ := by
  obtain ⟨kw, hkw, rest, rfl⟩ := h
  have hwords : ∀ kw ∈ openers, (Word.keyword kw).token.isWordIn ["sealed", "abstract"] = false ∧
      (Word.keyword kw).token.isWord "helper" = false := by
    decide +kernel
  rw [List.map_cons, Clause.modifiers, (hwords kw hkw).1, (hwords kw hkw).2]
  simp

theorem qualifiedName_name (n : Ident) (ws : List Word) :
    Extent.qualifiedName ((.name n :: .mark .semicolon :: ws).map Word.token)
      = ⟨none, n.text, 1⟩ := by
  have hsegments : Extent.segments 0 ((.name n :: .mark .semicolon :: ws).map Word.token)
      = [⟨n.text, 1⟩] := by
    rw [List.map_cons, Extent.segments]
    simp [Mark.text, Word.text]
  rw [Extent.qualifiedName, hsegments]
  rfl

/-- The header of a procedure without parameters. -/
theorem exists_routine? {c : Cursor} {n : Ident} {ws : List Word}
    (h : c.Faces (.keyword .procedure :: .name n :: .mark .semicolon :: ws)) (hws : Opens ws) :
    ∃ header done, Header.routine? c = some (header, done) ∧ done.Faces ws ∧
      header.kind = .procedure ∧ header.name = n.text ∧ header.typeText = "" ∧
      header.specifiers = [] := by
  have hkeyword : (c.passKeyword .class_) = c := by
    simp [Cursor.passKeyword, Cursor.nextIf, h.atKeyword]
  have hname : Extent.qualifiedName c.next.ahead = ⟨none, n.text, 1⟩ := by
    rw [h.next, qualifiedName_name]
  have hargs : (c.next.advance 1).Faces (.mark .semicolon :: ws) := h.next.next
  have hgroup : (c.next.advance 1).passGroup "(" ")" = c.next.advance 1 := by
    simp [Cursor.passGroup, hargs.atSymbol, Mark.text]
  have htype := hargs.typeExprAfter_of_ne [":"] [] (by decide)
  have hrest : (c.next.advance 1).passHeaderRest = c.next.advance 1 := by
    rw [Cursor.passHeaderRest, hargs, Extent.headerRest, List.map_cons, List.takeWhile_cons_of_neg]
    · rfl
    · decide
  have hdone := hargs.passSymbol ";" rfl
  have hdirectives : ((c.next.advance 1).passSymbol ";").directives
      = ([], (c.next.advance 1).passSymbol ";") := by
    rw [Cursor.directives, hdone, hws.directives]
    rfl
  have hread : Header.routine? c = some (
      { kind := .procedure, name := n.text, qualifier := none
        signature := c.textUpTo (c.next.advance 1)
        args := (c.next.advance 1).textUpTo (c.next.advance 1)
        typeText := "", specifiers := []
        start := c.location
        stop := ((c.next.advance 1).passSymbol ";").prevStop
        nameAt := c.next.location }, (c.next.advance 1).passSymbol ";") := by
    simp [Header.routine?, Header.routineKind?, Header.routineName, Header.namesResult,
      Header.classSpecifier, Cursor.nextIf, hkeyword, h.keyword?, h.atKeyword, hname, hgroup, htype,
      hrest, hdirectives]
  exact ⟨_, _, hread, hdone, rfl, rfl, rfl, rfl⟩

/-! ### Lists of names -/

theorem listed_cons (first n : Ident) (others : List Ident) :
    listed first (n :: others) = .name first :: .mark .comma :: listed n others := rfl

theorem declaredNames_listed (first : Ident) (others : List Ident) (ws : List Word) :
    Clause.declaredNames ((listed first others ++ .mark .colon :: ws).map Word.token)
      = ((first :: others).map fun n => (Word.name n).token, (listed first others).length) := by
  induction others generalizing first with
  | nil => simp [listed, Clause.declaredNames, Mark.text]
  | cons n others ih =>
    have hcomma : (Word.mark .comma).token.isSymbol "," = true := by decide
    rw [listed_cons, List.cons_append, List.cons_append, List.map_cons, List.map_cons,
      Clause.declaredNames, if_pos (Word.isName_token_name first), if_pos hcomma, ih n]
    simp only [List.map_cons, List.length_cons, Prod.mk.injEq, true_and]
    omega

theorem enumValues_closing {c : Cursor} {ws : List Word} (h : c.Faces (.mark .closing :: ws)) :
    Clause.enumValues c = ([], c.next) := by
  rw [Clause.enumValues]
  split
  · rename_i hnil
    rw [h] at hnil
    cases hnil
  · rename_i t ts hcons
    rw [h] at hcons
    cases hcons
    rfl

/-- A value without a number, and those after it. -/
theorem enumValues_name {c : Cursor} {n : Ident} {m : Mark} {ws : List Word}
    (h : c.Faces (.name n :: .mark m :: ws)) (hm : m ≠ .equals) :
    (Clause.enumValues c).1.map Clause.EnumValue.name
        = n.text :: (Clause.enumValues (c.next.passSymbol ",")).1.map Clause.EnumValue.name ∧
      (Clause.enumValues c).2 = (Clause.enumValues (c.next.passSymbol ",")).2 := by
  have hvalue : c.next.typeExprAfter ["=", ":="] [","] = ("", c.next) := by
    refine h.next.typeExprAfter_of_ne ["=", ":="] [","] ?_
    cases m with
    | equals => exact absurd rfl hm
    | _ => decide
  rw [Clause.enumValues]
  split
  · rename_i hnil
    rw [h] at hnil
    cases hnil
  · rename_i t ts hcons
    rw [h] at hcons
    cases hcons
    dsimp only
    rw [hvalue]
    exact ⟨rfl, rfl⟩

theorem enumValues_listed {c : Cursor} {first : Ident} {others : List Ident} {ws : List Word}
    (h : c.Faces (listed first others ++ .mark .closing :: ws)) :
    (Clause.enumValues c).1.map Clause.EnumValue.name = (first :: others).map Ident.text ∧
      (Clause.enumValues c).2.Faces ws := by
  induction others generalizing c first with
  | nil =>
    have hclosing : c.next.Faces (.mark .closing :: ws) := h.next
    have hafter : c.next.passSymbol "," = c.next := by
      simp [Cursor.passSymbol, Cursor.nextIf, hclosing.atSymbol, Mark.text]
    obtain ⟨hnames, hend⟩ := enumValues_name h (by decide)
    rw [hafter, enumValues_closing hclosing] at hnames hend
    rw [hnames, hend]
    exact ⟨rfl, hclosing.next⟩
  | cons n others ih =>
    have hafter : (c.next.passSymbol ",").Faces (listed n others ++ .mark .closing :: ws) :=
      Cursor.Faces.passSymbol (m := .comma) h.next "," rfl
    obtain ⟨hnames, hend⟩ := enumValues_name h (by decide)
    obtain ⟨hothers, hlast⟩ := ih hafter
    rw [hnames, hend, hothers]
    exact ⟨rfl, hlast⟩

end Nesting

end PascalOutline
