import PascalOutline.Diagnostic
import PascalOutline.Proofs.Outline.Tree
import PascalOutline.Proofs.Token.Render

/-! # Nested declarations

  A grammar of procedures, records and enumerations that nest to any depth:

  - a procedure holds procedures and types, before an empty body;
  - a record holds fields and types;
  - an enumeration lists its values.

  A declaration is spelled with one blank between its words, and stands for a
  tree of labels. The lexer finds the words of a spelling again and reports
  nothing about it.
-/

namespace PascalOutline.Nesting

/-! ### Words -/

/-- Whether a text is a letter or underscore before letters, digits and
    underscores, all of them ASCII. -/
def isIdentifier : List Char → Bool
  | [] => false
  | c :: cs => (c.isAlpha || c == '_') && cs.all fun d => d.isAlphanum || d == '_'

/-- A plain name: an identifier that is no keyword. -/
structure Ident where
  /-- Its spelling. -/
  text : String
  /-- It is an identifier. -/
  identifier : isIdentifier text.toList = true := by decide +kernel
  /-- It is no keyword, in any case. -/
  plain : Keyword.ofWord? text = none := by decide +kernel

theorem Ident.text_ne_empty (n : Ident) : n.text ≠ "" := by
  intro hempty
  have hidentifier := n.identifier
  rw [hempty] at hidentifier
  cases hidentifier

/-- A plain name for a type. The word `generic` before a name says that the
    type has parameters. -/
structure TypeName extends Ident where
  /-- It is not that word, in any case. -/
  notGeneric : sameWord text "generic" = false := by decide +kernel

/-- The marks between names. -/
inductive Mark where
  | semicolon | equals | opening | closing | comma | colon
deriving DecidableEq

/-- The spelling of a mark. -/
def Mark.text : Mark → String
  | semicolon => ";"
  | equals => "="
  | opening => "("
  | closing => ")"
  | comma => ","
  | colon => ":"

/-- A word of a declaration. -/
inductive Word where
  /-- A keyword. -/
  | keyword (kw : Keyword)
  /-- A name. -/
  | name (n : Ident)
  /-- A mark. -/
  | mark (m : Mark)

namespace Word

/-- The spelling of a word. -/
def text : Word → String
  | keyword kw => kw.spelling
  | name n => n.text
  | mark m => m.text

/-- What a word is as a lexeme. -/
def kind : Word → LexemeKind
  | keyword kw => .ident (some kw) false
  | name _ => .ident none false
  | mark _ => .symbol

/-- The spelling of some words, with one blank between neighbours. -/
def spelling (ws : List Word) : String :=
  " ".intercalate (ws.map text)

end Word

/-! ### Declarations -/

mutual

/-- The declaration of a type. -/
inductive TypeDecl where
  /-- A record with its members. -/
  | record (name : TypeName) (members : List Member)
  /-- An enumeration with its values. -/
  | enumeration (name : TypeName) (first : Ident) (others : List Ident)

/-- A member of a record. -/
inductive Member where
  /-- Fields that share a type. -/
  | fields (first : Ident) (others : List Ident) (type : Ident)
  /-- A type. -/
  | type (decl : TypeDecl)

end

/-- The declaration of a procedure or a type. -/
inductive Decl where
  /-- A procedure with what it declares before its body. -/
  | procedure (name : Ident) (inner : List Decl)
  /-- A type. -/
  | type (decl : TypeDecl)

/-- The words of a list of names. -/
def listed (first : Ident) (others : List Ident) : List Word :=
  .name first :: others.flatMap fun n => [.mark .comma, .name n]

/-- The words of an enumeration in parentheses. -/
def enclosed (first : Ident) (others : List Ident) : List Word :=
  .mark .opening :: listed first others ++ [.mark .closing]

mutual

/-- The words of the declaration of a type. -/
def TypeDecl.words : TypeDecl → List Word
  | .record n members =>
    [.keyword .type_, .name n.toIdent, .mark .equals, .keyword .record]
      ++ Member.allWords members ++ [.keyword .end_, .mark .semicolon]
  | .enumeration n first others =>
    [.keyword .type_, .name n.toIdent, .mark .equals] ++ enclosed first others
      ++ [.mark .semicolon]

/-- The words of a member. -/
def Member.words : Member → List Word
  | .fields first others type =>
    .keyword .var :: listed first others ++ [.mark .colon, .name type, .mark .semicolon]
  | .type decl => decl.words

/-- The words of the members of a record. -/
def Member.allWords : List Member → List Word
  | [] => []
  | m :: ms => m.words ++ Member.allWords ms

end

mutual

/-- The words of a declaration. -/
def Decl.words : Decl → List Word
  | .procedure n inner =>
    [.keyword .procedure, .name n, .mark .semicolon] ++ Decl.allWords inner
      ++ [.keyword .begin, .keyword .end_, .mark .semicolon]
  | .type decl => decl.words

/-- The words of some declarations. -/
def Decl.allWords : List Decl → List Word
  | [] => []
  | d :: ds => d.words ++ Decl.allWords ds

end

/-! ### The trees that they stand for -/

/-- One leaf for each name of a list. -/
def leaves (label : String → Label) (first : Ident) (others : List Ident) : List Tree :=
  ((first :: others).map fun n => label n.text).map fun l => .node l []

/-- The label of an enumeration value. -/
def valueLabel (name : String) : Label :=
  { kind := .enumValue, name }

/-- The label of a field. -/
def fieldLabel (type : Ident) (name : String) : Label :=
  { kind := .field, name, typeText := type.text, visibility := some .public_ }

mutual

/-- The tree of a type; its visibility is that of a member of a record, if it
    is one. -/
def TypeDecl.tree (visibility : Option Visibility) : TypeDecl → Tree
  | .record n members =>
    .node { kind := .record, name := n.text, visibility } (Member.forest members)
  | .enumeration n first others =>
    .node
      { kind := .type_, name := n.text, typeText := Word.spelling (enclosed first others)
        visibility }
      (leaves valueLabel first others)

/-- The trees of a member: one for each field, or the one of a type. -/
def Member.trees : Member → List Tree
  | .fields first others type => leaves (fieldLabel type) first others
  | .type decl => [decl.tree (some .public_)]

/-- The trees of the members of a record. -/
def Member.forest : List Member → List Tree
  | [] => []
  | m :: ms => m.trees ++ Member.forest ms

end

mutual

/-- The tree of a declaration. -/
def Decl.tree : Decl → Tree
  | .procedure n inner => .node { kind := .procedure, name := n.text } (Decl.forest inner)
  | .type decl => decl.tree none

/-- The trees of some declarations. -/
def Decl.forest : List Decl → List Tree
  | [] => []
  | d :: ds => d.tree :: Decl.forest ds

end

/-- The source text of some declarations. -/
def source (ds : List Decl) : String :=
  Word.spelling (Decl.allWords ds)

example : source [.procedure { text := "p" } []] = "procedure p ; begin end ;" := by
  decide +kernel

/-! ### Words as tokens -/

namespace Word

/-- A word as a token after a blank, at no place in particular. -/
def token (w : Word) : Token :=
  ⟨⟨w.kind, w.text, .nowhere, .nowhere⟩, 0, true⟩

end Word

/-- Letters and the underscore stand between the upper case letters and the
    braces. -/
theorem toNat_of_ascii {c : Char} (h : (c.isAlpha || c == '_') = true) :
    65 ≤ c.toNat ∧ c.toNat ≤ 122 := by
  rcases Bool.or_eq_true_iff.mp h with halpha | hunderscore
  · rcases Bool.or_eq_true_iff.mp (show (c.isUpper || c.isLower) = true from halpha) with
      hupper | hlower
    · have hbounds : 65 ≤ c.toNat ∧ c.toNat ≤ 90 := of_decide_eq_true hupper
      exact ⟨hbounds.1, Nat.le_trans hbounds.2 (by decide)⟩
    · obtain ⟨hlow, hhigh⟩ := Bool.and_eq_true_iff.mp
        (show (decide (97 ≤ c.toNat) && decide (c.toNat ≤ 122)) = true from hlower)
      exact ⟨Nat.le_trans (by decide) (of_decide_eq_true hlow), of_decide_eq_true hhigh⟩
  · rw [eq_of_beq hunderscore]
    decide

/-- A name is no sign of relation. -/
theorem Ident.sameWord_eq_false (n : Ident) : sameWord n.text "=" = false := by
  rw [← Bool.not_eq_true]
  intro hsame
  have hidentifier := n.identifier
  cases htext : n.text.toList with
  | nil => simp [sameWord, htext] at hsame
  | cons c cs =>
    simp only [htext, isIdentifier, Bool.and_eq_true] at hidentifier
    obtain ⟨hlow, hhigh⟩ := toNat_of_ascii hidentifier.1
    have hlower : c.toLower = '=' := by
      simp [sameWord, htext] at hsame
      exact hsame.1
    have hall : ∀ n < 123, 65 ≤ n → (Char.ofNat n).toLower ≠ '=' := by decide
    refine hall c.toNat (Nat.lt_succ_of_le hhigh) hlow ?_
    rw [Char.ofNat_toNat, hlower]

theorem cut_of_isIdentifier {c : Char} {cs : List Char} (h : isIdentifier (c :: cs) = true)
    (nested : Bool) :
    Lexer.cut nested c cs
      = (.ident (Keyword.ofWord? (String.ofList (c :: cs))) false, cs.length) := by
  rw [isIdentifier, Bool.and_eq_true, List.all_eq_true] at h
  obtain ⟨hlow, hhigh⟩ := toNat_of_ascii h.1
  have hne (d : Char) (hd : d.toNat < 65 ∨ 122 < d.toNat) : c ≠ d := by
    rintro rfl
    omega
  have hstart : Lexer.isNameStart c = true := by
    rw [Lexer.isNameStart, h.1, Bool.true_or]
  have hrest : ∀ d ∈ cs, Lexer.isNameRest d = true := by
    intro d hd
    rw [Lexer.isNameRest, h.2 d hd, Bool.true_or]
  have hgap : Lexer.isGap c = false := by
    simp [Lexer.isGap, hne ' ' (by decide), hne '\x7f' (by decide)]
    omega
  have hend : Lexer.isLineEnd c = false := by
    simp [Lexer.isLineEnd, hne '\n' (by decide), hne '\r' (by decide)]
  have hdigit : c.isDigit = false := by
    rw [← Bool.not_eq_true]
    intro hdigit
    simp only [Char.isDigit, Bool.and_eq_true, decide_eq_true_eq, UInt32.le_iff_toNat_le] at hdigit
    have hnine : c.toNat ≤ 57 := hdigit.2
    omega
  have hrun : Lexer.runLength Lexer.isNameRest cs = cs.length := by
    have happend : Lexer.runLength Lexer.isNameRest (cs ++ []) = cs.length :=
      Lexer.runLength_append hrest rfl
    rwa [List.append_nil] at happend
  simp [Lexer.cut, Lexer.nameCut, hne, hgap, hend, hstart, hdigit, hrun]

theorem isIdentifier_spelling (kw : Keyword) : isIdentifier kw.spelling.toList = true := by
  have hall : ∀ kw ∈ Keyword.all, isIdentifier kw.spelling.toList = true := by decide +kernel
  exact hall kw kw.mem_all

theorem ofWord?_spelling (kw : Keyword) : Keyword.ofWord? kw.spelling = some kw := by
  have hall : ∀ kw ∈ Keyword.all, Keyword.ofWord? kw.spelling = some kw := by decide +kernel
  exact hall kw kw.mem_all

namespace Word

/-- The lexer takes a word for what it is when nothing follows. -/
theorem exists_cut (w : Word) (nested : Bool) :
    ∃ c cs, w.text.toList = c :: cs ∧ Lexer.cut nested c cs = (w.kind, cs.length) := by
  have hident {text : String} (h : isIdentifier text.toList = true) :
      ∃ c cs, text.toList = c :: cs ∧
        Lexer.cut nested c cs = (.ident (Keyword.ofWord? text) false, cs.length) := by
    cases htext : text.toList with
    | nil =>
      rw [htext] at h
      cases h
    | cons c cs =>
      refine ⟨c, cs, rfl, ?_⟩
      rw [cut_of_isIdentifier (htext ▸ h), ← htext, String.ofList_toList]
  cases w with
  | keyword kw =>
    have hcut := hident (isIdentifier_spelling kw)
    rwa [ofWord?_spelling] at hcut
  | name n =>
    have hcut := hident n.identifier
    rwa [n.plain] at hcut
  | mark m => cases m <;> exact ⟨_, _, rfl, rfl⟩

theorem isTrivia_kind (w : Word) : w.kind.isTrivia = false := by
  cases w <;> rfl

theorem laid_tokens (nested : Bool) (ws : List Word) :
    ∃ cs, Token.Laid nested (ws.map token) cs := by
  induction ws with
  | nil => exact ⟨[], .nil []⟩
  | cons w ws ih =>
    obtain ⟨rest, hrest⟩ := ih
    obtain ⟨c, cs, htext, hcut⟩ := w.exists_cut nested
    refine ⟨c :: cs, .cons hcut ?_ w.isTrivia_kind hrest ?_⟩
    · rw [List.take_length, ← htext, String.ofList_toList]
      rfl
    · -- Every word stands after a blank, so nothing is said of the text before it.
      intro t ht hadjacent
      cases ws with
      | nil => cases ht
      | cons v ws =>
        cases ht
        cases hadjacent

theorem stringsClosed_tokens (ws : List Word) : Token.StringsClosed (ws.map token) := by
  intro t ht
  obtain ⟨w, _, rfl⟩ := List.mem_map.mp ((List.dropLast_sublist _).subset ht)
  intro hstring
  cases w <;> cases hstring

theorem render_tokens (ws : List Word) : Token.render (ws.map token) = spelling ws := by
  cases ws with
  | nil => rfl
  | cons w ws =>
    induction ws generalizing w with
    | nil => exact String.append_empty
    | cons v ws ih =>
      calc Token.render ((w :: v :: ws).map token)
          = w.text ++ (" " ++ v.text ++ Token.renderRest (ws.map token)) := rfl
        _ = w.text ++ " " ++ Token.render ((v :: ws).map token) := by
          rw [String.append_assoc, String.append_assoc]
          rfl
        _ = w.text ++ " " ++ spelling (v :: ws) := by rw [ih v]
        _ = spelling (w :: v :: ws) := String.intercalate_cons_cons.symm

/-- The lexer finds the words of a spelling. -/
theorem sameCode_lex_spelling (nested : Bool) (ws : List Word) :
    Token.SameCode (Token.ofLexemes (Lexer.lex nested (spelling ws))) (ws.map token) := by
  obtain ⟨cs, hlaid⟩ := laid_tokens nested ws
  have hcode := Token.sameCode_lex_render hlaid (stringsClosed_tokens ws) nested
  rwa [render_tokens] at hcode

/-- There is nothing in a spelling to be reported: no comment, and no closer
    of one. -/
theorem ofLexemes_lex_spelling (nested : Bool) (ws : List Word) :
    Diagnostic.ofLexemes (Lexer.lex nested (spelling ws)) = [] := by
  obtain ⟨cs, hlaid⟩ := laid_tokens nested ws
  rw [Diagnostic.ofLexemes, List.filterMap_eq_nil_iff]
  intro l hl
  rw [← render_tokens] at hl
  rcases Token.exists_of_mem_lex_render hlaid (stringsClosed_tokens ws) hl with
    hblank | ⟨t, ht, hkind, htext⟩
  · rw [Diagnostic.ofLexeme?, hblank]
  · obtain ⟨w, _, rfl⟩ := List.mem_map.mp ht
    rw [Diagnostic.ofLexeme?, hkind, htext]
    cases w with
    | keyword kw => rfl
    | name n => rfl
    | mark m => cases m <;> rfl

end Word

end PascalOutline.Nesting
