import Mathlib.Data.List.Forall2
import PascalOutline.Token.Clause

/-! # Two readings that correspond

  Two sources may have the same declarations although they are not the same
  text: one may be the other in lower case, or with other line ends, or laid
  out differently, or the same text may be read under other options. A
  `Correspondence` says what is compared: how a text of the second reading
  follows from the text of the first one, which places belong together, and
  whether documentation is compared at all.

  This module carries a correspondence from tokens to everything that is read
  from tokens alone. Counts are the same on both sides; copied texts are
  respelled.
-/

namespace PascalOutline

/-- What the parts of two readings have to do with each other. -/
structure Correspondence where
  /-- The text of the second reading for a text of the first one. -/
  text : String → String
  /-- Whether a place of the first reading belongs to one of the second. -/
  place : Location → Location → Prop
  /-- Whether documentation is compared. -/
  docs : Prop
  /-- A text is respelled part by part. -/
  text_append : ∀ a b, text (a ++ b) = text a ++ text b
  /-- A text in lower case stays as it is. -/
  text_lowered : ∀ a, text (lowered a) = lowered a
  /-- At most the case of letters changes. -/
  lowered_text : ∀ a, lowered (text a) = lowered a
  /-- Both readings begin at the same place. -/
  place_start : place .start .start
  /-- What was not read from a text is nowhere in both readings. -/
  place_nowhere : place .nowhere .nowhere
  /-- The later ones of places that belong together belong together. -/
  place_max : ∀ {a a' b b'}, place a a' → place b b' → place (max a b) (max a' b')
  /-- Documentation is compared only where lines are. -/
  line_eq : docs → ∀ {a b}, place a b → b.line = a.line

namespace Correspondence

variable (r : Correspondence)

theorem text_of_lowered_eq {a : String} (h : lowered a = a) : r.text a = a := by
  rw [← h, r.text_lowered]

@[simp] theorem text_empty : r.text "" = "" :=
  r.text_of_lowered_eq rfl

@[simp] theorem text_eq_empty_iff {a : String} : r.text a = "" ↔ a = "" := by
  constructor
  · intro h
    have hlowered : lowered a = "" := by
      rw [← r.lowered_text, h]
      rfl
    rw [← String.toList_inj, toList_lowered] at hlowered
    rw [← String.toList_inj]
    exact List.map_eq_nil_iff.mp hlowered
  · intro h
    rw [h, text_empty]

@[simp] theorem sameWord_text (a word : String) : sameWord (r.text a) word = sameWord a word := by
  rw [Bool.eq_iff_iff, sameWord_iff, sameWord_iff, r.lowered_text]

@[simp] theorem isOneOf_text (a : String) (words : List String) :
    isOneOf (r.text a) words = isOneOf a words := by
  simp [isOneOf, funext (r.sameWord_text a)]

end Correspondence

namespace Token

/-! ### Tokens -/

/-- Two tokens belong together: they are the same word in the spelling of
    their reading, and stand at places that belong together. -/
structure Corresponds (r : Correspondence) (t u : Token) : Prop where
  /-- They are of the same kind. -/
  kind : u.lexeme.kind = t.lexeme.kind
  /-- The second one is the first one respelled. -/
  text : u.text = r.text t.text
  /-- A symbol has no case. -/
  symbol : t.lexeme.kind = .symbol → u.text = t.text
  /-- They begin at places that belong together. -/
  start : r.place t.start u.start
  /-- They end at places that belong together. -/
  stop : r.place t.stop u.stop
  /-- Where documentation is compared, they stand after equally many lexemes. -/
  index : r.docs → u.index = t.index

namespace Corresponds

variable {r : Correspondence} {t u : Token}

theorem keyword? (h : t.Corresponds r u) : u.keyword? = t.keyword? := by
  simp only [Token.keyword?, Lexeme.keyword?, h.kind]

theorem isKeyword (h : t.Corresponds r u) (kw : Keyword) : u.isKeyword kw = t.isKeyword kw := by
  simp only [Token.isKeyword, h.keyword?]

theorem isKeywordThat (h : t.Corresponds r u) (p : Keyword → Bool) :
    u.isKeywordThat p = t.isKeywordThat p := by
  simp only [Token.isKeywordThat, h.keyword?]

theorem isSymbol (h : t.Corresponds r u) (symbol : String) :
    u.isSymbol symbol = t.isSymbol symbol := by
  simp only [Token.isSymbol, Lexeme.isSymbol, h.kind]
  by_cases hkind : t.lexeme.kind = .symbol
  · rw [show u.lexeme.text = t.lexeme.text from h.symbol hkind]
  · simp [hkind]

theorem isSymbolIn (h : t.Corresponds r u) (symbols : List String) :
    u.isSymbolIn symbols = t.isSymbolIn symbols := by
  simp only [Token.isSymbolIn, funext h.isSymbol]

theorem isIdent (h : t.Corresponds r u) : u.isIdent = t.isIdent := by
  simp only [Token.isIdent, Lexeme.isIdent, h.kind]

theorem isName (h : t.Corresponds r u) : u.isName = t.isName := by
  simp only [Token.isName, Lexeme.isName, h.kind]

theorem isWord (h : t.Corresponds r u) (word : String) : u.isWord word = t.isWord word := by
  have htext : u.lexeme.text = r.text t.lexeme.text := h.text
  simp only [Token.isWord, Lexeme.isWord, Lexeme.isPlainIdent, h.kind, htext, r.sameWord_text]

theorem isWordIn (h : t.Corresponds r u) (words : List String) :
    u.isWordIn words = t.isWordIn words := by
  simp only [Token.isWordIn, funext h.isWord]

end Corresponds

/-! ### Lists of tokens -/

/-- The tokens of two lists belong together one by one. -/
abbrev WordsCorrespond (r : Correspondence) (ts us : List Token) : Prop :=
  List.Forall₂ (Corresponds r) ts us

/-- Two lists of tokens belong together, and so do the gaps between them. The
    gap before the first token is left open: no text begins with it. -/
structure CodeCorresponds (r : Correspondence) (ts us : List Token) : Prop where
  /-- The words belong together. -/
  words : WordsCorrespond r ts us
  /-- The gaps are the same, the one before the first token aside. -/
  gaps : us.tail.map Token.spaced = ts.tail.map Token.spaced

section Words

variable {r : Correspondence} {ts us : List Token} (h : WordsCorrespond r ts us)
  {p : Token → Bool} (hp : ∀ {t u : Token}, t.Corresponds r u → p u = p t)
include h hp

theorem head?_any_corresponds : us.head?.any p = ts.head?.any p := by
  cases h with
  | nil => rfl
  | cons htu _ => exact hp htu

theorem getElem?_any_corresponds (n : Nat) : us[n]?.any p = ts[n]?.any p := by
  have hdrop := head?_any_corresponds (List.forall₂_drop n h) hp
  rwa [List.head?_drop, List.head?_drop] at hdrop

/-- The longest run of tokens that satisfy a test is equally long. -/
theorem length_takeWhile_corresponds : (us.takeWhile p).length = (ts.takeWhile p).length := by
  induction h with
  | nil => rfl
  | @cons t u ts us htu _ ih =>
    rw [List.takeWhile_cons, List.takeWhile_cons, hp htu]
    cases p t with
    | true => exact congrArg Nat.succ ih
    | false => rfl

end Words

namespace CodeCorresponds

variable {r : Correspondence} {ts us : List Token}

theorem nil : CodeCorresponds r [] [] :=
  ⟨.nil, rfl⟩

theorem drop (h : CodeCorresponds r ts us) (n : Nat) :
    CodeCorresponds r (ts.drop n) (us.drop n) := by
  refine ⟨List.forall₂_drop n h.words, ?_⟩
  rw [← List.drop_one, ← List.drop_one, List.drop_drop, List.drop_drop, Nat.add_comm n 1,
    ← List.drop_drop, ← List.drop_drop, List.drop_one, List.drop_one, List.map_drop, List.map_drop,
    h.gaps]

theorem take (h : CodeCorresponds r ts us) (n : Nat) :
    CodeCorresponds r (ts.take n) (us.take n) := by
  refine ⟨List.forall₂_take n h.words, ?_⟩
  rw [← List.drop_one, ← List.drop_one, List.drop_take, List.drop_take, List.drop_one,
    List.drop_one, List.map_take, List.map_take, h.gaps]

theorem tail {t u : Token} (h : CodeCorresponds r (t :: ts) (u :: us)) :
    CodeCorresponds r ts us :=
  h.drop 1

end CodeCorresponds

/-! ### Copied text -/

section Render

variable {r : Correspondence} {ts us : List Token}

theorem renderRest_corresponds (hwords : WordsCorrespond r ts us)
    (hgaps : us.map Token.spaced = ts.map Token.spaced) :
    renderRest us = r.text (renderRest ts) := by
  induction hwords with
  | nil => exact r.text_empty.symm
  | @cons t u ts us htu _ ih =>
    obtain ⟨hspaced, hgaps⟩ := List.cons.inj hgaps
    have hgap : r.text (if t.spaced then " " else "") = if t.spaced then " " else "" := by
      split
      · exact r.text_of_lowered_eq rfl
      · exact r.text_empty
    rw [renderRest, renderRest, r.text_append, r.text_append, hspaced, htu.text, ih hgaps, hgap]

theorem CodeCorresponds.render (h : CodeCorresponds r ts us) :
    Token.render us = r.text (Token.render ts) := by
  obtain ⟨hwords, hgaps⟩ := h
  cases hwords with
  | nil => exact r.text_empty.symm
  | cons htu hrest =>
    rw [Token.render, Token.render, r.text_append, htu.text, renderRest_corresponds hrest hgaps]

/-- A text that was copied up to a place. -/
theorem CodeCorresponds.render_take (h : CodeCorresponds r ts us) (n : Nat) :
    Token.render (us.take n) = r.text (Token.render (ts.take n)) :=
  (h.take n).render

theorem map_render_corresponds {phrases phrases' : List (List Token)}
    (h : List.Forall₂ (CodeCorresponds r) phrases phrases') :
    phrases'.map Token.render = (phrases.map Token.render).map r.text := by
  induction h with
  | nil => rfl
  | cons hone _ ih => rw [List.map_cons, List.map_cons, List.map_cons, hone.render, ih]

end Render

end Token

open Token

/-! ### How far a phrase reaches -/

namespace Extent

/-- Directives or accessors with their texts respelled. -/
def Directives.respell (f : String → String) (d : Directives) : Directives :=
  ⟨d.texts.map f, d.length⟩

/-- A part of a dotted name respelled. -/
def Segment.respell (f : String → String) (part : Segment) : Segment :=
  ⟨f part.name, part.stop⟩

/-- A dotted name respelled. -/
def QualifiedName.respell (f : String → String) (name : QualifiedName) : QualifiedName :=
  ⟨name.qualifier.map f, f name.name, name.length⟩

theorem QualifiedName.length_respell (f : String → String) (name : QualifiedName) :
    (name.respell f).length = name.length :=
  rfl

variable {r : Correspondence} {ts us : List Token}

theorem groupFrom_corresponds (h : WordsCorrespond r ts us) (opening closing : String)
    (depth : Nat) : groupFrom opening closing depth us = groupFrom opening closing depth ts := by
  induction h generalizing depth with
  | nil => rfl
  | cons htu _ ih => simp only [groupFrom, htu.isKeywordThat, htu.isSymbol, ih]

theorem group_corresponds (h : WordsCorrespond r ts us) (opening closing : String) :
    group opening closing us = group opening closing ts :=
  groupFrom_corresponds h opening closing 0

theorem Nesting.token_corresponds {t u : Token} (h : t.Corresponds r u) (n : Nesting)
    (stops : List String) (afterOf : Bool) :
    n.token stops afterOf u = n.token stops afterOf t := by
  simp only [Nesting.token, Nesting.symbol, h.text, r.isOneOf_text, h.keyword?, h.isSymbol,
    h.isSymbolIn]

theorem typeExprFrom_corresponds (h : WordsCorrespond r ts us) (stops : List String) (n : Nesting)
    (afterOf : Bool) : typeExprFrom stops n afterOf us = typeExprFrom stops n afterOf ts := by
  induction h generalizing n afterOf with
  | nil => rfl
  | cons htu _ ih => simp only [typeExprFrom, Nesting.token_corresponds htu, htu.isKeyword, ih]

theorem typeExpr_corresponds (h : WordsCorrespond r ts us) (stops : List String) :
    typeExpr stops us = typeExpr stops ts :=
  typeExprFrom_corresponds h stops ⟨0, 0⟩ false

theorem genericsFrom_corresponds (h : WordsCorrespond r ts us) (depth : Nat) :
    genericsFrom depth us = genericsFrom depth ts := by
  induction h generalizing depth with
  | nil => rfl
  | cons htu _ ih => simp only [genericsFrom, htu.isSymbol, htu.isSymbolIn, htu.isKeywordThat, ih]

theorem generics_corresponds (h : WordsCorrespond r ts us) : generics us = generics ts :=
  genericsFrom_corresponds h 0

theorem endsHeader_corresponds {t u : Token} (h : t.Corresponds r u) :
    endsHeader u = endsHeader t := by
  simp only [endsHeader, h.isSymbol, h.isKeywordThat]

theorem headerRest_corresponds (h : WordsCorrespond r ts us) : headerRest us = headerRest ts := by
  apply length_takeWhile_corresponds h
  intro t u htu
  rw [endsHeader_corresponds htu]

theorem startsDirective_corresponds (h : WordsCorrespond r ts us) :
    startsDirective us = startsDirective ts := by
  cases h with
  | nil => rfl
  | cons htu hrest =>
    rw [startsDirective, startsDirective, htu.isWordIn,
      head?_any_corresponds hrest fun h => h.isSymbolIn _]

theorem directiveArgs_corresponds (h : WordsCorrespond r ts us) :
    directiveArgs us = directiveArgs ts := by
  induction h with
  | nil => rfl
  | cons htu hrest ih =>
    rw [directiveArgs, directiveArgs, endsHeader_corresponds htu,
      startsDirective_corresponds (.cons htu hrest), ih]

theorem directives_corresponds (h : CodeCorresponds r ts us) :
    directives us = (directives ts).respell r.text := by
  -- The induction follows the reader of `ts`; the directives after the first
  -- one begin equally far on in both lists.
  induction ts using directives.induct generalizing us with
  | case1 =>
    rw [List.forall₂_nil_left_iff.mp h.words, directives]
    rfl
  | case2 t ts hstarts n passed =>
    rename_i ih
    obtain ⟨u, us, htu, hrest, rfl⟩ := List.forall₂_cons_left_iff.mp h.words
    have hn : directiveArgs us = n := directiveArgs_corresponds hrest
    have hpassed :
        (if (us.drop n).head?.any (Token.isSymbol · ";") then n + 1 else n) = passed := by
      rw [head?_any_corresponds (List.forall₂_drop n hrest) fun h => h.isSymbol _]
      rfl
    have htext : Token.render (u :: us.take n) = r.text (Token.render (t :: ts.take n)) :=
      h.render_take (n + 1)
    have hstarts' : startsDirective (u :: us) := by
      rwa [startsDirective_corresponds h.words]
    have hread : directives (u :: us) = ⟨Token.render (u :: us.take n) ::
        (directives (us.drop passed)).texts,
        1 + passed + (directives (us.drop passed)).length⟩ := by
      rw [directives, if_pos hstarts']
      simp only [hn, hpassed]
    rw [hread, ih (h.tail.drop passed), htext, directives, if_pos hstarts]
    rfl
  | case3 t ts hstarts =>
    obtain ⟨u, us, htu, hrest, rfl⟩ := List.forall₂_cons_left_iff.mp h.words
    have hstarts' : ¬startsDirective (u :: us) := by
      rwa [startsDirective_corresponds h.words]
    rw [directives, if_neg hstarts', directives, if_neg hstarts]
    rfl

theorem accessors_corresponds (h : CodeCorresponds r ts us) :
    accessors us = (accessors ts).respell r.text := by
  induction ts using accessors.induct generalizing us with
  | case1 =>
    rw [List.forall₂_nil_left_iff.mp h.words, accessors]
    rfl
  | case2 t ts hword n =>
    rename_i ih
    obtain ⟨u, us, htu, hrest, rfl⟩ := List.forall₂_cons_left_iff.mp h.words
    have hn : typeExpr accessorWords us = n := typeExpr_corresponds hrest _
    have htext : Token.render (u :: us.take n) = r.text (Token.render (t :: ts.take n)) :=
      h.render_take (n + 1)
    have hword' : u.isWordIn accessorWords := by rwa [htu.isWordIn]
    have hread : accessors (u :: us) = ⟨Token.render (u :: us.take n) ::
        (accessors (us.drop n)).texts, 1 + n + (accessors (us.drop n)).length⟩ := by
      rw [accessors, if_pos hword']
      simp only [hn]
    rw [hread, ih (h.tail.drop n), htext, accessors, if_pos hword]
    rfl
  | case3 t ts hword =>
    obtain ⟨u, us, htu, hrest, rfl⟩ := List.forall₂_cons_left_iff.mp h.words
    have hword' : ¬u.isWordIn accessorWords := by rwa [htu.isWordIn]
    rw [accessors, if_neg hword', accessors, if_neg hword]
    rfl

theorem defaultMarks_corresponds (h : WordsCorrespond r ts us) :
    defaultMarks us = defaultMarks ts := by
  fun_induction defaultMarks ts generalizing us with
  | case1 t s ts hmark ih =>
    obtain ⟨u, us, htu, hrest, rfl⟩ := List.forall₂_cons_left_iff.mp h
    obtain ⟨v, us, hsv, hothers, rfl⟩ := List.forall₂_cons_left_iff.mp hrest
    rw [← htu.isWord, ← hsv.isSymbol] at hmark
    rw [defaultMarks, if_pos hmark, ih hothers]
  | case2 t s ts hmark =>
    obtain ⟨u, us, htu, hrest, rfl⟩ := List.forall₂_cons_left_iff.mp h
    obtain ⟨v, us, hsv, hrest, rfl⟩ := List.forall₂_cons_left_iff.mp hrest
    rw [← htu.isWord, ← hsv.isSymbol] at hmark
    rw [defaultMarks, if_neg hmark]
  | case3 ts hshort =>
    cases h with
    | nil => rfl
    | cons _ hrest =>
      cases hrest with
      | nil => rfl
      | cons _ _ => exact absurd rfl (hshort _ _ _)

/-! ### Names -/

theorem segments_corresponds (h : WordsCorrespond r ts us) (before : Nat) :
    segments before us = (segments before ts).map (Segment.respell r.text) := by
  induction before, ts using segments.induct generalizing us with
  | case1 before =>
    rw [List.forall₂_nil_left_iff.mp h, segments]
    rfl
  | case2 before t ts hname n stop =>
    rename_i ih
    obtain ⟨u, us, htu, hrest, rfl⟩ := List.forall₂_cons_left_iff.mp h
    have hn : (if us.head?.any (Token.isSymbol · "<") then (generics us).length else 0) = n := by
      rw [head?_any_corresponds hrest fun h => h.isSymbol _, generics_corresponds hrest]
      rfl
    have hafter : WordsCorrespond r (ts.drop n) (us.drop n) := List.forall₂_drop n hrest
    have hdot := head?_any_corresponds hafter fun h => h.isSymbol "."
    have hnext := getElem?_any_corresponds hafter Corresponds.isName 1
    have hname' : u.isName := by rwa [htu.isName]
    have hothers := ih (List.forall₂_drop (n + 1) hrest)
    have hread : segments before (t :: ts) = ⟨t.text, stop⟩ ::
        if (ts.drop n).head?.any (Token.isSymbol · ".") && (ts.drop n)[1]?.any Token.isName then
          segments (stop + 1) (ts.drop (n + 1)) else [] := by
      rw [segments, if_pos hname]
      rfl
    rw [hread, segments, if_pos hname', htu.text]
    simp only [hn, hdot, hnext, List.map_cons, apply_ite (List.map (Segment.respell r.text))]
    rw [← hothers]
    rfl
  | case3 before t ts hname =>
    obtain ⟨u, us, htu, hrest, rfl⟩ := List.forall₂_cons_left_iff.mp h
    have hname' : ¬u.isName := by rwa [htu.isName]
    rw [segments, if_neg hname', segments, if_neg hname]
    rfl

theorem qualifiedName_corresponds (h : CodeCorresponds r ts us) :
    qualifiedName us = (qualifiedName ts).respell r.text := by
  simp only [qualifiedName, segments_corresponds h.words, h.render_take, List.getLast?_map,
    ← List.map_dropLast]
  cases (segments 0 ts).getLast? with
  | none => simp [QualifiedName.respell]
  | some part =>
    simp only [Option.map_some, Option.map_map, QualifiedName.respell]
    rfl

theorem operatorName_corresponds (h : WordsCorrespond r ts us) :
    operatorName us = (operatorName ts).respell r.text := by
  cases h with
  | nil => simp [operatorName, QualifiedName.respell]
  | cons htu _ =>
    simp only [operatorName, htu.kind, htu.isSymbolIn, htu.isIdent, htu.text]
    split
    · rfl
    · simp [QualifiedName.respell]

end Extent

/-! ### Clauses -/

namespace Clause

/-- A list of names respelled. -/
def Names.respell (f : String → String) (names : Names) : Names :=
  ⟨names.texts.map f, names.length⟩

/-- The modifiers of a type respelled. -/
def Modifiers.respell (f : String → String) (modifiers : Modifiers) : Modifiers :=
  ⟨modifiers.specifiers.map f, modifiers.bases.map f, modifiers.length⟩

variable {r : Correspondence} {ts us : List Token}

theorem dottedRest_corresponds (h : WordsCorrespond r ts us) : dottedRest us = dottedRest ts := by
  induction ts using dottedRest.induct generalizing us with
  | case1 dot name ts hpair ih =>
    obtain ⟨u, us, hdot, hrest, rfl⟩ := List.forall₂_cons_left_iff.mp h
    obtain ⟨v, us, hname, hothers, rfl⟩ := List.forall₂_cons_left_iff.mp hrest
    simp only [dottedRest, hdot.isSymbol, hname.isIdent, ih hothers]
  | case2 dot name ts hpair =>
    obtain ⟨u, us, hdot, hrest, rfl⟩ := List.forall₂_cons_left_iff.mp h
    obtain ⟨v, us, hname, hothers, rfl⟩ := List.forall₂_cons_left_iff.mp hrest
    rw [dottedRest, if_neg (by rwa [hdot.isSymbol, hname.isIdent]), dottedRest, if_neg hpair]
  | case3 ts hshort =>
    cases h with
    | nil => rfl
    | cons _ hrest =>
      cases hrest with
      | nil => rfl
      | cons _ _ => exact absurd rfl (hshort _ _ _)

theorem units_corresponds (h : CodeCorresponds r ts us) :
    units us = (units ts).respell r.text := by
  induction ts using units.induct generalizing us with
  | case1 =>
    rw [List.forall₂_nil_left_iff.mp h.words, units]
    rfl
  | case2 t ts hend =>
    obtain ⟨u, us, htu, hrest, rfl⟩ := List.forall₂_cons_left_iff.mp h.words
    rw [units, if_pos (by rwa [htu.isSymbol]), units, if_pos hend]
    rfl
  | case3 t ts hend hstop =>
    obtain ⟨u, us, htu, hrest, rfl⟩ := List.forall₂_cons_left_iff.mp h.words
    rw [units, if_neg (by rwa [htu.isSymbol]), if_pos (by rwa [htu.isKeywordThat]), units,
      if_neg hend, if_pos hstop]
    rfl
  | case4 t ts hend hstop hname n passed =>
    rename_i ih
    obtain ⟨u, us, htu, hrest, rfl⟩ := List.forall₂_cons_left_iff.mp h.words
    have hn : dottedRest us = n := dottedRest_corresponds hrest
    have hpassed : (if (us.drop n).head?.any (Token.isWord · "in") then n + 2 else n) = passed := by
      rw [head?_any_corresponds (List.forall₂_drop n hrest) fun h => h.isWord _]
      rfl
    have htext : Token.render (u :: us.take n) = r.text (Token.render (t :: ts.take n)) :=
      h.render_take (n + 1)
    have hread : units (u :: us) = ⟨Token.render (u :: us.take n) ::
        (units (us.drop passed)).texts, 1 + passed + (units (us.drop passed)).length⟩ := by
      rw [units, if_neg (by rwa [htu.isSymbol]), if_neg (by rwa [htu.isKeywordThat]),
        if_pos (by rwa [htu.isName])]
      simp only [hn, hpassed]
    rw [hread, ih (h.tail.drop passed), htext, units, if_neg hend, if_neg hstop, if_pos hname]
    rfl
  | case5 t ts hend hstop hname ih =>
    obtain ⟨u, us, htu, hrest, rfl⟩ := List.forall₂_cons_left_iff.mp h.words
    rw [units, if_neg (by rwa [htu.isSymbol]), if_neg (by rwa [htu.isKeywordThat]),
      if_neg (by rwa [htu.isName]), ih h.tail, units, if_neg hend, if_neg hstop, if_neg hname]
    rfl

theorem packing_corresponds (h : WordsCorrespond r ts us) : packing us = packing ts := by
  apply length_takeWhile_corresponds h
  intro t u htu
  rw [htu.isKeyword, htu.isWord]

theorem angleAfter_corresponds {t u : Token} (h : t.Corresponds r u) (angle : Nat) :
    angleAfter angle u = angleAfter angle t := by
  simp only [angleAfter, h.isSymbol]

/-- The ancestors that two readers find belong together one by one, if the
    parts of the current ancestor that they have read are equally long and go
    on alike. -/
theorem basesFrom_corresponds (angle : Nat) (current current' : List Token)
    (hlength : current'.length = current.length)
    (h : CodeCorresponds r (current.reverse ++ ts) (current'.reverse ++ us)) :
    List.Forall₂ (CodeCorresponds r) (basesFrom angle current ts).1
        (basesFrom angle current' us).1 ∧
      (basesFrom angle current' us).2 = (basesFrom angle current ts).2 := by
  have hcurrent : CodeCorresponds r current.reverse current'.reverse := by
    have htake := h.take current.length
    rwa [List.take_left' (by simp), List.take_left' (by simp [hlength])] at htake
  have hahead : CodeCorresponds r ts us := by
    have hdrop := h.drop current.length
    rwa [List.drop_left' (by simp), List.drop_left' (by simp [hlength])] at hdrop
  induction ts generalizing angle current current' us with
  | nil =>
    rw [List.forall₂_nil_left_iff.mp hahead.words]
    exact ⟨.cons hcurrent .nil, rfl⟩
  | cons t ts ih =>
    obtain ⟨u, us, htu, hrest, rfl⟩ := List.forall₂_cons_left_iff.mp hahead.words
    simp only [basesFrom, Extent.endsHeader_corresponds htu, htu.isSymbol,
      angleAfter_corresponds htu]
    split
    · exact ⟨.cons hcurrent .nil, rfl⟩
    · split
      · exact ⟨.cons hcurrent .nil, rfl⟩
      · split
        · obtain ⟨hothers, hn⟩ := ih 0 [] [] rfl hahead.tail .nil hahead.tail
          exact ⟨.cons hcurrent hothers, congrArg (· + 1) hn⟩
        · have hgrown :
              CodeCorresponds r ((t :: current).reverse ++ ts) ((u :: current').reverse ++ us) := by
            simpa using h
          have hread : CodeCorresponds r (t :: current).reverse (u :: current').reverse := by
            have htake := hgrown.take (current.length + 1)
            rwa [List.take_left' (by simp), List.take_left' (by simp [hlength])] at htake
          obtain ⟨hall, hn⟩ := ih (angleAfter angle t) (t :: current) (u :: current')
            (congrArg Nat.succ hlength) hgrown hread hahead.tail
          exact ⟨hall, congrArg (· + 1) hn⟩

theorem bases_corresponds (h : CodeCorresponds r ts us) :
    bases us = (bases ts).respell r.text := by
  cases h.words with
  | nil => rfl
  | @cons t u ts us htu _ =>
    obtain ⟨hfound, hn⟩ := basesFrom_corresponds 0 [] [] rfl h.tail
    -- An ancestor is empty on both sides or on none.
    have hfilter (texts : List String) :
        (texts.map r.text).filter (· ≠ "") = (texts.filter (· ≠ "")).map r.text := by
      simp [List.filter_map, Function.comp_def]
    simp only [bases, htu.isSymbol, map_render_corresponds hfound, hn, hfilter]
    split <;> rfl

theorem helped_corresponds (h : CodeCorresponds r ts us) :
    helped us = (helped ts).respell r.text := by
  cases h.words with
  | nil => rfl
  | @cons t u ts us htu _ =>
    simp only [helped, htu.isWord, Extent.qualifiedName_corresponds h.tail]
    split
    · exact congrArg (fun text => Names.mk [text] _) (h.tail.render_take _)
    · rfl

theorem modifiers_corresponds (h : CodeCorresponds r ts us) :
    modifiers us = (modifiers ts).respell r.text := by
  induction ts using modifiers.induct generalizing us with
  | case1 =>
    rw [List.forall₂_nil_left_iff.mp h.words, modifiers]
    rfl
  | case2 t ts hfield =>
    obtain ⟨u, us, htu, hrest, rfl⟩ := List.forall₂_cons_left_iff.mp h.words
    have hfollows := head?_any_corresponds hrest fun h => h.isSymbolIn [":", ","]
    rw [modifiers, if_pos (by rwa [hfollows]), modifiers, if_pos hfield]
    rfl
  | case3 t ts hfield hword ih =>
    obtain ⟨u, us, htu, hrest, rfl⟩ := List.forall₂_cons_left_iff.mp h.words
    have hfollows := head?_any_corresponds hrest fun h => h.isSymbolIn [":", ","]
    rw [modifiers, if_neg (by rwa [hfollows]), if_pos (by rwa [htu.isWordIn]), ih h.tail, htu.text,
      r.lowered_text, modifiers, if_neg hfield, if_pos hword]
    simp [Modifiers.respell, r.text_lowered]
  | case4 t ts hfield hword hhelper ancestors subject n =>
    rename_i ih
    obtain ⟨u, us, htu, hrest, rfl⟩ := List.forall₂_cons_left_iff.mp h.words
    have hfollows := head?_any_corresponds hrest fun h => h.isSymbolIn [":", ","]
    have hancestors : bases us = ancestors.respell r.text := bases_corresponds h.tail
    have hsubject : helped (us.drop ancestors.length) = subject.respell r.text :=
      helped_corresponds (h.tail.drop ancestors.length)
    have hothers : modifiers (us.drop (ancestors.length + subject.length))
        = (modifiers (ts.drop n)).respell r.text := ih (h.tail.drop n)
    have hhelperText : r.text "helper" = "helper" := r.text_of_lowered_eq rfl
    rw [modifiers, if_neg (by rwa [hfollows]), if_neg (by rwa [htu.isWordIn]),
      if_pos (by rwa [htu.isWord]), modifiers, if_neg hfield, if_neg hword, if_pos hhelper]
    simp only [hancestors, Names.respell] at hsubject ⊢
    simp only [hsubject, hothers, Modifiers.respell, List.map_cons, List.map_append,
      hhelperText]
    rfl
  | case5 t ts hfield hword hhelper =>
    obtain ⟨u, us, htu, hrest, rfl⟩ := List.forall₂_cons_left_iff.mp h.words
    have hfollows := head?_any_corresponds hrest fun h => h.isSymbolIn [":", ","]
    rw [modifiers, if_neg (by rwa [hfollows]), if_neg (by rwa [htu.isWordIn]),
      if_neg (by rwa [htu.isWord]), modifiers, if_neg hfield, if_neg hword, if_neg hhelper]
    rfl

/-- The names declared together belong together. -/
theorem declaredNames_corresponds (h : WordsCorrespond r ts us) :
    WordsCorrespond r (declaredNames ts).1 (declaredNames us).1 ∧
      (declaredNames us).2 = (declaredNames ts).2 := by
  induction ts using declaredNames.induct generalizing us with
  | case1 =>
    rw [List.forall₂_nil_left_iff.mp h]
    exact ⟨.nil, rfl⟩
  | case2 t hname =>
    obtain ⟨u, us, htu, hrest, rfl⟩ := List.forall₂_cons_left_iff.mp h
    rw [List.forall₂_nil_left_iff.mp hrest]
    simp only [declaredNames, hname, htu.isName]
    exact ⟨.cons htu .nil, rfl⟩
  | case3 t hname =>
    obtain ⟨u, us, htu, hrest, rfl⟩ := List.forall₂_cons_left_iff.mp h
    rw [List.forall₂_nil_left_iff.mp hrest]
    simp only [declaredNames, hname, htu.isName]
    exact ⟨.nil, rfl⟩
  | case4 t s ts hname hcomma others n hread ih =>
    obtain ⟨u, us, htu, hrest, rfl⟩ := List.forall₂_cons_left_iff.mp h
    obtain ⟨v, us, hsv, hothers, rfl⟩ := List.forall₂_cons_left_iff.mp hrest
    obtain ⟨hnames, hn⟩ := ih hothers
    simp only [declaredNames, hname, htu.isName, hcomma, hsv.isSymbol, if_true]
    exact ⟨.cons htu hnames, congrArg (2 + ·) hn⟩
  | case5 t s ts hname hcomma =>
    obtain ⟨u, us, htu, hrest, rfl⟩ := List.forall₂_cons_left_iff.mp h
    obtain ⟨v, us, hsv, hothers, rfl⟩ := List.forall₂_cons_left_iff.mp hrest
    simp only [declaredNames, hname, htu.isName, hcomma, hsv.isSymbol, if_true]
    exact ⟨.cons htu .nil, rfl⟩
  | case6 t s ts hname =>
    obtain ⟨u, us, htu, hrest, rfl⟩ := List.forall₂_cons_left_iff.mp h
    obtain ⟨v, us, hsv, hothers, rfl⟩ := List.forall₂_cons_left_iff.mp hrest
    simp only [declaredNames, hname, htu.isName]
    exact ⟨.nil, rfl⟩

theorem statementRest_corresponds (h : WordsCorrespond r ts us) :
    statementRest us = statementRest ts := by
  induction h with
  | nil => rfl
  | cons htu _ ih => simp only [statementRest, htu.isSymbol, htu.isKeywordThat, ih]

end Clause

end PascalOutline
