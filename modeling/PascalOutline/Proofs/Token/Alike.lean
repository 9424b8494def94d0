import PascalOutline.Proofs.Correspondence.Token

/-! # Tokens that read alike

  A reader of tokens looks at their words and, where it copies text, at the
  gaps between them. It never looks at their places. Two lists of tokens have
  the *same words* when they agree in kind and text, and are the *same code*
  when they also agree in whether trivia stands between two neighbours. The
  gap before the first token is left open: no text begins with it.

  Two lists that are the same code correspond, with every text as it is and
  any two places belonging together. So what is said of readings that
  correspond is said of them.
-/

namespace PascalOutline

/-- Two readings of the same code, of which neither the places nor the
    documentation are compared. -/
def Correspondence.sameCode : Correspondence where
  text a := a
  place _ _ := True
  docs := False
  text_append _ _ := rfl
  text_lowered _ := rfl
  lowered_text _ := rfl
  place_start := trivial
  place_nowhere := trivial
  place_max _ _ := trivial
  line_eq h := h.elim

namespace Token

open Correspondence (sameCode)

/-- Two tokens are the same word, wherever they stand. -/
structure Alike (t u : Token) : Prop where
  /-- They are of the same kind. -/
  kind : t.lexeme.kind = u.lexeme.kind
  /-- They have the same text. -/
  text : t.text = u.text

instance (t u : Token) : Decidable (t.Alike u) :=
  decidable_of_iff (t.lexeme.kind = u.lexeme.kind ∧ t.text = u.text)
    ⟨fun h => ⟨h.1, h.2⟩, fun h => ⟨h.kind, h.text⟩⟩

theorem Alike.refl (t : Token) : t.Alike t :=
  ⟨rfl, rfl⟩

theorem Alike.corresponds {t u : Token} (h : t.Alike u) : t.Corresponds sameCode u :=
  ⟨h.kind.symm, h.text.symm, fun _ => h.text.symm, trivial, trivial, fun h => h.elim⟩

theorem Alike.of_corresponds {t u : Token} (h : t.Corresponds sameCode u) : t.Alike u :=
  ⟨h.kind.symm, h.text.symm⟩

/-- Two lists of tokens have the same words in the same order. -/
abbrev SameWords (ts us : List Token) : Prop :=
  List.Forall₂ Alike ts us

/-- Two lists of tokens are the same code: they have the same words, and trivia
    between the same neighbours. -/
structure SameCode (ts us : List Token) : Prop where
  /-- The words are the same. -/
  words : SameWords ts us
  /-- The gaps are the same, the one before the first token aside. -/
  gaps : ts.tail.map Token.spaced = us.tail.map Token.spaced

instance (ts us : List Token) : Decidable (SameCode ts us) :=
  decidable_of_iff (SameWords ts us ∧ ts.tail.map Token.spaced = us.tail.map Token.spaced)
    ⟨fun h => ⟨h.1, h.2⟩, fun h => ⟨h.words, h.gaps⟩⟩

variable {ts us : List Token}

/-- What is the same of tokens that are the same word is the same of lists that
    have the same words. -/
theorem SameWords.map_eq (h : SameWords ts us) {β : Type} {f : Token → β}
    (hf : ∀ {t u : Token}, t.Alike u → f t = f u) : ts.map f = us.map f := by
  induction h with
  | nil => rfl
  | cons htu _ ih => rw [List.map_cons, List.map_cons, hf htu, ih]

namespace SameCode

theorem refl (ts : List Token) : SameCode ts ts :=
  ⟨List.forall₂_same.mpr fun t _ => .refl t, rfl⟩

theorem corresponds (h : SameCode ts us) : CodeCorresponds sameCode ts us :=
  ⟨h.words.imp fun _ _ htu => htu.corresponds, h.gaps.symm⟩

theorem of_corresponds (h : CodeCorresponds sameCode ts us) : SameCode ts us :=
  ⟨h.words.imp fun _ _ htu => .of_corresponds htu, h.gaps.symm⟩

/-- The same code is copied as the same text. -/
theorem render (h : SameCode ts us) : Token.render ts = Token.render us :=
  h.corresponds.render.symm

end SameCode

end Token

end PascalOutline
