import PascalOutline.Proofs.Token.Spares

/-! # Where a header without its end stops

  A header is read from its introducing keyword up to its semicolon, and then
  its directives. When the semicolon is missing, or a bracket is left open,
  the code after the header must not be taken for a part of it:
  `header_spares_code` says which tokens of a header can be one of the four
  keywords that begin code.

  There are three places, all of them next to the name of a routine. An
  operator may be named by any word, and so may its result where the type
  follows. Type parameters are passed up to their closing bracket without
  regard to `initialization` and `finalization`. Nothing else in a routine
  header takes one of the keywords, and nothing at all in the header of a
  property.
-/

namespace PascalOutline

open Extent (Spares InTypeParameters isUnguarded)

namespace Cursor

/-! ### Cursors that pass no code -/

/-- A cursor gets to another one without passing a keyword that begins code. -/
def SparesTo (c d : Cursor) : Prop :=
  ∃ n, d = c.advance n ∧ Spares c.ahead n

variable {c d e : Cursor}

theorem SparesTo.refl (c : Cursor) : c.SparesTo c :=
  ⟨0, c.advance_zero.symm, Extent.spares_zero _⟩

theorem SparesTo.trans (hcd : c.SparesTo d) (hde : d.SparesTo e) : c.SparesTo e := by
  obtain ⟨m, rfl, hm⟩ := hcd
  obtain ⟨n, rfl, hn⟩ := hde
  exact ⟨m + n, c.advance_advance m n, hm.add hn⟩

theorem SparesTo.advance (h : c.SparesTo d) {n : Nat} (hn : Spares d.ahead n) :
    c.SparesTo (d.advance n) :=
  h.trans ⟨n, rfl, hn⟩

theorem SparesTo.nextIf (h : c.SparesTo d) {condition : Bool}
    (hn : condition = true → Spares d.ahead 1) : c.SparesTo (d.nextIf condition) := by
  unfold Cursor.nextIf
  split
  next hcondition => exact h.advance (hn hcondition)
  next => exact h

theorem spares_of_nth? {t : Token} (ht : c.nth? 0 = some t) (hcode : t.beginsCode = false) :
    Spares c.ahead 1 := by
  obtain ⟨ts, hts⟩ := peek?_eq_some_iff.mp ht
  rw [hts]
  exact .cons (n := 0) hcode (Extent.spares_zero ts)

theorem SparesTo.passSymbol (h : c.SparesTo d) (symbol : String) :
    c.SparesTo (d.passSymbol symbol) := by
  refine h.nextIf fun hat => ?_
  obtain ⟨t, ht, hsymbol⟩ := (Option.any_eq_true _ _).mp hat
  exact spares_of_nth? ht (Token.beginsCode_of_isSymbol hsymbol)

theorem SparesTo.nextIf_atName (h : c.SparesTo d) : c.SparesTo (d.nextIf d.atName) := by
  refine h.nextIf fun hat => ?_
  obtain ⟨t, ht, hname⟩ := (Option.any_eq_true _ _).mp hat
  exact spares_of_nth? ht (Token.beginsCode_of_isName hname)

theorem SparesTo.passGroup (h : c.SparesTo d) (opening closing : String) :
    c.SparesTo (d.passGroup opening closing) := by
  unfold Cursor.passGroup
  split
  · exact h.advance (Extent.spares_groupFrom _ _ _ _)
  · exact h

theorem SparesTo.typeExprAfter (h : c.SparesTo d) (mark : String) (stops : List String) :
    c.SparesTo (d.typeExprAfter [mark] stops).2 := by
  unfold Cursor.typeExprAfter
  split
  next hat =>
    obtain ⟨t, ht, hsymbol⟩ := (Option.any_eq_true _ _).mp hat
    have hmark : t.isSymbol mark = true := by simpa [Token.isSymbolIn] using hsymbol
    have hnext : Spares d.ahead 1 := spares_of_nth? ht (Token.beginsCode_of_isSymbol hmark)
    exact (h.advance hnext).advance (Extent.spares_typeExprFrom _ _ _ _)
  next => exact h

theorem SparesTo.passHeaderRest (h : c.SparesTo d) : c.SparesTo d.passHeaderRest :=
  h.advance (Extent.spares_headerRest _)

/-! ### Cursors in a spelled source -/

/-- The tokens of a cursor are spelled like the keywords that they are. -/
def Spelled (c : Cursor) : Prop :=
  ∀ t ∈ c.tokens, t.Spelled

theorem Spelled.advance (h : c.Spelled) (n : Nat) : (c.advance n).Spelled := by
  intro t ht
  rw [tokens_advance] at ht
  exact h t ht

theorem Spelled.of_sparesTo (h : c.Spelled) (hcd : c.SparesTo d) : d.Spelled := by
  obtain ⟨n, rfl, _⟩ := hcd
  exact h.advance n

theorem Spelled.nextIf (h : c.Spelled) (condition : Bool) : (c.nextIf condition).Spelled := by
  unfold Cursor.nextIf
  split
  · exact h.advance 1
  · exact h

theorem Spelled.ahead (h : c.Spelled) : ∀ t ∈ c.ahead, t.Spelled :=
  fun t ht => h t (List.mem_append_right _ ht)

theorem SparesTo.directives (h : c.SparesTo d) (hspelled : c.Spelled) :
    c.SparesTo d.directives.2 :=
  h.advance (Extent.spares_directives (hspelled.of_sparesTo h).ahead)

theorem SparesTo.accessors (h : c.SparesTo d) (hspelled : c.Spelled) :
    c.SparesTo d.accessors.2 :=
  h.advance (Extent.spares_accessors (hspelled.of_sparesTo h).ahead)

theorem tokens_seek (c : Cursor) (n : Nat) : (c.seek n).tokens = c.tokens := by
  show ((c.tokens.take n).reverse).reverse ++ c.tokens.drop n = c.tokens
  rw [List.reverse_reverse, List.take_append_drop]

theorem spelled_seek (nested : Bool) (source : String) (n : Nat) :
    ((ofLexemes (Lexer.lex nested source)).seek n).Spelled := by
  intro t ht
  rw [tokens_seek] at ht
  exact spelled_of_mem_tokens ht

/-! ### Numbers of passed tokens -/

theorem getElem?_upTo_advance {n i : Nat} {t : Token}
    (h : (c.upTo (c.advance n))[i]? = some t) : i < n ∧ c.ahead[i]? = some t := by
  have hcount : c.left - (c.advance n).left ≤ n := by
    rw [left_advance]
    omega
  rw [upTo, List.getElem?_take] at h
  split at h
  next hi => exact ⟨by omega, h⟩
  next => cases h

end Cursor

namespace Header

open Cursor (SparesTo)

/-! ### The places that take any word -/

/-- The number of tokens of the name and the parameters that a routine of a
    kind begins with. -/
def namedLength (kind : EntryKind) (ts : List Token) : Nat :=
  let n := (routineName kind ts).length
  if (ts.drop n).head?.any (Token.isSymbol · "(") then n + Extent.group "(" ")" (ts.drop n) else n

/-- Where a header of a kind takes a keyword that begins code: `ts` are the
    tokens after its introducing keyword, and the token with number `i` is
    such a keyword. -/
inductive TakesCode (kind : EntryKind) (ts : List Token) (i : Nat) (t : Token) : Prop where
  /-- It is the name of an operator. -/
  | operatorName (operator : kind = .operator) (first : i = 0)
  /-- It is the name of the result of an operator, before the colon. -/
  | resultName (operator : kind = .operator) (place : i = namedLength .operator ts)
      (colon : ts[i + 1]?.any (Token.isSymbol · ":") = true)
  /-- It is `initialization` or `finalization` and stands among the type
      parameters in the name of a routine. -/
  | typeParameter (routine : kind ≠ .operator ∧ kind ≠ .property)
      (unguarded : isUnguarded t = true)
      (inName : i < (Extent.qualifiedName ts).length) (inside : InTypeParameters ts i)

theorem length_operatorName_le (ts : List Token) : (Extent.operatorName ts).length ≤ 1 := by
  unfold Extent.operatorName
  split
  · exact Nat.zero_le 1
  · dsimp only
    split
    · exact Nat.le_refl 1
    · exact Nat.zero_le 1

/-- A keyword in the name of a routine stands at one of those places. -/
theorem takesCode_of_routineName {kind : EntryKind} (hkind : kind ≠ .property) {ts : List Token}
    {i : Nat} (hi : i < (routineName kind ts).length) {t : Token} (ht : ts[i]? = some t)
    (hcode : t.beginsCode = true) : TakesCode kind ts i t := by
  unfold routineName at hi
  split at hi
  next hoperator =>
    have hle := length_operatorName_le ts
    exact .operatorName hoperator (by omega)
  next hroutine =>
    obtain ⟨hinside, hunguarded⟩ := Extent.inTypeParameters_of_qualifiedName hi ht hcode
    exact .typeParameter ⟨hroutine, hkind⟩ hunguarded hi hinside

theorem passGroup_advance_eq (kind : EntryKind) (c : Cursor) :
    (c.advance (routineName kind c.ahead).length).passGroup "(" ")"
      = c.advance (namedLength kind c.ahead) := by
  have hat : (c.advance (routineName kind c.ahead).length).atSymbol "("
      = (c.ahead.drop (routineName kind c.ahead).length).head?.any (Token.isSymbol · "(") := by
    rw [Cursor.atSymbol, Cursor.nthIsSymbol, Cursor.nth?, Cursor.ahead_advance,
      List.head?_eq_getElem?]
  unfold Cursor.passGroup namedLength
  rw [hat]
  dsimp only
  split
  · rw [Cursor.ahead_advance, Cursor.advance_advance]
  · rfl

/-- A keyword in the name and the parameters of a routine stands in the name. -/
theorem takesCode_of_namedLength {kind : EntryKind} (hkind : kind ≠ .property) {ts : List Token}
    {i : Nat} (hi : i < namedLength kind ts) {t : Token} (ht : ts[i]? = some t)
    (hcode : t.beginsCode = true) : TakesCode kind ts i t := by
  by_cases hname : i < (routineName kind ts).length
  · exact takesCode_of_routineName hkind hname ht hcode
  · -- The group of the parameters spares the keywords.
    unfold namedLength at hi
    dsimp only at hi
    split at hi
    next =>
      have hspares := Extent.spares_groupFrom "(" ")" 0 (ts.drop (routineName kind ts).length)
      have hle := hspares.add_le_of_getElem? (by omega) ht hcode
      unfold Extent.group at hi
      omega
    next => omega

/-! ### Routines -/

/-- The type, the terminator and the directives of a routine spare code. -/
theorem sparesTo_routineRest {c : Cursor} (h : c.Spelled) :
    c.SparesTo ((c.typeExprAfter [":"] []).2.passHeaderRest.passSymbol ";").directives.2 :=
  ((((SparesTo.refl c).typeExprAfter ":" []).passHeaderRest).passSymbol ";").directives h

/-- The tokens of a routine header from its name on: the name and the
    parameters, the name of the result if it has one, and a rest that spares
    code. -/
theorem exists_advance_of_routine? {c d : Cursor} {h : Header} (hspelled : c.Spelled)
    (hread : routine? c = some (h, d)) :
    ∃ named, named = (c.passKeyword .class_).next.advance
        (namedLength h.kind (c.passKeyword .class_).next.ahead) ∧
      h.kind ≠ .property ∧ (named.nextIf (namesResult h.kind named)).SparesTo d := by
  simp only [routine?, Option.bind_eq_bind, Option.bind_eq_some_iff] at hread
  obtain ⟨kind, ⟨kw, _, hkind⟩, hread⟩ := hread
  obtain ⟨rfl, rfl⟩ := Prod.mk.inj (Option.some.inj hread)
  refine ⟨_, rfl, ?_, ?_⟩
  · show kind ≠ .property
    rintro rfl
    cases kw <;> simp [routineKind?] at hkind
  · dsimp only
    rw [passGroup_advance_eq]
    have hnamed := (((hspelled.nextIf (c.atKeyword .class_)).advance 1).advance
      (namedLength kind (c.passKeyword .class_).next.ahead))
    exact sparesTo_routineRest (hnamed.nextIf _)

theorem takesCode_of_routine? {c d : Cursor} {h : Header} (hspelled : c.Spelled)
    (hread : routine? c = some (h, d)) {i : Nat} {t : Token}
    (ht : ((c.passKeyword .class_).next.upTo d)[i]? = some t) (hcode : t.beginsCode = true) :
    TakesCode h.kind (c.passKeyword .class_).next.ahead i t := by
  obtain ⟨named, hnamed, hkind, m, rfl, hrest⟩ := exists_advance_of_routine? hspelled hread
  generalize (c.passKeyword .class_).next = start at *
  subst hnamed
  by_cases hresult : namesResult h.kind (start.advance (namedLength h.kind start.ahead)) = true
  · -- The name of the result is one more token before the rest.
    rw [hresult] at ht hrest
    unfold Cursor.nextIf Cursor.next at ht hrest
    simp only [if_true, Cursor.advance_advance] at ht hrest
    obtain ⟨hi, ht⟩ := Cursor.getElem?_upTo_advance ht
    simp only [namesResult, Bool.and_eq_true, decide_eq_true_eq] at hresult
    obtain ⟨⟨hoperator, _⟩, hcolon⟩ := hresult
    rw [hoperator] at hi hrest hcolon hkind ⊢
    rcases Nat.lt_trichotomy i (namedLength .operator start.ahead) with hlt | heq | hgt
    · exact takesCode_of_namedLength hkind hlt ht hcode
    · refine .resultName rfl heq ?_
      rw [Cursor.nthIsSymbol, Cursor.nth?, Cursor.ahead_advance, List.getElem?_drop] at hcolon
      rw [heq]
      exact hcolon
    · have hle := hrest.add_le_of_getElem? hgt ht hcode
      omega
  · rw [Bool.not_eq_true] at hresult
    rw [hresult] at ht hrest
    simp only [Cursor.nextIf, Bool.false_eq_true, if_false, Cursor.advance_advance] at ht hrest
    obtain ⟨hi, ht⟩ := Cursor.getElem?_upTo_advance ht
    by_cases hlt : i < namedLength h.kind start.ahead
    · exact takesCode_of_namedLength hkind hlt ht hcode
    · have hle := hrest.add_le_of_getElem? (Nat.le_of_not_lt hlt) ht hcode
      omega

/-! ### Properties -/

/-- A property header spares code from its name on. -/
theorem sparesTo_of_property? {c d : Cursor} {h : Header} (hspelled : c.Spelled)
    (hread : property? c = some (h, d)) : (c.passKeyword .class_).next.SparesTo d := by
  simp only [property?] at hread
  split at hread
  next =>
    obtain ⟨rfl, rfl⟩ := Prod.mk.inj (Option.some.inj hread)
    have hstart : (c.passKeyword .class_).next.Spelled := (hspelled.nextIf _).advance 1
    have hterminator := ((((((SparesTo.refl (c.passKeyword .class_).next).nextIf_atName).passGroup
      "[" "]").typeExprAfter ":" Extent.accessorWords).accessors hstart).passHeaderRest).passSymbol
        ";"
    have hmarks := Extent.spares_defaultMarks (hstart.of_sparesTo hterminator).ahead
    exact (hterminator.advance hmarks).directives hstart
  next => cases hread

/-! ### Every header -/

/-- From every place of every source: a keyword that begins code and is taken
    by a routine or property header names an operator or its result, or stands
    unguarded among type parameters. -/
theorem header_spares_code {nested : Bool} {source : String} {n : Nat} {c d : Cursor} {h : Header}
    (at_place : c = (Cursor.ofLexemes (Lexer.lex nested source)).seek n)
    (read : routine? c = some (h, d) ∨ property? c = some (h, d)) {i : Nat} {t : Token}
    (taken : ((c.passKeyword .class_).next.upTo d)[i]? = some t) (code : t.beginsCode = true) :
    routine? c = some (h, d) ∧ TakesCode h.kind (c.passKeyword .class_).next.ahead i t := by
  have hspelled : c.Spelled := by
    rw [at_place]
    exact Cursor.spelled_seek nested source n
  rcases read with hroutine | hproperty
  · exact ⟨hroutine, takesCode_of_routine? hspelled hroutine taken code⟩
  · obtain ⟨m, rfl, hspares⟩ := sparesTo_of_property? hspelled hproperty
    obtain ⟨hi, ht⟩ := Cursor.getElem?_upTo_advance taken
    have hle := hspares.add_le_of_getElem? (m := 0) (Nat.zero_le i) ht code
    omega

/-- Type parameters without their bracket: the header of the procedure goes on
    over `initialization` to its semicolon. -/
theorem header_spares_code_type_parameters :
    let source := "procedure A< initialization X;"
    let c := (Cursor.ofLexemes (Lexer.lex false source)).seek 0
    let h : Header :=
      { kind := .procedure, name := "A", qualifier := none
        signature := "procedure A< initialization X", args := "", typeText := "", specifiers := []
        start := .start, stop := ⟨1, 31, 30⟩, nameAt := ⟨1, 11, 10⟩ }
    let t : Token :=
      ⟨⟨.ident (some .initialization) false, "initialization", ⟨1, 14, 13⟩, ⟨1, 28, 27⟩⟩, 5, true⟩
    routine? c = some (h, c.advance 6) ∧
      ((c.passKeyword .class_).next.upTo (c.advance 6))[2]? = some t ∧ t.beginsCode = true ∧
      TakesCode .procedure (c.passKeyword .class_).next.ahead 2 t := by
  intro source c h t
  obtain ⟨hread, htaken⟩ : routine? c = some (h, c.advance 6) ∧
      ((c.passKeyword .class_).next.upTo (c.advance 6))[2]? = some t := by
    decide +kernel
  exact ⟨hread, htaken, rfl, (header_spares_code rfl (.inl hread) htaken rfl).2⟩

/-- A routine header may pass a keyword that begins code. -/
theorem not_forall_header_spares_code :
    ¬ ∀ (nested : Bool) (source : String) (n : Nat) (c d : Cursor) (h : Header),
      c = (Cursor.ofLexemes (Lexer.lex nested source)).seek n →
      routine? c = some (h, d) ∨ property? c = some (h, d) →
      ∀ t ∈ (c.passKeyword .class_).next.upTo d, t.beginsCode = false := by
  intro hall
  let c := (Cursor.ofLexemes (Lexer.lex false "procedure A< initialization X;")).seek 0
  have hpassed : (routine? c).any (fun found =>
      ((c.passKeyword .class_).next.upTo found.2).any Token.beginsCode) = true := by
    decide +kernel
  obtain ⟨⟨h, d⟩, hread, hany⟩ := (Option.any_eq_true _ _).mp hpassed
  obtain ⟨t, ht, hcode⟩ := List.any_eq_true.mp hany
  rw [hall false _ 0 c d h rfl (.inl hread) t ht] at hcode
  cases hcode

end Header

end PascalOutline
