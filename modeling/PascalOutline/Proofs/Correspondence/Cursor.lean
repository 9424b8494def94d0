import PascalOutline.Proofs.Correspondence.Token
import PascalOutline.Proofs.Text.Case

/-! # Cursors of two readings

  Two cursors correspond when what lies ahead of them does and they stand at
  places that belong together. Of what lies behind them only the end of the
  last token matters. Every move keeps cursors corresponding, every look
  ahead answers the same for both, and the headers and lists that they read
  are the same, respelled.
-/

namespace PascalOutline

open Token

namespace Cursor

/-- Two cursors stand at places that belong together, before tokens that
    correspond. -/
structure Corresponds (r : Correspondence) (c d : Cursor) : Prop where
  /-- The tokens ahead correspond. -/
  code : CodeCorresponds r c.ahead d.ahead
  /-- The last tokens that were passed end at places that belong together. -/
  prevStop : r.place c.prevStop d.prevStop
  /-- The ends of both texts belong together. -/
  eof : r.place c.eof d.eof
  /-- Where documentation is compared, equally many lexemes were passed. -/
  indexAfterPrev : r.docs → d.indexAfterPrev = c.indexAfterPrev
  /-- Where documentation is compared, both texts have equally many lexemes. -/
  lexemeCount : r.docs → d.lexemeCount = c.lexemeCount

namespace Corresponds

variable {r : Correspondence} {c d e f : Cursor}

theorem words (h : c.Corresponds r d) : WordsCorrespond r c.ahead d.ahead :=
  h.code.words

theorem left_eq (h : c.Corresponds r d) : d.left = c.left := by
  rw [c.left_eq, d.left_eq, h.words.length_eq]

theorem ahead_cons (h : c.Corresponds r d) {t : Token} {ts : List Token}
    (hahead : c.ahead = t :: ts) : ∃ u us, t.Corresponds r u ∧ d.ahead = u :: us := by
  have hwords := h.words
  rw [hahead] at hwords
  obtain ⟨u, us, htu, _, hahead'⟩ := List.forall₂_cons_left_iff.mp hwords
  exact ⟨u, us, htu, hahead'⟩

theorem ahead_nil (h : c.Corresponds r d) (hahead : c.ahead = []) : d.ahead = [] := by
  have hwords := h.words
  rw [hahead] at hwords
  exact List.forall₂_nil_left_iff.mp hwords

theorem atEnd (h : c.Corresponds r d) : d.atEnd = c.atEnd := by
  have hlength := h.words.length_eq
  cases hc : c.ahead <;> cases hd : d.ahead <;> simp_all [Cursor.atEnd]

/-! ### Looking -/

/-- The tokens at a distance correspond, or both lists have ended. -/
theorem nth? (h : c.Corresponds r d) (n : Nat) :
    Option.Rel (Token.Corresponds r) (c.nth? n) (d.nth? n) := by
  rw [Cursor.nth?, Cursor.nth?, ← List.head?_drop, ← List.head?_drop]
  have hdrop := List.forall₂_drop n h.words
  generalize c.ahead.drop n = ts at hdrop ⊢
  generalize d.ahead.drop n = us at hdrop ⊢
  cases hdrop with
  | nil => exact .none
  | cons htu _ => exact .some htu

theorem nthText (h : c.Corresponds r d) (n : Nat) : d.nthText n = r.text (c.nthText n) := by
  have hnth := h.nth? n
  rw [Cursor.nthText, Cursor.nthText]
  generalize c.nth? n = t at hnth ⊢
  generalize d.nth? n = u at hnth ⊢
  cases hnth with
  | none => exact r.text_empty.symm
  | some htu => exact htu.text

theorem text (h : c.Corresponds r d) : d.text = r.text c.text :=
  h.nthText 0

theorem nthKeyword? (h : c.Corresponds r d) (n : Nat) : d.nthKeyword? n = c.nthKeyword? n := by
  have hnth := h.nth? n
  rw [Cursor.nthKeyword?, Cursor.nthKeyword?]
  generalize c.nth? n = t at hnth ⊢
  generalize d.nth? n = u at hnth ⊢
  cases hnth with
  | none => rfl
  | some htu => exact htu.keyword?

theorem keyword? (h : c.Corresponds r d) : d.keyword? = c.keyword? :=
  h.nthKeyword? 0

theorem atKeyword (h : c.Corresponds r d) (kw : Keyword) : d.atKeyword kw = c.atKeyword kw := by
  rw [Cursor.atKeyword, Cursor.atKeyword, h.keyword?]

theorem nthIsSymbol (h : c.Corresponds r d) (n : Nat) (symbol : String) :
    d.nthIsSymbol n symbol = c.nthIsSymbol n symbol :=
  getElem?_any_corresponds h.words (fun htu => htu.isSymbol symbol) n

theorem nthIsSymbolIn (h : c.Corresponds r d) (n : Nat) (symbols : List String) :
    d.nthIsSymbolIn n symbols = c.nthIsSymbolIn n symbols :=
  getElem?_any_corresponds h.words (fun htu => htu.isSymbolIn symbols) n

theorem atSymbol (h : c.Corresponds r d) (symbol : String) :
    d.atSymbol symbol = c.atSymbol symbol :=
  h.nthIsSymbol 0 symbol

theorem nthIsIdent (h : c.Corresponds r d) (n : Nat) : d.nthIsIdent n = c.nthIsIdent n :=
  getElem?_any_corresponds h.words Token.Corresponds.isIdent n

theorem nthIsName (h : c.Corresponds r d) (n : Nat) : d.nthIsName n = c.nthIsName n :=
  getElem?_any_corresponds h.words Token.Corresponds.isName n

theorem atName (h : c.Corresponds r d) : d.atName = c.atName :=
  h.nthIsName 0

theorem atWord (h : c.Corresponds r d) (word : String) : d.atWord word = c.atWord word :=
  getElem?_any_corresponds h.words (fun htu => htu.isWord word) 0

/-! ### Locations -/

theorem location (h : c.Corresponds r d) : r.place c.location d.location := by
  have hpeek := h.nth? 0
  have heof := h.eof
  unfold Cursor.location Cursor.peek?
  generalize c.nth? 0 = t at hpeek ⊢
  generalize d.nth? 0 = u at hpeek ⊢
  cases hpeek with
  | none => exact heof
  | some htu => exact htu.start

theorem lexemeIndex (h : c.Corresponds r d) (hdocs : r.docs) : d.lexemeIndex = c.lexemeIndex := by
  have hpeek := h.nth? 0
  have hcount := h.lexemeCount hdocs
  unfold Cursor.lexemeIndex Cursor.peek?
  generalize c.nth? 0 = t at hpeek ⊢
  generalize d.nth? 0 = u at hpeek ⊢
  cases hpeek with
  | none => exact hcount
  | some htu => exact htu.index hdocs

/-! ### Moving -/

theorem advance (h : c.Corresponds r d) {m n : Nat} (hnm : n = m) :
    (c.advance m).Corresponds r (d.advance n) := by
  subst hnm
  -- The last token that was passed is the last of the tokens in between, or
  -- the one that was passed before.
  have hpassed := List.forall₂_reverse_iff.mpr (List.forall₂_take n h.words)
  have hprevStop : r.place (c.advance n).prevStop (d.advance n).prevStop := by
    have hstop := h.prevStop
    unfold Cursor.prevStop Cursor.prev? Cursor.advance at *
    generalize (c.ahead.take n).reverse = ts at hpassed ⊢
    generalize (d.ahead.take n).reverse = us at hpassed ⊢
    cases hpassed with
    | nil => exact hstop
    | cons htu _ => exact htu.stop
  have hindex : r.docs → (d.advance n).indexAfterPrev = (c.advance n).indexAfterPrev := by
    intro hdocs
    have hindex := h.indexAfterPrev hdocs
    unfold Cursor.indexAfterPrev Cursor.prev? Cursor.advance at *
    generalize (c.ahead.take n).reverse = ts at hpassed ⊢
    generalize (d.ahead.take n).reverse = us at hpassed ⊢
    cases hpassed with
    | nil => exact hindex
    | cons htu _ => exact congrArg (· + 1) (htu.index hdocs)
  exact ⟨h.code.drop n, hprevStop, h.eof, hindex, h.lexemeCount⟩

theorem next (h : c.Corresponds r d) : c.next.Corresponds r d.next :=
  h.advance rfl

theorem nextIf (h : c.Corresponds r d) {p q : Bool} (hqp : q = p) :
    (c.nextIf p).Corresponds r (d.nextIf q) := by
  subst hqp
  cases q with
  | true => exact h.next
  | false => exact h

theorem passSymbol (h : c.Corresponds r d) (symbol : String) :
    (c.passSymbol symbol).Corresponds r (d.passSymbol symbol) :=
  h.nextIf (h.atSymbol symbol)

theorem passKeyword (h : c.Corresponds r d) (kw : Keyword) :
    (c.passKeyword kw).Corresponds r (d.passKeyword kw) :=
  h.nextIf (h.atKeyword kw)

theorem passWord (h : c.Corresponds r d) (word : String) :
    (c.passWord word).Corresponds r (d.passWord word) :=
  h.nextIf (h.atWord word)

theorem passGroup (h : c.Corresponds r d) (opening closing : String) :
    (c.passGroup opening closing).Corresponds r (d.passGroup opening closing) := by
  rw [Cursor.passGroup, Cursor.passGroup, h.atSymbol]
  split
  · exact h.advance (Extent.group_corresponds h.words opening closing)
  · exact h

theorem passTypeExpr (h : c.Corresponds r d) (stops : List String) :
    (c.passTypeExpr stops).Corresponds r (d.passTypeExpr stops) :=
  h.advance (Extent.typeExpr_corresponds h.words stops)

theorem passHeaderRest (h : c.Corresponds r d) :
    c.passHeaderRest.Corresponds r d.passHeaderRest :=
  h.advance (Extent.headerRest_corresponds h.words)

/-! ### Copying -/

theorem textUpTo (h : c.Corresponds r d) (hlater : e.Corresponds r f) :
    d.textUpTo f = r.text (c.textUpTo e) := by
  rw [Cursor.textUpTo, Cursor.textUpTo, Cursor.upTo, Cursor.upTo, h.left_eq, hlater.left_eq]
  exact h.code.render_take _

theorem typeExpr (h : c.Corresponds r d) (stops : List String) :
    (d.typeExpr stops).1 = r.text (c.typeExpr stops).1 ∧
      (c.typeExpr stops).2.Corresponds r (d.typeExpr stops).2 :=
  ⟨h.textUpTo (h.passTypeExpr stops), h.passTypeExpr stops⟩

theorem typeExprAfter (h : c.Corresponds r d) (marks stops : List String) :
    (d.typeExprAfter marks stops).1 = r.text (c.typeExprAfter marks stops).1 ∧
      (c.typeExprAfter marks stops).2.Corresponds r (d.typeExprAfter marks stops).2 := by
  rw [Cursor.typeExprAfter, Cursor.typeExprAfter, h.nthIsSymbolIn]
  split
  · exact h.next.typeExpr stops
  · exact ⟨r.text_empty.symm, h⟩

theorem directives (h : c.Corresponds r d) :
    d.directives.1 = c.directives.1.map r.text ∧
      c.directives.2.Corresponds r d.directives.2 := by
  rw [Cursor.directives, Cursor.directives, Extent.directives_corresponds h.code]
  exact ⟨rfl, h.advance rfl⟩

theorem accessors (h : c.Corresponds r d) :
    d.accessors.1 = c.accessors.1.map r.text ∧ c.accessors.2.Corresponds r d.accessors.2 := by
  rw [Cursor.accessors, Cursor.accessors, Extent.accessors_corresponds h.code]
  exact ⟨rfl, h.advance rfl⟩

end Corresponds

end Cursor

/-! ### Headers -/

namespace Header

/-- Two headers are the same, respelled, at places that belong together. -/
structure Corresponds (r : Correspondence) (h h' : Header) : Prop where
  /-- They declare the same kind of entry. -/
  kind : h'.kind = h.kind
  /-- They declare something. -/
  declares : h.kind ≠ .other
  /-- They have the same name. -/
  name : h'.name = r.text h.name
  /-- They have the same owner. -/
  qualifier : h'.qualifier = h.qualifier.map r.text
  /-- They have the same text. -/
  signature : h'.signature = r.text h.signature
  /-- They have the same parameters. -/
  args : h'.args = r.text h.args
  /-- They have the same type. -/
  typeText : h'.typeText = r.text h.typeText
  /-- They have the same specifiers. -/
  specifiers : h'.specifiers = h.specifiers.map r.text
  /-- They begin at places that belong together. -/
  start : r.place h.start h'.start
  /-- They end at places that belong together. -/
  stop : r.place h.stop h'.stop
  /-- Their names are expected at places that belong together. -/
  nameAt : r.place h.nameAt h'.nameAt

/-- What two readers of headers found corresponds, and so do the cursors after
    it. -/
def ReadsCorrespond (r : Correspondence) (found found' : Option (Header × Cursor)) : Prop :=
  Option.Rel (fun p q => p.1.Corresponds r q.1 ∧ p.2.Corresponds r q.2) found found'

/-- Where one reader found a header, the other one found one too. -/
theorem ReadsCorrespond.exists_of_some {r : Correspondence} {found : Option (Header × Cursor)}
    {q : Header × Cursor} (h : ReadsCorrespond r found (some q)) :
    ∃ p, found = some p ∧ p.1.Corresponds r q.1 := by
  cases h with
  | some hpq => exact ⟨_, rfl, hpq.1⟩

variable {r : Correspondence} {c d : Cursor}

theorem isForwardSpecifier_lowered (specifier : String) :
    isForwardSpecifier (lowered specifier) = isForwardSpecifier specifier := by
  have hsame (word : String) :
      sameWord (String.ofList (firstWord (lowered specifier).toList)) word
        = sameWord (String.ofList (firstWord specifier.toList)) word := by
    rw [Bool.eq_iff_iff, sameWord_iff, sameWord_iff, toList_lowered, firstWord_map_toLower]
    rw [show String.ofList ((firstWord specifier.toList).map Char.toLower)
      = lowered (String.ofList (firstWord specifier.toList)) by simp [lowered], lowered_lowered]
  simp only [isForwardSpecifier, isOneOf, funext hsame]

theorem isForwardSpecifier_text (specifier : String) :
    isForwardSpecifier (r.text specifier) = isForwardSpecifier specifier := by
  rw [← isForwardSpecifier_lowered, r.lowered_text, isForwardSpecifier_lowered]

theorem Corresponds.isForward {h h' : Header} (hh : h.Corresponds r h') :
    h'.isForward = h.isForward := by
  simp [Header.isForward, hh.specifiers, List.any_map, Function.comp_def, isForwardSpecifier_text]

theorem ne_other_of_routineKind? {kw : Keyword} {kind : EntryKind}
    (h : routineKind? kw = some kind) : kind ≠ .other := by
  rintro rfl
  cases kw <;> cases h

theorem classSpecifier_corresponds (h : c.Corresponds r d) :
    classSpecifier d = (classSpecifier c).map r.text := by
  have hclass : r.text "class" = "class" := r.text_of_lowered_eq rfl
  rw [classSpecifier, classSpecifier, h.atKeyword]
  split
  · simp [hclass]
  · rfl

theorem routineName_corresponds (h : c.Corresponds r d) (kind : EntryKind) :
    routineName kind d.ahead = (routineName kind c.ahead).respell r.text := by
  rw [routineName, routineName, Extent.operatorName_corresponds h.words,
    Extent.qualifiedName_corresponds h.code]
  split <;> rfl

theorem namesResult_corresponds (h : c.Corresponds r d) (kind : EntryKind) :
    namesResult kind d = namesResult kind c := by
  rw [namesResult, namesResult, h.nthIsIdent, h.nthIsSymbol]

theorem routine?_corresponds (h : c.Corresponds r d) :
    ReadsCorrespond r (routine? c) (routine? d) := by
  have hintroduced := h.passKeyword .class_
  simp only [ReadsCorrespond, routine?, hintroduced.keyword?]
  cases hkind : (c.passKeyword .class_).keyword?.bind routineKind? with
  | none => exact .none
  | some kind =>
    obtain ⟨kw, _, hroutine⟩ := Option.bind_eq_some_iff.mp hkind
    have hatName := hintroduced.next
    have hname := routineName_corresponds hatName kind
    have hlength : (routineName kind (d.passKeyword .class_).next.ahead).length
        = (routineName kind (c.passKeyword .class_).next.ahead).length := by
      rw [hname, Extent.QualifiedName.length_respell]
    have hatArgs := hatName.advance hlength
    have hafterArgs := hatArgs.passGroup "(" ")"
    have hafterResult := hafterArgs.nextIf (namesResult_corresponds hafterArgs kind)
    have htype := hafterResult.typeExprAfter [":"] []
    have hterminator := htype.2.passHeaderRest
    have hdone := (hterminator.passSymbol ";").directives
    refine .some ⟨?_, hdone.2⟩
    exact {
      kind := rfl
      declares := ne_other_of_routineKind? hroutine
      name := congrArg Extent.QualifiedName.name hname
      qualifier := congrArg Extent.QualifiedName.qualifier hname
      signature := h.textUpTo hterminator
      args := hatArgs.textUpTo hafterArgs
      typeText := htype.1
      specifiers := by
        dsimp only
        rw [hdone.1, classSpecifier_corresponds h, List.map_append]
      start := h.location
      stop := hdone.2.prevStop
      nameAt := hatName.location }

theorem property?_corresponds (h : c.Corresponds r d) :
    ReadsCorrespond r (property? c) (property? d) := by
  have hintroduced := h.passKeyword .class_
  simp only [ReadsCorrespond, property?, hintroduced.atKeyword]
  split
  · have hatName := hintroduced.next
    have hatArgs := hatName.nextIf hatName.atName
    have hafterArgs := hatArgs.passGroup "[" "]"
    have htype := hafterArgs.typeExprAfter [":"] Extent.accessorWords
    have haccessors := htype.2.accessors
    have hterminator := haccessors.2.passHeaderRest
    have hended := hterminator.passSymbol ";"
    have hmarks := Extent.defaultMarks_corresponds hended.words
    have hdone := (hended.advance (congrArg (2 * ·) hmarks)).directives
    have hdefault : r.text "default" = "default" := r.text_of_lowered_eq rfl
    refine .some ⟨?_, hdone.2⟩
    exact {
      kind := rfl
      declares := nofun
      name := hatName.textUpTo hatArgs
      qualifier := rfl
      signature := h.textUpTo hterminator
      args := hatArgs.textUpTo hafterArgs
      typeText := htype.1
      specifiers := by
        dsimp only
        rw [hdone.1, hmarks, haccessors.1, classSpecifier_corresponds h, List.map_append,
          List.map_append, List.map_append, List.map_replicate, hdefault]
      start := h.location
      stop := hdone.2.prevStop
      nameAt := hatName.location }
  · exact .none

end Header

/-! ### Values of an enumeration -/

namespace Clause

/-- Two values of an enumeration are the same, respelled. -/
structure EnumValue.Corresponds (r : Correspondence) (v w : EnumValue) : Prop where
  /-- They begin at places that belong together. -/
  before : v.before.Corresponds r w.before
  /-- They end at places that belong together. -/
  after : v.after.Corresponds r w.after
  /-- They have the same name. -/
  name : w.name = r.text v.name
  /-- They have the same text. -/
  signature : w.signature = r.text v.signature
  /-- They are given the same number. -/
  initializer : w.initializer = r.text v.initializer

theorem enumValues_of_ahead_nil {c : Cursor} (h : c.ahead = []) : enumValues c = ([], c) := by
  rw [enumValues]
  split
  · rfl
  · simp_all

theorem enumValues_of_ahead_cons {c : Cursor} {t : Token} {ts : List Token}
    (h : c.ahead = t :: ts) :
    enumValues c =
      if t.isSymbol ")" then ([], c.next)
      else if Extent.endsHeader t then ([], c)
      else if t.isIdent then
        let value := c.next.typeExprAfter ["=", ":="] [","]
        let after := value.2.passSymbol ","
        let others := enumValues after
        (⟨c, after, t.text, c.textUpTo value.2, value.1⟩ :: others.1, others.2)
      else enumValues c.next := by
  rw [enumValues]
  split
  · simp_all
  · obtain ⟨rfl, rfl⟩ := List.cons.inj (h.symm.trans ‹_›)
    rfl

theorem enumValues_corresponds {r : Correspondence} {c d : Cursor} (h : c.Corresponds r d) :
    List.Forall₂ (EnumValue.Corresponds r) (enumValues c).1 (enumValues d).1 ∧
      (enumValues c).2.Corresponds r (enumValues d).2 := by
  -- Both readers take the same branch at every token, so the induction on the
  -- reader of `c` carries the reader of `d` along.
  induction c using enumValues.induct generalizing d with
  | case1 c hnil =>
    rw [enumValues_of_ahead_nil hnil, enumValues_of_ahead_nil (h.ahead_nil hnil)]
    exact ⟨.nil, h⟩
  | case2 c t ts hahead hclose =>
    obtain ⟨u, us, htu, hahead'⟩ := h.ahead_cons hahead
    rw [enumValues_of_ahead_cons hahead, enumValues_of_ahead_cons hahead', htu.isSymbol,
      if_pos hclose, if_pos hclose]
    exact ⟨.nil, h.next⟩
  | case3 c t ts hahead hclose hend =>
    obtain ⟨u, us, htu, hahead'⟩ := h.ahead_cons hahead
    rw [enumValues_of_ahead_cons hahead, enumValues_of_ahead_cons hahead', htu.isSymbol,
      Extent.endsHeader_corresponds htu, if_neg hclose, if_pos hend, if_neg hclose, if_pos hend]
    exact ⟨.nil, h⟩
  | case4 c t ts hahead hclose hend hident value after =>
    rename_i ih
    obtain ⟨u, us, htu, hahead'⟩ := h.ahead_cons hahead
    have hvalue := h.next.typeExprAfter ["=", ":="] [","]
    have hafter := hvalue.2.passSymbol ","
    obtain ⟨hothers, hend'⟩ := ih hafter
    rw [enumValues_of_ahead_cons hahead, enumValues_of_ahead_cons hahead', htu.isSymbol,
      Extent.endsHeader_corresponds htu, htu.isIdent, if_neg hclose, if_neg hend, if_pos hident,
      if_neg hclose, if_neg hend, if_pos hident]
    exact ⟨.cons ⟨h, hafter, htu.text, h.textUpTo hvalue.2, hvalue.1⟩ hothers, hend'⟩
  | case5 c t ts hahead hclose hend hident ih =>
    obtain ⟨u, us, htu, hahead'⟩ := h.ahead_cons hahead
    rw [enumValues_of_ahead_cons hahead, enumValues_of_ahead_cons hahead', htu.isSymbol,
      Extent.endsHeader_corresponds htu, htu.isIdent, if_neg hclose, if_neg hend, if_neg hident,
      if_neg hclose, if_neg hend, if_neg hident]
    exact ih h.next

end Clause

end PascalOutline
