import PascalOutline.Proofs.Correspondence.Cursor
import PascalOutline.Proofs.Cursor.Index
import PascalOutline.Proofs.Token.Lookahead

/-! # Two sources that begin alike

  A *fork* is two sources whose first lexemes are the same: its stem, and two
  branches. A cursor of one source and a cursor of the other *share* the stem
  when they stand at the same place in it and two of its tokens are still
  ahead. As long as a reader leaves two tokens of the stem, it finds the same
  on both sides (`Shares`). Where a reader goes further than that, nothing is
  said: a cursor *shadows* another one when the two share the stem unless the
  first one is past it. What shadows goes on shadowing, whatever is read.
-/

namespace PascalOutline

/-- Two sources that begin with the same lexemes. -/
structure Fork where
  /-- The lexemes that both begin with. -/
  stem : List Lexeme
  /-- How the first source goes on. -/
  left : List Lexeme
  /-- How the second source goes on. -/
  right : List Lexeme

namespace Fork

/-- The lexemes of the first source. -/
def leftLexemes (f : Fork) : List Lexeme :=
  f.stem ++ f.left

/-- The lexemes of the second source. -/
def rightLexemes (f : Fork) : List Lexeme :=
  f.stem ++ f.right

/-- The number of tokens that both sources begin with. -/
def size (f : Fork) : Nat :=
  (Token.ofLexemes f.stem).length

theorem ofLexemesFrom_append (index : Nat) (spaced : Bool) (ls ms : List Lexeme) :
    ∃ ts, Token.ofLexemesFrom index spaced (ls ++ ms)
      = Token.ofLexemesFrom index spaced ls ++ ts := by
  induction ls generalizing index spaced with
  | nil => exact ⟨_, rfl⟩
  | cons l ls ih =>
    rw [List.cons_append, Token.ofLexemesFrom, Token.ofLexemesFrom]
    split_ifs
    · exact ih (index + 1) true
    · obtain ⟨ts, hts⟩ := ih (index + 1) false
      exact ⟨ts, by rw [hts]; rfl⟩

/-- The tokens of either source begin with those of the stem. -/
theorem exists_tokens_eq (f : Fork) (branch : List Lexeme) :
    ∃ ts, Token.ofLexemes (f.stem ++ branch) = Token.ofLexemes f.stem ++ ts :=
  ofLexemesFrom_append 0 false f.stem branch

theorem sameFirst (f : Fork) : Token.SameFirst f.size (Token.ofLexemes f.leftLexemes)
    (Token.ofLexemes f.rightLexemes) := by
  obtain ⟨ts, hts⟩ := f.exists_tokens_eq f.left
  obtain ⟨us, hus⟩ := f.exists_tokens_eq f.right
  rw [leftLexemes, rightLexemes, hts, hus]
  show List.take f.size _ = List.take f.size _
  rw [size, List.take_left, List.take_left]

theorem size_le (f : Fork) (branch : List Lexeme) :
    f.size ≤ (Token.ofLexemes (f.stem ++ branch)).length := by
  obtain ⟨ts, hts⟩ := f.exists_tokens_eq branch
  rw [hts, List.length_append]
  exact Nat.le_add_right _ _

/-- The tokens of the stem stand among its lexemes. -/
theorem index_lt (f : Fork) {k : Nat} (hk : k < f.size) {t : Token}
    (ht : (Token.ofLexemes f.leftLexemes)[k]? = some t) : t.index < f.stem.length := by
  obtain ⟨ts, hts⟩ := f.exists_tokens_eq f.left
  rw [leftLexemes, hts, List.getElem?_append_left hk] at ht
  have hindex := (index_of_mem_ofLexemesFrom (List.mem_of_getElem? ht)).2
  omega

end Fork

namespace Cursor

/-- A cursor stands before the last two of some tokens. -/
def Before (n : Nat) (c : Cursor) : Prop :=
  c.pos + 2 ≤ n

theorem Reaches.before {c d : Cursor} {n : Nat} (h : c.Reaches d) (hd : d.Before n) :
    c.Before n :=
  Nat.le_trans (Nat.add_le_add_right h.pos_le 2) hd

/-- Two cursors stand at the same place in the stem of a fork, before the last
    two of its tokens. -/
structure Shares (f : Fork) (c d : Cursor) : Prop where
  /-- One cursor is in the first source. -/
  left : c.tokens = Token.ofLexemes f.leftLexemes
  /-- The other cursor is in the second source. -/
  right : d.tokens = Token.ofLexemes f.rightLexemes
  /-- They passed the same number of tokens. -/
  pos : d.pos = c.pos
  /-- Two tokens of the stem are ahead. -/
  before : c.Before f.size

/-- Two cursors share the stem of a fork until the first one is past it. -/
def Shadows (f : Fork) (c d : Cursor) : Prop :=
  c.Before f.size → Shares f c d

theorem past_eq (c : Cursor) : c.past = (c.tokens.take c.pos).reverse := by
  rw [tokens, List.take_left' (by rw [List.length_reverse]; rfl), List.reverse_reverse]

theorem ahead_eq (c : Cursor) : c.ahead = c.tokens.drop c.pos := by
  rw [tokens, List.drop_left' (by rw [List.length_reverse]; rfl)]

theorem length_tokens (c : Cursor) : c.tokens.length = c.pos + c.ahead.length := by
  rw [tokens, List.length_append, List.length_reverse]
  rfl

variable {f : Fork} {c d c' d' : Cursor}

namespace Shares

theorem shadows (h : Shares f c d) : Shadows f c d :=
  fun _ => h

/-- The two cursors have the same tokens behind them. -/
theorem past (h : Shares f c d) : d.past = c.past := by
  have hbefore : c.pos + 2 ≤ f.size := h.before
  rw [c.past_eq, d.past_eq, h.left, h.right, h.pos,
    (f.sameFirst.take (show c.pos ≤ f.size by omega))]

/-- What is left of the stem lies ahead of both. -/
theorem ahead (h : Shares f c d) : Token.SameFirst (f.size - c.pos) c.ahead d.ahead := by
  rw [c.ahead_eq, d.ahead_eq, h.left, h.right, h.pos]
  exact f.sameFirst.drop c.pos

theorem size_le_left (h : Shares f c d) : f.size ≤ c.pos + c.ahead.length := by
  rw [← c.length_tokens, h.left]
  exact f.size_le f.left

theorem size_le_right (h : Shares f c d) : f.size ≤ c.pos + d.ahead.length := by
  rw [← h.pos, ← d.length_tokens, h.right]
  exact f.size_le f.right

/-! ### Looking -/

theorem nth? (h : Shares f c d) {k : Nat} (hk : c.pos + k < f.size) : d.nth? k = c.nth? k :=
  h.ahead.getElem? (by omega)

/-- Two tokens ahead are the same. -/
theorem nth?_of_lt_two (h : Shares f c d) {k : Nat} (hk : k < 2) : d.nth? k = c.nth? k := by
  have hbefore : c.pos + 2 ≤ f.size := h.before
  exact h.nth? (by omega)

theorem peek? (h : Shares f c d) : d.peek? = c.peek? :=
  h.nth?_of_lt_two Nat.zero_lt_two

/-- A token of the stem comes next. -/
theorem exists_peek? (h : Shares f c d) : ∃ t, c.peek? = some t ∧ t.index < f.stem.length := by
  have hbefore : c.pos + 2 ≤ f.size := h.before
  have hle := h.size_le_left
  have hlt : 0 < c.ahead.length := by omega
  refine ⟨c.ahead[0], List.getElem?_eq_getElem hlt, f.index_lt (k := c.pos) (by omega) ?_⟩
  rw [← h.left, tokens, List.getElem?_append_right (by rw [List.length_reverse]; rfl),
    List.length_reverse]
  show c.ahead[c.pos - c.pos]? = _
  rw [Nat.sub_self, List.getElem?_eq_getElem hlt]

theorem exists_ahead_eq (h : Shares f c d) {t : Token} {ts : List Token}
    (hahead : c.ahead = t :: ts) : ∃ us, d.ahead = t :: us := by
  have hnext : d.peek? = some t := by
    rw [h.peek?, Cursor.peek?, Cursor.nth?, hahead]
    rfl
  exact peek?_eq_some_iff.mp hnext

theorem prev? (h : Shares f c d) : d.prev? = c.prev? := by
  rw [Cursor.prev?, Cursor.prev?, h.past]

theorem text (h : Shares f c d) : d.text = c.text := by
  rw [Cursor.text, Cursor.text, nthText, nthText, h.nth?_of_lt_two Nat.zero_lt_two]

theorem nthKeyword? (h : Shares f c d) {k : Nat} (hk : k < 2) :
    d.nthKeyword? k = c.nthKeyword? k := by
  rw [Cursor.nthKeyword?, Cursor.nthKeyword?, h.nth?_of_lt_two hk]

theorem keyword? (h : Shares f c d) : d.keyword? = c.keyword? :=
  h.nthKeyword? Nat.zero_lt_two

theorem atKeyword (h : Shares f c d) (kw : Keyword) : d.atKeyword kw = c.atKeyword kw := by
  rw [Cursor.atKeyword, Cursor.atKeyword, h.keyword?]

theorem nthIsSymbol (h : Shares f c d) {k : Nat} (hk : k < 2) (symbol : String) :
    d.nthIsSymbol k symbol = c.nthIsSymbol k symbol := by
  rw [Cursor.nthIsSymbol, Cursor.nthIsSymbol, h.nth?_of_lt_two hk]

theorem nthIsSymbolIn (h : Shares f c d) {k : Nat} (hk : k < 2) (symbols : List String) :
    d.nthIsSymbolIn k symbols = c.nthIsSymbolIn k symbols := by
  rw [Cursor.nthIsSymbolIn, Cursor.nthIsSymbolIn, h.nth?_of_lt_two hk]

theorem atSymbol (h : Shares f c d) (symbol : String) : d.atSymbol symbol = c.atSymbol symbol :=
  h.nthIsSymbol Nat.zero_lt_two symbol

theorem nthIsIdent (h : Shares f c d) : d.nthIsIdent 0 = c.nthIsIdent 0 := by
  rw [Cursor.nthIsIdent, Cursor.nthIsIdent, h.nth?_of_lt_two Nat.zero_lt_two]

theorem nthIsName (h : Shares f c d) {k : Nat} (hk : k < 2) : d.nthIsName k = c.nthIsName k := by
  rw [Cursor.nthIsName, Cursor.nthIsName, h.nth?_of_lt_two hk]

theorem atName (h : Shares f c d) : d.atName = c.atName :=
  h.nthIsName Nat.zero_lt_two

theorem atWord (h : Shares f c d) (word : String) : d.atWord word = c.atWord word := by
  rw [Cursor.atWord, Cursor.atWord, nthIsWord, nthIsWord, h.nth?_of_lt_two Nat.zero_lt_two]

theorem atEnd (h : Shares f c d) : c.atEnd = false ∧ d.atEnd = false := by
  obtain ⟨t, ht, _⟩ := h.exists_peek?
  have ht' : d.peek? = some t := h.peek?.trans ht
  rw [Cursor.atEnd, Cursor.atEnd, List.isEmpty_eq_false_iff, List.isEmpty_eq_false_iff]
  exact ⟨ahead_of_nth? ht, ahead_of_nth? ht'⟩

/-! ### Locations -/

theorem location (h : Shares f c d) : d.location = c.location := by
  obtain ⟨t, ht, _⟩ := h.exists_peek?
  rw [Cursor.location, Cursor.location, h.peek?, ht]
  rfl

theorem prevStop (h : Shares f c d) : d.prevStop = c.prevStop := by
  rw [Cursor.prevStop, Cursor.prevStop, h.prev?]

/-- The two tokens ahead end at the same place. -/
theorem prevStop_advance_two (h : Shares f c d) :
    (d.advance 2).prevStop = (c.advance 2).prevStop := by
  have hbefore : c.pos + 2 ≤ f.size := h.before
  have hpast : (d.advance 2).past = (c.advance 2).past := by
    show (d.ahead.take 2).reverse ++ d.past = (c.ahead.take 2).reverse ++ c.past
    rw [h.past, h.ahead.take (by omega)]
  rw [Cursor.prevStop, Cursor.prevStop, Cursor.prev?, Cursor.prev?, hpast]

theorem lexemeIndex (h : Shares f c d) :
    d.lexemeIndex = c.lexemeIndex ∧ c.lexemeIndex < f.stem.length := by
  obtain ⟨t, ht, hlt⟩ := h.exists_peek?
  rw [Cursor.lexemeIndex, Cursor.lexemeIndex, h.peek?, ht]
  exact ⟨rfl, hlt⟩

theorem indexAfterPrev (h : Shares f c d) :
    d.indexAfterPrev = c.indexAfterPrev ∧ c.indexAfterPrev ≤ f.stem.length := by
  rw [Cursor.indexAfterPrev, Cursor.indexAfterPrev, h.prev?]
  refine ⟨rfl, ?_⟩
  cases hprev : c.prev? with
  | none => exact Nat.zero_le _
  | some t =>
    have hbefore : c.pos + 2 ≤ f.size := h.before
    obtain ⟨others, hpast⟩ := List.head?_eq_some_iff.mp hprev
    have hpos : c.pos = others.length + 1 := by
      rw [Cursor.pos, hpast]
      rfl
    refine f.index_lt (k := others.length) (by omega) ?_
    rw [← h.left, tokens, hpast, List.reverse_cons, List.append_assoc,
      List.getElem?_append_right (by rw [List.length_reverse]), List.length_reverse, Nat.sub_self]
    rfl

/-! ### Texts -/

/-- The text between two places. -/
theorem textUpTo (h : Shares f c d) (h' : Shares f c' d') (hc : c.Reaches c') :
    d.textUpTo d' = c.textUpTo c' := by
  have hpos := hc.pos_le
  have hbefore : c'.pos + 2 ≤ f.size := h'.before
  have hleft : ∀ c : Cursor, c.left + c.pos = c.tokens.length := by
    intro c
    rw [c.left_eq, c.length_tokens, Nat.add_comm]
  have hlefts : c.left - c'.left = c'.pos - c.pos ∧ d.left - d'.left = c'.pos - c.pos := by
    have hcount := hleft c
    have hcount' := hleft c'
    have hother := hleft d
    have hother' := hleft d'
    rw [h.left, ← h'.left] at hcount
    rw [h.right, ← h'.right] at hother
    have hp := h.pos
    have hp' := h'.pos
    omega
  rw [Cursor.textUpTo, Cursor.textUpTo, upTo, upTo, hlefts.1, hlefts.2,
    h.ahead.take (show c'.pos - c.pos ≤ f.size - c.pos by omega)]

/-! ### Moving -/

theorem advance (h : Shares f c d) {k : Nat} (hk : (c.advance k).Before f.size) :
    c.pos + k + 2 ≤ f.size ∧ Shares f (c.advance k) (d.advance k) := by
  have hleft := h.size_le_left
  have hright := h.size_le_right
  have hroom : c.pos + min k c.ahead.length + 2 ≤ f.size := by
    rw [← pos_advance]
    exact hk
  refine ⟨by omega, (c.tokens_advance k).trans h.left, (d.tokens_advance k).trans h.right, ?_, hk⟩
  rw [pos_advance, pos_advance, h.pos]
  omega

end Shares

namespace Shadows

/-- Moving on is enough to shadow, unless both cursors share the stem. -/
theorem of_shares (h : Shadows f c d) (hc : c.Reaches c')
    (hshares : Shares f c d → c'.Before f.size → Shares f c' d') : Shadows f c' d' :=
  fun hbefore => hshares (h (hc.before hbefore)) hbefore

/-- A reader that looks at most two tokens past those that it passes. -/
theorem reads (h : Shadows f c d) {α : Type} {g : List Token → α} {length : α → Nat}
    (hg : LooksPast 2 g length) :
    Shadows f (c.advance (length (g c.ahead))) (d.advance (length (g d.ahead))) := by
  refine h.of_shares (c.reaches_advance _) fun hs hbefore => ?_
  obtain ⟨hroom, hadvance⟩ := hs.advance hbefore
  rwa [hg hs.ahead (by omega)]

theorem advance (h : Shadows f c d) (k : Nat) : Shadows f (c.advance k) (d.advance k) :=
  h.of_shares (c.reaches_advance k) fun hs hbefore => (hs.advance hbefore).2

theorem next (h : Shadows f c d) : Shadows f c.next d.next :=
  h.advance 1

theorem nextIf (h : Shadows f c d) {p q : Bool} (hpq : Shares f c d → q = p) :
    Shadows f (c.nextIf p) (d.nextIf q) := by
  refine h.of_shares ((Reaches.refl c).nextIf p) fun hs hbefore => ?_
  rw [hpq hs]
  unfold Cursor.nextIf at hbefore ⊢
  split_ifs at hbefore ⊢
  · exact hs.shadows.next hbefore
  · exact hs

theorem passSymbol (h : Shadows f c d) (symbol : String) :
    Shadows f (c.passSymbol symbol) (d.passSymbol symbol) :=
  h.nextIf fun hs => hs.atSymbol symbol

theorem passKeyword (h : Shadows f c d) (kw : Keyword) :
    Shadows f (c.passKeyword kw) (d.passKeyword kw) :=
  h.nextIf fun hs => hs.atKeyword kw

theorem passWord (h : Shadows f c d) (word : String) :
    Shadows f (c.passWord word) (d.passWord word) :=
  h.nextIf fun hs => hs.atWord word

theorem passGroup (h : Shadows f c d) (opening closing : String) :
    Shadows f (c.passGroup opening closing) (d.passGroup opening closing) := by
  refine h.of_shares ((Reaches.refl c).passGroup opening closing) fun hs hbefore => ?_
  unfold Cursor.passGroup at hbefore ⊢
  rw [hs.atSymbol]
  split_ifs at hbefore ⊢
  · exact hs.shadows.reads
      ((Extent.looksPast_groupFrom opening closing 0).mono (Nat.le_succ 1)) hbefore
  · exact hs

theorem passTypeExpr (h : Shadows f c d) (stops : List String) :
    Shadows f (c.passTypeExpr stops) (d.passTypeExpr stops) :=
  h.reads ((Extent.looksPast_typeExpr stops).mono (Nat.le_succ 1))

theorem passHeaderRest (h : Shadows f c d) : Shadows f c.passHeaderRest d.passHeaderRest :=
  h.reads (g := Extent.headerRest) (Extent.looksPast_headerRest.mono (Nat.le_succ 1))

theorem typeExprAfter (h : Shadows f c d) (marks stops : List String) :
    Shadows f (c.typeExprAfter marks stops).2 (d.typeExprAfter marks stops).2 := by
  refine h.of_shares ((Reaches.refl c).typeExprAfter marks stops) fun hs hbefore => ?_
  unfold Cursor.typeExprAfter at hbefore ⊢
  rw [hs.nthIsSymbolIn Nat.zero_lt_two]
  split_ifs at hbefore ⊢
  · exact hs.shadows.next.passTypeExpr stops hbefore
  · exact hs

theorem directives (h : Shadows f c d) : Shadows f c.directives.2 d.directives.2 :=
  h.reads Extent.looksPast_directives

theorem accessors (h : Shadows f c d) : Shadows f c.accessors.2 d.accessors.2 :=
  h.reads (Extent.looksPast_accessors.mono (Nat.le_succ 1))

end Shadows

namespace Shares

/-- What a reader finds that leaves two tokens of the stem. -/
theorem found (h : Shares f c d) {α : Type} {g : List Token → α} {length : α → Nat}
    (hg : LooksPast 2 g length) (hbefore : (c.advance (length (g c.ahead))).Before f.size) :
    g d.ahead = g c.ahead := by
  obtain ⟨hroom, _⟩ := h.advance hbefore
  exact hg h.ahead (by omega)

theorem typeExpr (h : Shares f c d) {stops : List String}
    (hbefore : (c.passTypeExpr stops).Before f.size) :
    (d.typeExpr stops).1 = (c.typeExpr stops).1 :=
  h.textUpTo (h.shadows.passTypeExpr stops hbefore) ((Reaches.refl c).passTypeExpr stops)

theorem typeExprAfter (h : Shares f c d) {marks stops : List String}
    (hbefore : (c.typeExprAfter marks stops).2.Before f.size) :
    (d.typeExprAfter marks stops).1 = (c.typeExprAfter marks stops).1 := by
  unfold Cursor.typeExprAfter at hbefore ⊢
  rw [h.nthIsSymbolIn Nat.zero_lt_two]
  split_ifs at hbefore ⊢
  · have hnext := h.shadows.next (((Reaches.refl c.next).passTypeExpr stops).before hbefore)
    exact hnext.typeExpr hbefore
  · rfl

theorem directives (h : Shares f c d) (hbefore : c.directives.2.Before f.size) :
    d.directives.1 = c.directives.1 :=
  congrArg Extent.Directives.texts (h.found Extent.looksPast_directives hbefore)

theorem accessors (h : Shares f c d) (hbefore : c.accessors.2.Before f.size) :
    d.accessors.1 = c.accessors.1 :=
  congrArg Extent.Directives.texts
    (h.found (Extent.looksPast_accessors.mono (Nat.le_succ 1)) hbefore)

/-- Whether a keyword stands here or after a word that is passed. -/
theorem keyword?_passKeyword (h : Shares f c d) (kw : Keyword) :
    (d.passKeyword kw).keyword? = (c.passKeyword kw).keyword? := by
  have hnext : ∀ c : Cursor, c.next.keyword? = c.nthKeyword? 1 := by
    intro c
    rw [Cursor.keyword?, Cursor.nthKeyword?, Cursor.nthKeyword?, Cursor.nth?, Cursor.nth?,
      Cursor.next, ahead_advance, List.getElem?_drop]
  unfold Cursor.passKeyword Cursor.nextIf
  rw [h.atKeyword]
  split_ifs
  · rw [hnext, hnext, h.nthKeyword? Nat.one_lt_two]
  · exact h.keyword?

end Shares

end Cursor

/-! ### Headers -/

namespace Header

open Cursor

variable {f : Fork} {c d : Cursor}

theorem looksPast_routineName (kind : EntryKind) :
    LooksPast 2 (routineName kind) Extent.QualifiedName.length := by
  unfold routineName
  split_ifs
  · exact Extent.looksPast_operatorName
  · exact Extent.looksPast_qualifiedName

theorem classSpecifier_of_shares (h : Shares f c d) : classSpecifier d = classSpecifier c := by
  rw [classSpecifier, classSpecifier, h.atKeyword]

theorem namesResult_of_shares (h : Shares f c d) (kind : EntryKind) :
    namesResult kind d = namesResult kind c := by
  rw [namesResult, namesResult, h.nthIsIdent, h.nthIsSymbol Nat.one_lt_two]

/-- Two readers found the same header, and its end is shared; or the first one
    went past the stem. -/
def SharedRead (f : Fork) (found found' : Option (Header × Cursor)) : Prop :=
  Option.Rel (fun p q => p.2.Before f.size → q.1 = p.1 ∧ Shares f p.2 q.2) found found'

theorem sharedRead_routine? (h : Shares f c d) : SharedRead f (routine? c) (routine? d) := by
  have hkeyword := h.keyword?_passKeyword .class_
  simp only [SharedRead, routine?, hkeyword]
  cases (c.passKeyword .class_).keyword?.bind routineKind? with
  | none => exact .none
  | some kind =>
    have hatName := (h.shadows.passKeyword .class_).next
    have hatArgs := hatName.reads (looksPast_routineName kind)
    have hafterArgs := hatArgs.passGroup "(" ")"
    have hafterResult := hafterArgs.nextIf fun hs => namesResult_of_shares hs kind
    have htype := hafterResult.typeExprAfter [":"] []
    have hterminator := htype.passHeaderRest
    have hended := hterminator.passSymbol ";"
    refine .some fun bdone => ⟨?_, hended.directives bdone⟩
    -- Every place in the header comes before its end, hence is shared too.
    have bended := (Reaches.refl _).directives.before bdone
    have bterminator := ((Reaches.refl _).passSymbol ";").before bended
    have btype := (Reaches.refl _).passHeaderRest.before bterminator
    have bafterResult := ((Reaches.refl _).typeExprAfter [":"] []).before btype
    have bafterArgs := ((Reaches.refl _).nextIf _).before bafterResult
    have batArgs := ((Reaches.refl _).passGroup "(" ")").before bafterArgs
    have batName := (reaches_advance _ _).before batArgs
    have hname := (hatName batName).found (looksPast_routineName kind) batArgs
    rw [(hended bended).directives bdone, (hafterResult bafterResult).typeExprAfter btype,
      (hatArgs batArgs).textUpTo (hafterArgs bafterArgs) ((Reaches.refl _).passGroup "(" ")"),
      h.textUpTo (hterminator bterminator) (((((((Reaches.refl c).passKeyword .class_).next.advance
        _).passGroup "(" ")").nextIf _).typeExprAfter [":"] []).passHeaderRest),
      classSpecifier_of_shares h, h.location, (hended.directives bdone).prevStop,
      (hatName batName).location, hname]

theorem sharedRead_property? (h : Shares f c d) : SharedRead f (property? c) (property? d) := by
  have hkeyword : (d.passKeyword .class_).atKeyword .property
      = (c.passKeyword .class_).atKeyword .property := by
    rw [Cursor.atKeyword, Cursor.atKeyword, h.keyword?_passKeyword]
  simp only [SharedRead, property?, hkeyword]
  split
  · have hatName := (h.shadows.passKeyword .class_).next
    have hatArgs := hatName.nextIf fun hs => hs.atName
    have hafterArgs := hatArgs.passGroup "[" "]"
    have htype := hafterArgs.typeExprAfter [":"] Extent.accessorWords
    have haccessors := htype.accessors
    have hterminator := haccessors.passHeaderRest
    have hended := hterminator.passSymbol ";"
    have hmarked := hended.reads Extent.looksPast_defaultMarks
    refine .some fun bdone => ⟨?_, hmarked.directives bdone⟩
    have bmarked := (Reaches.refl _).directives.before bdone
    have bended := (reaches_advance _ _).before bmarked
    have bterminator := ((Reaches.refl _).passSymbol ";").before bended
    have baccessors := (Reaches.refl _).passHeaderRest.before bterminator
    have btype := (Reaches.refl _).accessors.before baccessors
    have bafterArgs := ((Reaches.refl _).typeExprAfter [":"] Extent.accessorWords).before btype
    have batArgs := ((Reaches.refl _).passGroup "[" "]").before bafterArgs
    have batName := ((Reaches.refl _).nextIf _).before batArgs
    have hmarks := (hended bended).found Extent.looksPast_defaultMarks bmarked
    rw [(hmarked bmarked).directives bdone, (htype btype).accessors baccessors,
      (hafterArgs bafterArgs).typeExprAfter btype,
      (hatName batName).textUpTo (hatArgs batArgs) ((Reaches.refl _).nextIf _),
      (hatArgs batArgs).textUpTo (hafterArgs bafterArgs) ((Reaches.refl _).passGroup "[" "]"),
      h.textUpTo (hterminator bterminator) (((((((Reaches.refl c).passKeyword .class_).next.nextIf
        _).passGroup "[" "]").typeExprAfter [":"] _).accessors).passHeaderRest),
      classSpecifier_of_shares h, h.location, (hmarked.directives bdone).prevStop,
      (hatName batName).location, hmarks]
  · exact .none

end Header

/-! ### Values of an enumeration -/

namespace Clause

open Cursor

/-- A value of an enumeration stands at the same place in the stem of a fork,
    in both sources. -/
structure EnumValue.Shares (f : Fork) (v w : EnumValue) : Prop where
  /-- They begin at the same place. -/
  before : v.before.Shares f w.before
  /-- They end at the same place. -/
  after : v.after.Shares f w.after
  /-- They have the same name. -/
  name : w.name = v.name
  /-- They have the same text. -/
  signature : w.signature = v.signature
  /-- They are given the same number. -/
  initializer : w.initializer = v.initializer

theorem shares_enumValues {f : Fork} {c d : Cursor} (h : c.Shadows f d)
    (hend : (enumValues c).2.Before f.size) :
    List.Forall₂ (EnumValue.Shares f) (enumValues c).1 (enumValues d).1 ∧
      (enumValues c).2.Shares f (enumValues d).2 := by
  have hshares : ∀ {c d : Cursor}, c.Shadows f d → (enumValues c).2.Before f.size →
      c.Shares f d :=
    fun h hend => h ((valuesBetween_enumValues _).reaches.before hend)
  induction c using enumValues.induct generalizing d with
  | case1 c hnil =>
    obtain ⟨t, ht, _⟩ := (hshares h hend).exists_peek?
    exact absurd hnil (ahead_of_nth? ht)
  | case2 c t ts hahead hclose =>
    obtain ⟨us, hahead'⟩ := (hshares h hend).exists_ahead_eq hahead
    rw [enumValues_of_ahead_cons hahead, if_pos hclose] at hend ⊢
    rw [enumValues_of_ahead_cons hahead', if_pos hclose]
    exact ⟨.nil, h.next hend⟩
  | case3 c t ts hahead hclose hstop =>
    have hs := hshares h hend
    obtain ⟨us, hahead'⟩ := hs.exists_ahead_eq hahead
    rw [enumValues_of_ahead_cons hahead, enumValues_of_ahead_cons hahead', if_neg hclose,
      if_pos hstop, if_neg hclose, if_pos hstop]
    exact ⟨.nil, hs⟩
  | case4 c t ts hahead hclose hstop hident value =>
    rename_i after ih
    have hs := hshares h hend
    obtain ⟨us, hahead'⟩ := hs.exists_ahead_eq hahead
    have hvalue := h.next.typeExprAfter ["=", ":="] [","]
    have hafter := hvalue.passSymbol ","
    rw [enumValues_of_ahead_cons hahead, if_neg hclose, if_neg hstop, if_pos hident] at hend ⊢
    rw [enumValues_of_ahead_cons hahead', if_neg hclose, if_neg hstop, if_pos hident]
    obtain ⟨hothers, hlast⟩ := ih hafter hend
    -- The value comes before the others.
    have bafter : after.Before f.size := (valuesBetween_enumValues after).reaches.before hend
    have bvalue := ((Reaches.refl value.2).passSymbol ",").before bafter
    have bnext := ((Reaches.refl c.next).typeExprAfter ["=", ":="] [","]).before bvalue
    refine ⟨.cons ⟨hs, hafter bafter, rfl, ?_, ?_⟩ hothers, hlast⟩
    · exact hs.textUpTo (hvalue bvalue) ((Reaches.refl c).next.typeExprAfter ["=", ":="] [","])
    · exact (h.next bnext).typeExprAfter bvalue
  | case5 c t ts hahead hclose hstop hident ih =>
    obtain ⟨us, hahead'⟩ := (hshares h hend).exists_ahead_eq hahead
    rw [enumValues_of_ahead_cons hahead, if_neg hclose, if_neg hstop, if_neg hident] at hend ⊢
    rw [enumValues_of_ahead_cons hahead', if_neg hclose, if_neg hstop, if_neg hident]
    exact ih h.next hend

end Clause

end PascalOutline
