import PascalOutline.Proofs.Cursor.Movement
import PascalOutline.Proofs.Path
import PascalOutline.Proofs.Text.Case
import PascalOutline.Proofs.Token.Render

/-! # Texts on one line

  A line ends only in trivia, so no token has a line end in it. Between two
  tokens a rendering has at most a blank. Hence whatever is read off tokens
  stands on one line. The file name is the only other text that names are made
  of; its line ends, if it has some, are the only ones in a name
  (`Unbroken`).
-/

namespace PascalOutline

/-! ### Texts -/

/-- Every line end in a text is one of the file name. -/
def Unbroken (file text : String) : Prop :=
  ∀ c ∈ text.toList, Lexer.isLineEnd c = true → c ∈ file.toList

theorem Lexer.isLineEnd_iff {c : Char} : isLineEnd c = true ↔ c = '\n' ∨ c = '\r' := by
  rw [isLineEnd, Bool.or_eq_true_iff, beq_iff_eq, beq_iff_eq]

theorem isLineEnd_toLower (c : Char) : Lexer.isLineEnd c.toLower = Lexer.isLineEnd c :=
  apply_toLower (by decide) c

namespace Unbroken

variable {file text text' : String}

theorem of_noLineEnd (h : ∀ c ∈ text.toList, Lexer.isLineEnd c = false) : Unbroken file text := by
  intro c hc hend
  rw [h c hc] at hend
  cases hend

theorem of_all (h : (text.toList.all fun c => !Lexer.isLineEnd c) = true) : Unbroken file text :=
  of_noLineEnd fun c hc => by simpa using List.all_eq_true.mp h c hc

theorem of_subset (h : text.toList ⊆ file.toList) : Unbroken file text :=
  fun _ hc _ => h hc

theorem append (h : Unbroken file text) (h' : Unbroken file text') :
    Unbroken file (text ++ text') := by
  intro c hc hend
  rw [String.toList_append] at hc
  rcases List.mem_append.mp hc with hc | hc
  · exact h c hc hend
  · exact h' c hc hend

/-- Lower case leaves line ends alone. -/
theorem lowered (h : Unbroken file text) : Unbroken file (lowered text) := by
  intro c hc hend
  rw [toList_lowered] at hc
  obtain ⟨d, hd, rfl⟩ := List.mem_map.mp hc
  rw [isLineEnd_toLower] at hend
  have hletter : d.isAlpha = false := by
    rcases Lexer.isLineEnd_iff.mp hend with rfl | rfl <;> decide
  rw [toLower_of_isAlpha_eq_false hletter]
  exact h d hd hend

end Unbroken

theorem unbroken_empty (file : String) : Unbroken file "" :=
  .of_noLineEnd fun _ hc => by cases hc

theorem Unbroken.intercalate {file between : String} {texts : List String}
    (h : ∀ text ∈ texts, Unbroken file text) (hbetween : Unbroken file between) :
    Unbroken file (between.intercalate texts) := by
  induction texts with
  | nil => exact unbroken_empty file
  | cons text texts ih =>
    obtain ⟨htext, htexts⟩ := List.forall_mem_cons.mp h
    cases texts with
    | nil =>
      rw [String.intercalate_singleton]
      exact htext
    | cons =>
      rw [String.intercalate_cons_cons]
      exact (htext.append hbetween).append (ih htexts)

/-! ### File names -/

namespace Path

theorem subset_of_mem_splitSlashes {cs piece : List Char} (h : piece ∈ splitSlashes cs) :
    piece ⊆ cs := by
  induction cs generalizing piece with
  | nil =>
    rw [splitSlashes, List.mem_singleton] at h
    rw [h]
    exact List.Subset.refl _
  | cons c cs ih =>
    rw [splitSlashes] at h
    split at h
    next =>
      obtain rfl | h := List.mem_cons.mp h
      · exact List.nil_subset _
      · exact List.subset_cons_of_subset c (ih h)
    next =>
      cases hpieces : splitSlashes cs with
      | nil => exact absurd hpieces (splitSlashes_ne_nil cs)
      | cons first pieces =>
        rw [hpieces] at h ih
        obtain rfl | h := List.mem_cons.mp h
        · exact List.cons_subset_cons c (ih List.mem_cons_self)
        · exact List.subset_cons_of_subset c (ih (List.mem_cons_of_mem _ h))

theorem subset_of_fileName? {path name : String} (h : fileName? path = some name) :
    name.toList ⊆ path.toList := by
  have hmem := List.mem_of_getLast? (getLast?_pieces_of_fileName? h)
  obtain ⟨piece, hpiece, hpart⟩ := List.mem_filterMap.mp hmem
  rw [← (partOf?_eq_name hpart).1]
  exact subset_of_mem_splitSlashes hpiece

theorem toList_splitName_subset (name : String) : (splitName name).1.toList ⊆ name.toList := by
  unfold splitName
  dsimp only
  split
  · exact List.Subset.refl _
  · intro c hc
    rw [String.toList_ofList, List.mem_reverse] at hc
    exact List.mem_reverse.mp ((List.dropWhile_suffix _).subset (List.drop_subset 1 _ hc))

/-- The name for a source without a module header is part of the file name. -/
theorem stem_subset (file : String) : ((stem? file).getD file).toList ⊆ file.toList := by
  unfold stem?
  cases hname : fileName? file with
  | none => exact List.Subset.refl _
  | some name =>
    exact List.Subset.trans (toList_splitName_subset name) (subset_of_fileName? hname)

end Path

/-! ### Tokens -/

namespace Lexer

/-- What is cut off a text and is no trivia lies within one line. -/
theorem isLineEnd_of_mem_cut {nested : Bool} {c : Char} {cs : List Char} {kind : LexemeKind}
    {n : Nat} (hcut : cut nested c cs = (kind, n)) (htoken : kind.isTrivia = false) :
    ∀ d ∈ c :: cs.take n, isLineEnd d = false := by
  intro d hd
  cases cuts_of_cut hcut with
  | newline _ _ => cases htoken
  | comment k _ _ _ _ => rcases commentKind_eq k with hk | hk <;> rw [hk] at htoken <;> cases htoken
  | inline _ _ _ hfirst hothers =>
    rcases List.mem_cons.mp hd with rfl | hd
    · exact hfirst
    · exact hothers d hd

end Lexer

namespace Token

/-- No token is broken over lines. -/
theorem unbroken_of_mem_ofLexemes {nested : Bool} {source : String} {t : Token}
    (h : t ∈ ofLexemes (Lexer.lex nested source)) (file : String) : Unbroken file t.text := by
  obtain ⟨cs, hlaid⟩ := exists_laid_ofLexemes nested source
  obtain ⟨htoken, c, ds, n, hcut, htext⟩ := hlaid.exists_cut h
  apply Unbroken.of_noLineEnd
  rw [htext, String.toList_ofList]
  exact Lexer.isLineEnd_of_mem_cut hcut htoken

end Token

/-! ### What is read off tokens -/

section Read

variable {file : String} {ts : List Token} (h : ∀ t ∈ ts, Unbroken file t.text)
include h

theorem Token.unbroken_renderRest : Unbroken file (renderRest ts) := by
  induction ts with
  | nil => exact unbroken_empty file
  | cons t ts ih =>
    obtain ⟨hfirst, hothers⟩ := List.forall_mem_cons.mp h
    rw [renderRest]
    refine (Unbroken.append ?_ hfirst).append (ih hothers)
    split
    · exact .of_all (by decide)
    · exact unbroken_empty file

theorem Token.unbroken_render : Unbroken file (render ts) := by
  cases ts with
  | nil => exact unbroken_empty file
  | cons t ts =>
    obtain ⟨hfirst, hothers⟩ := List.forall_mem_cons.mp h
    exact hfirst.append (unbroken_renderRest hothers)

theorem unbroken_take (n : Nat) : ∀ t ∈ ts.take n, Unbroken file t.text :=
  fun t ht => h t (List.mem_of_mem_take ht)

theorem unbroken_drop (n : Nat) : ∀ t ∈ ts.drop n, Unbroken file t.text :=
  fun t ht => h t (List.mem_of_mem_drop ht)

namespace Extent

theorem unbroken_directives : ∀ text ∈ (directives ts).texts, Unbroken file text := by
  fun_induction directives ts with
  | case1 =>
    intro text htext
    cases htext
  | case2 t ts hstarts n passed others ih =>
    obtain ⟨_, hothers⟩ := List.forall_mem_cons.mp h
    have hread : Unbroken file (Token.render (t :: ts.take n)) :=
      Token.unbroken_render (unbroken_take h (n + 1))
    exact List.forall_mem_cons.mpr ⟨hread, ih (unbroken_drop hothers _)⟩
  | case3 t ts hstarts =>
    intro text htext
    cases htext

theorem unbroken_accessors : ∀ text ∈ (accessors ts).texts, Unbroken file text := by
  fun_induction accessors ts with
  | case1 =>
    intro text htext
    cases htext
  | case2 t ts hword n others ih =>
    obtain ⟨_, hothers⟩ := List.forall_mem_cons.mp h
    have hread : Unbroken file (Token.render (t :: ts.take n)) :=
      Token.unbroken_render (unbroken_take h (n + 1))
    exact List.forall_mem_cons.mpr ⟨hread, ih (unbroken_drop hothers _)⟩
  | case3 t ts hword =>
    intro text htext
    cases htext

theorem unbroken_segments (before : Nat) : ∀ s ∈ segments before ts, Unbroken file s.name := by
  fun_induction segments before ts with
  | case1 =>
    intro s hs
    cases hs
  | case2 before t ts hname n rest stop more ih =>
    obtain ⟨hfirst, hothers⟩ := List.forall_mem_cons.mp h
    refine List.forall_mem_cons.mpr ⟨hfirst, ?_⟩
    split
    · exact ih (unbroken_drop hothers _)
    · intro s hs
      cases hs
  | case3 before t ts hname =>
    intro s hs
    cases hs

theorem unbroken_qualifiedName : Unbroken file (qualifiedName ts).name ∧
    ∀ qualifier ∈ (qualifiedName ts).qualifier, Unbroken file qualifier := by
  have hparts := unbroken_segments h 0
  unfold qualifiedName
  dsimp only
  split
  next => exact ⟨unbroken_empty file, fun _ hq => by cases hq⟩
  next part hlast =>
    refine ⟨hparts part (List.mem_of_getLast? hlast), ?_⟩
    intro qualifier hq
    obtain ⟨owner, _, rfl⟩ := Option.map_eq_some_iff.mp hq
    exact Token.unbroken_render (unbroken_take h owner.stop)

theorem unbroken_operatorName : Unbroken file (operatorName ts).name ∧
    ∀ qualifier ∈ (operatorName ts).qualifier, Unbroken file qualifier := by
  cases ts with
  | nil => exact ⟨unbroken_empty file, fun _ hq => by cases hq⟩
  | cons t ts =>
    rw [operatorName]
    split
    · exact ⟨h t List.mem_cons_self, fun _ hq => by cases hq⟩
    · exact ⟨unbroken_empty file, fun _ hq => by cases hq⟩

end Extent

theorem Clause.unbroken_modifiers : ∀ text ∈ (modifiers ts).specifiers, Unbroken file text := by
  fun_induction modifiers ts with
  | case1 | case2 | case5 =>
    intro text htext
    cases htext
  | case3 t ts _ _ others ih =>
    obtain ⟨hfirst, hothers⟩ := List.forall_mem_cons.mp h
    exact List.forall_mem_cons.mpr ⟨hfirst.lowered, ih hothers⟩
  | case4 t ts _ _ _ ancestors subject n others ih =>
    obtain ⟨_, hothers⟩ := List.forall_mem_cons.mp h
    have hword : Unbroken file "helper" := .of_all (by decide)
    exact List.forall_mem_cons.mpr ⟨hword, ih (unbroken_drop hothers n)⟩

end Read

/-! ### Headers -/

/-- All tokens of a source lie on one line each. -/
def Cursor.Unbroken (file : String) (c : Cursor) : Prop :=
  ∀ t ∈ c.tokens, PascalOutline.Unbroken file t.text

namespace Cursor

variable {file : String} {c d : Cursor}

theorem unbroken_ofLexemes (file : String) (nested : Bool) (source : String) :
    (ofLexemes (Lexer.lex nested source)).Unbroken file :=
  fun _ ht => Token.unbroken_of_mem_ofLexemes ht file

theorem Unbroken.of_reaches (h : c.Unbroken file) (hcd : c.Reaches d) : d.Unbroken file := by
  unfold Unbroken
  rw [hcd.tokens_eq]
  exact h

theorem Unbroken.ahead (h : c.Unbroken file) : ∀ t ∈ c.ahead, PascalOutline.Unbroken file t.text :=
  fun t ht => h t (List.mem_append_right _ ht)

theorem Unbroken.text (h : c.Unbroken file) : PascalOutline.Unbroken file c.text := by
  unfold Cursor.text nthText
  cases hpeek : c.nth? 0 with
  | none => exact unbroken_empty file
  | some t => exact h.ahead t (List.mem_of_getElem? hpeek)

theorem Unbroken.textUpTo (h : c.Unbroken file) (d : Cursor) :
    PascalOutline.Unbroken file (c.textUpTo d) :=
  Token.unbroken_render (unbroken_take h.ahead _)

theorem Unbroken.directives (h : c.Unbroken file) :
    ∀ text ∈ c.directives.1, PascalOutline.Unbroken file text :=
  Extent.unbroken_directives h.ahead

theorem Unbroken.accessors (h : c.Unbroken file) :
    ∀ text ∈ c.accessors.1, PascalOutline.Unbroken file text :=
  Extent.unbroken_accessors h.ahead

end Cursor

end PascalOutline
