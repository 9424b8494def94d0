import PascalOutline.Comment.Clean
import PascalOutline.Lexeme.Lexer
import PascalOutline.Proofs.Text.Case

/-! # Respelled texts

  A respelling changes nothing of a text that is read but its letter case and
  its line ends: some characters are put into lower case, and either every
  line end becomes a single line feed or all line ends stay as they are. The
  lines of a respelled text are the lines of the text, respelled, so the
  documentation in a comment is respelled with the comment.
-/

namespace PascalOutline

/-- A change of letter case and of line ends. -/
structure Respelling where
  /-- The character for a character that ends no line. -/
  char : Char → Char
  /-- Whether every line end becomes a line feed. -/
  lineFeeds : Bool
  /-- A character stays or is put into lower case. -/
  char_eq : ∀ c, char c = c ∨ char c = c.toLower

namespace Respelling

open Lexer

variable (f : Respelling)

/-! ### Characters -/

/-- What agrees on each capital letter and its small letter agrees on every
    character and its respelling. -/
theorem apply_char {α : Type} {p : Char → α}
    (h : ∀ i < 26, p (Char.ofNat (65 + i)).toLower = p (Char.ofNat (65 + i))) (c : Char) :
    p (f.char c) = p c := by
  rcases f.char_eq c with hsame | hlower
  · rw [hsame]
  · rw [hlower, apply_toLower h]

theorem char_of_isAlpha_eq_false {c : Char} (h : c.isAlpha = false) : f.char c = c := by
  rcases f.char_eq c with hsame | hlower
  · exact hsame
  · rw [hlower, toLower_of_isAlpha_eq_false h]

theorem char_eq_iff {x : Char} (hx : x.isAlpha = false) {c : Char} : f.char c = x ↔ c = x := by
  have halpha : (f.char c).isAlpha = c.isAlpha := f.apply_char (by decide) c
  constructor
  · rintro rfl
    rw [halpha] at hx
    exact (f.char_of_isAlpha_eq_false hx).symm
  · rintro rfl
    exact f.char_of_isAlpha_eq_false hx

theorem isLineEnd_char (c : Char) : isLineEnd (f.char c) = isLineEnd c :=
  f.apply_char (by decide) c

/-- A character on its own: a carriage return may become a line feed. -/
def single (c : Char) : Char :=
  if c = '\r' ∧ f.lineFeeds then '\n' else f.char c

theorem single_of_isLineEnd_eq_false {c : Char} (h : isLineEnd c = false) :
    f.single c = f.char c := by
  rw [single, if_neg]
  rintro ⟨rfl, _⟩
  cases h

theorem apply_single {α : Type} {p : Char → α}
    (h : ∀ i < 26, p (Char.ofNat (65 + i)).toLower = p (Char.ofNat (65 + i)))
    (hends : p '\n' = p '\r') (c : Char) : p (f.single c) = p c := by
  unfold single
  split
  · next hreturn => rw [hends, hreturn.1]
  · exact f.apply_char h c

theorem isLineEnd_single (c : Char) : isLineEnd (f.single c) = isLineEnd c :=
  f.apply_single (by decide) rfl c

/-! ### Texts -/

/-- A text with its characters and line ends respelled. -/
def chars : List Char → List Char
  | [] => []
  | '\r' :: '\n' :: cs => if f.lineFeeds then '\n' :: chars cs else '\r' :: '\n' :: chars cs
  | c :: cs => f.single c :: chars cs

/-- A string respelled. -/
def apply (s : String) : String :=
  String.ofList (f.chars s.toList)

@[simp] theorem chars_nil : f.chars [] = [] :=
  rfl

theorem chars_cons {c : Char} {cs : List Char} (h : c = '\r' → cs.head? ≠ some '\n') :
    f.chars (c :: cs) = f.single c :: f.chars cs := by
  rw [chars]
  rintro rest rfl rfl
  exact h rfl rfl

theorem chars_cons_of_isLineEnd_eq_false {c : Char} (h : isLineEnd c = false) (cs : List Char) :
    f.chars (c :: cs) = f.char c :: f.chars cs := by
  rw [chars_cons, single_of_isLineEnd_eq_false f h]
  rintro rfl
  cases h

/-- A text that stands on one line is respelled character by character. -/
theorem chars_of_inline {cs : List Char} (h : ∀ c ∈ cs, isLineEnd c = false) :
    f.chars cs = cs.map f.char := by
  induction cs with
  | nil => rfl
  | cons c cs ih =>
    rw [chars_cons_of_isLineEnd_eq_false f (h c List.mem_cons_self), List.map_cons,
      ih fun d hd => h d (List.mem_cons_of_mem c hd)]

/-- Two parts of a text are respelled on their own unless they part a line
    end. -/
theorem chars_append {cs ds : List Char} (h : cs.getLast? = some '\r' → ds.head? ≠ some '\n') :
    f.chars (cs ++ ds) = f.chars cs ++ f.chars ds := by
  -- What ends the rest of a text ends the text.
  have hends (c : Char) {cs : List Char} (hlast : cs.getLast? = some '\r') :
      (c :: cs).getLast? = some '\r' := by
    rw [List.getLast?_cons, hlast]
    rfl
  fun_induction chars f cs with
  | case1 => rfl
  | case2 cs hfeeds ih =>
    rw [List.cons_append, List.cons_append, chars, if_pos hfeeds,
      ih fun hlast => h (hends _ (hends _ hlast))]
    rfl
  | case3 cs hfeeds ih =>
    rw [List.cons_append, List.cons_append, chars, if_neg hfeeds,
      ih fun hlast => h (hends _ (hends _ hlast))]
    rfl
  | case4 c cs hpair ih =>
    rw [List.cons_append, chars_cons, ih fun hlast => h (hends _ hlast)]
    · rfl
    · -- Behind a carriage return stands more of the text or, at its end, the
      -- text that is appended, and neither begins with a line feed.
      rintro rfl
      cases cs with
      | nil => exact h rfl
      | cons d cs =>
        intro hfeed
        exact hpair cs rfl (by rw [Option.some.inj hfeed])

theorem single_lineFeed : f.single '\n' = '\n' := by
  rw [single, if_neg (by simp)]
  exact f.char_of_isAlpha_eq_false rfl

theorem getLast?_chars (cs : List Char) : (f.chars cs).getLast? = cs.getLast?.map f.single := by
  fun_induction chars f cs with
  | case1 => rfl
  | case2 cs hfeeds ih =>
    rw [List.getLast?_cons, ih, List.getLast?_cons, List.getLast?_cons]
    cases cs.getLast? with
    | none => simp [single_lineFeed]
    | some c => simp
  | case3 cs hfeeds ih =>
    rw [List.getLast?_cons, List.getLast?_cons, ih, List.getLast?_cons, List.getLast?_cons]
    cases cs.getLast? with
    | none => simp [single_lineFeed]
    | some c => simp
  | case4 c cs _ ih =>
    rw [List.getLast?_cons, ih, List.getLast?_cons]
    cases cs.getLast? with
    | none => rfl
    | some c => rfl

theorem head?_chars (cs : List Char) : (f.chars cs).head? = cs.head?.map f.single := by
  have hreturn : f.single '\r' = if f.lineFeeds then '\n' else '\r' := by
    simp [single, f.char_of_isAlpha_eq_false]
  fun_cases chars f cs with
  | case1 => rfl
  | case2 cs hfeeds => simp [hreturn, hfeeds]
  | case3 cs hfeeds => simp [hreturn, hfeeds]
  | case4 c cs hpair => rfl

/-- A line end that is whole stays whole. -/
theorem head?_chars_ne {c : Char} {cs : List Char} (h : c = '\r' → cs.head? ≠ some '\n')
    (hsingle : f.single c = '\r') : (f.chars cs).head? ≠ some '\n' := by
  -- A carriage return is left only where line ends stay as they are.
  have hends : f.lineFeeds = false ∧ c = '\r' := by
    unfold single at hsingle
    split at hsingle
    · cases hsingle
    · next hkept =>
      have hreturn : c = '\r' := (f.char_eq_iff rfl).mp hsingle
      exact ⟨by simpa [hreturn] using hkept, hreturn⟩
  have hhead := h hends.2
  fun_cases chars f cs with
  | case1 => simp
  | case2 cs hfeeds =>
    rw [hends.1] at hfeeds
    cases hfeeds
  | case3 cs hfeeds => simp
  | case4 d cs hpair =>
    intro hfeed
    have hfeed : f.single d = '\n' := Option.some.inj hfeed
    rw [single, if_neg (by simp [hends.1]), f.char_eq_iff rfl] at hfeed
    exact hhead (congrArg some hfeed)

/-! ### Lines -/

theorem sourceLines_cons_of_isLineEnd {c : Char} {cs : List Char} (hend : isLineEnd c = true)
    (hwhole : c = '\r' → cs.head? ≠ some '\n') : sourceLines (c :: cs) = [] :: sourceLines cs := by
  rw [sourceLines, if_pos (by simpa [isLineEnd] using hend)]
  rintro rest rfl rfl
  exact hwhole rfl rfl

theorem sourceLines_cons_of_isLineEnd_eq_false {c : Char} (h : isLineEnd c = false)
    (cs : List Char) : sourceLines (c :: cs) = consLine c (sourceLines cs) := by
  have hne : ¬(c = '\n' ∨ c = '\r') := by simpa [isLineEnd] using h
  rw [sourceLines, if_neg hne]
  rintro rest rfl rfl
  exact hne (.inr rfl)

/-- The lines of a respelled text are its lines, respelled. -/
theorem sourceLines_chars (cs : List Char) :
    sourceLines (f.chars cs) = (sourceLines cs).map (List.map f.char) := by
  fun_induction chars f cs with
  | case1 => rfl
  | case2 cs hfeeds ih =>
    have hfeed : '\n' = '\r' → (f.chars cs).head? ≠ some '\n' := fun h => absurd h (by decide)
    rw [sourceLines_cons_of_isLineEnd rfl hfeed, sourceLines.eq_2, ih]
    rfl
  | case3 cs hfeeds ih =>
    rw [sourceLines, sourceLines, ih]
    rfl
  | case4 c cs hpair ih =>
    have hwhole : c = '\r' → cs.head? ≠ some '\n' := by
      rintro rfl hfeed
      obtain ⟨rest, rfl⟩ := List.head?_eq_some_iff.mp hfeed
      exact hpair rest rfl rfl
    cases hend : isLineEnd c with
    | true =>
      have hend' : isLineEnd (f.single c) = true := by rw [f.isLineEnd_single, hend]
      rw [sourceLines_cons_of_isLineEnd hend' (f.head?_chars_ne hwhole),
        sourceLines_cons_of_isLineEnd hend hwhole, ih]
      rfl
    | false =>
      have hend' : isLineEnd (f.single c) = false := by rw [f.isLineEnd_single, hend]
      rw [sourceLines_cons_of_isLineEnd_eq_false hend', f.single_of_isLineEnd_eq_false hend, ih,
        sourceLines_cons_of_isLineEnd_eq_false hend]
      cases sourceLines cs <;> rfl

/-! ### Documentation -/

theorem dropEnd_append {p : Char → Bool} {cs ds : List Char} (hlast : cs.getLast?.any p = false)
    (hend : ∀ d ∈ ds, p d = true) : dropEnd p (cs ++ ds) = cs := by
  have hreverse : (cs.reverse).dropWhile p = cs.reverse := by
    cases hcs : cs.reverse with
    | nil => rfl
    | cons c rest =>
      have hc : cs.getLast? = some c := by rw [← List.head?_reverse, hcs]; rfl
      rw [hc] at hlast
      exact List.dropWhile_cons_of_neg (by simpa using hlast)
  have hdropped : ∀ d ∈ ds.reverse, p d = true := fun d hd => hend d (List.mem_reverse.mp hd)
  rw [dropEnd, List.reverse_append, List.dropWhile_append_of_pos hdropped, hreverse,
    List.reverse_reverse]

/-- A text is what is left without its end, and its end. -/
theorem exists_dropEnd_append (p : Char → Bool) (cs : List Char) :
    ∃ ds, cs = dropEnd p cs ++ ds ∧ (dropEnd p cs).getLast?.any p = false ∧
      ∀ d ∈ ds, p d = true := by
  refine ⟨(cs.reverse.takeWhile p).reverse, ?_, ?_, ?_⟩
  · rw [dropEnd, ← List.reverse_append, List.takeWhile_append_dropWhile, List.reverse_reverse]
  · rw [dropEnd, List.getLast?_reverse]
    generalize cs.reverse = rest
    induction rest with
    | nil => rfl
    | cons c rest ih =>
      rw [List.dropWhile_cons]
      split
      · exact ih
      · next hc => simpa using hc
  · intro d hd
    exact List.all_eq_true.mp List.all_takeWhile d (List.mem_reverse.mp hd)

theorem mem_chars {cs : List Char} {d : Char} (h : d ∈ f.chars cs) :
    ∃ c ∈ cs, d = f.single c := by
  fun_induction chars f cs with
  | case1 => cases h
  | case2 cs hfeeds ih =>
    rcases List.mem_cons.mp h with rfl | h
    · exact ⟨'\n', by simp, f.single_lineFeed.symm⟩
    · obtain ⟨c, hc, hd⟩ := ih h
      exact ⟨c, by simp [hc], hd⟩
  | case3 cs hfeeds ih =>
    rcases List.mem_cons.mp h with rfl | h
    · exact ⟨'\r', by simp, by simp [single, hfeeds, f.char_of_isAlpha_eq_false]⟩
    rcases List.mem_cons.mp h with rfl | h
    · exact ⟨'\n', by simp, f.single_lineFeed.symm⟩
    · obtain ⟨c, hc, hd⟩ := ih h
      exact ⟨c, by simp [hc], hd⟩
  | case4 c cs _ ih =>
    rcases List.mem_cons.mp h with rfl | h
    · exact ⟨c, List.mem_cons_self, rfl⟩
    · obtain ⟨e, he, hd⟩ := ih h
      exact ⟨e, List.mem_cons_of_mem c he, hd⟩

/-- What is dropped at the end of a text is dropped at the end of the respelled
    text, if case and line ends do not matter for it. -/
theorem dropEnd_chars {p : Char → Bool}
    (h : ∀ i < 26, p (Char.ofNat (65 + i)).toLower = p (Char.ofNat (65 + i)))
    (hends : p '\n' = p '\r') (cs : List Char) :
    dropEnd p (f.chars cs) = f.chars (dropEnd p cs) := by
  obtain ⟨ds, hsplit, hlast, hend⟩ := exists_dropEnd_append p cs
  have hwhole : (dropEnd p cs).getLast? = some '\r' → ds.head? ≠ some '\n' := by
    intro hreturn hfeed
    obtain ⟨rest, rfl⟩ := List.head?_eq_some_iff.mp hfeed
    rw [hreturn] at hlast
    have hyes := hend '\n' List.mem_cons_self
    rw [hends] at hyes
    simp [hyes] at hlast
  have hlast' : (f.chars (dropEnd p cs)).getLast?.any p = false := by
    rw [f.getLast?_chars]
    cases hc : (dropEnd p cs).getLast? with
    | none => rfl
    | some c =>
      rw [hc] at hlast
      rwa [Option.map_some, Option.any_some, f.apply_single h hends]
  rw [show f.chars cs = f.chars (dropEnd p cs) ++ f.chars ds by
    rw [← f.chars_append hwhole, ← hsplit]]
  apply dropEnd_append hlast'
  intro d hd
  obtain ⟨c, hc, rfl⟩ := f.mem_chars hd
  rw [f.apply_single h hends]
  exact hend c hc

theorem trimEnd_chars (cs : List Char) : trimEnd (f.chars cs) = f.chars (trimEnd cs) :=
  f.dropEnd_chars (by decide) rfl cs

theorem undecorated_chars (body : List Char) :
    Comment.undecorated (f.chars body) = f.chars (Comment.undecorated body) := by
  have hbare (cs : List Char) :
      dropEnd Comment.isDecoration (f.chars cs) = f.chars (dropEnd Comment.isDecoration cs) :=
    f.dropEnd_chars (by decide) rfl cs
  have hspace (last : Option Char) : (last.map f.single).all isSpace = last.all isSpace := by
    cases last with
    | none => rfl
    | some c => exact f.apply_single (p := isSpace) (by decide) rfl c
  simp only [Comment.undecorated, f.trimEnd_chars, hbare, f.getLast?_chars, hspace]
  split <;> rfl

/-! ### The lines of documentation -/

theorem isIndent_comp_char : isIndent ∘ f.char = isIndent :=
  funext (f.apply_char (by decide))

theorem isDecoration_comp_char : Comment.isDecoration ∘ f.char = Comment.isDecoration :=
  funext (f.apply_char (by decide))

theorem withoutMargin_map (line : List Char) :
    Comment.withoutMargin (line.map f.char) = (Comment.withoutMargin line).map f.char := by
  have hhead (cs : List Char) :
      (cs.map f.char).head?.any Comment.isDecoration = cs.head?.any Comment.isDecoration := by
    rw [List.head?_map, Option.any_map]
    exact congrArg (Option.any · cs.head?) f.isDecoration_comp_char
  simp only [Comment.withoutMargin, List.dropWhile_map, f.isIndent_comp_char,
    f.isDecoration_comp_char, hhead]
  split
  · cases (line.dropWhile isIndent).dropWhile Comment.isDecoration with
    | nil => rfl
    | cons c rest =>
      have hindent : isIndent (f.char c) = isIndent c := congrFun f.isIndent_comp_char c
      simp only [List.map_cons, hindent]
      split <;> rfl
  · rfl

theorem trimEnd_map (line : List Char) : trimEnd (line.map f.char) = (trimEnd line).map f.char := by
  have hspace : isSpace ∘ f.char = isSpace := funext (f.apply_char (by decide))
  simp only [trimEnd, dropEnd, ← List.map_reverse, List.dropWhile_map, hspace]

theorem trimLines_map (lines : List (List Char)) :
    Comment.trimLines (lines.map (List.map f.char))
      = (Comment.trimLines lines).map (List.map f.char) := by
  have hempty : List.isEmpty ∘ List.map f.char = List.isEmpty :=
    funext fun line => List.isEmpty_map
  simp only [Comment.trimLines, List.dropWhile_map, hempty, ← List.map_reverse]

theorem commonIndent_map (lines : List (List Char)) :
    Comment.commonIndent (lines.map (List.map f.char)) = Comment.commonIndent lines := by
  have hindent : Comment.indentOf ∘ List.map f.char = Comment.indentOf := by
    funext line
    simp only [Function.comp_apply, Comment.indentOf, List.takeWhile_map, f.isIndent_comp_char,
      List.length_map]
  simp [Comment.commonIndent, List.filter_map, hindent, Function.comp_def]

theorem dedent_map (lines : List (List Char)) :
    Comment.dedent (lines.map (List.map f.char))
      = (Comment.dedent lines).map (List.map f.char) := by
  simp [Comment.dedent, f.commonIndent_map, List.map_drop]

theorem joinLines_map (lines : List (List Char)) :
    joinLines (lines.map (List.map f.char)) = (joinLines lines).map f.char := by
  have hfeed : f.char '\n' = '\n' := f.char_of_isAlpha_eq_false rfl
  fun_induction joinLines lines with
  | case1 => rfl
  | case2 line => rfl
  | case3 line lines hlines ih =>
    rw [List.map_cons, joinLines, ih, List.map_append, List.map_cons, hfeed]
    simpa using hlines

/-- The documentation in a respelled comment is the documentation in the
    comment with its characters respelled; its lines are joined by line feeds
    anyway. -/
theorem clean_chars (style : CommentStyle) (body : List Char) :
    Comment.clean style (f.chars body) = (Comment.clean style body).map f.char := by
  have hlines (body : List Char) :
      Comment.cleanLines (f.chars body) = (Comment.cleanLines body).map (List.map f.char) := by
    simp only [Comment.cleanLines, f.sourceLines_chars, List.map_map, Function.comp_def,
      f.withoutMargin_map, f.trimEnd_map, ← f.dedent_map, ← f.trimLines_map]
  cases style with
  | line => simp only [Comment.clean, hlines, f.joinLines_map]
  | block style => simp only [Comment.clean, f.undecorated_chars, hlines, f.joinLines_map]

end Respelling

end PascalOutline
