import PascalOutline.Proofs.Documentation.Account

/-! # Texts strung together

  The documentation of an entry is strung together from the texts of comments:
  one after the other, with a line break or an empty line between two texts
  that are not empty. Which comments these are, and in which order they come,
  stands in a ledger of the scan.
-/

namespace PascalOutline

/-! ### Strings of texts -/

/-- Texts that are strung together in their order. -/
inductive Strung : List String → String → Prop where
  /-- No text. -/
  | nil : Strung [] ""
  /-- One more text in front. -/
  | cons {text gap doc : String} {texts : List String} (h : Strung texts doc)
      (hgap : IsGap gap text doc) : Strung (text :: texts) (text ++ gap ++ doc)

theorem IsGap.eq_empty {gap first second : String} (h : IsGap gap first second)
    (hempty : first = "" ∨ second = "") : gap = "" := by
  rwa [IsGap, if_pos hempty] at h

theorem isGap_empty_right (text : String) : IsGap "" text "" := by
  simp [IsGap]

/-- A gap depends on its neighbours only by their being empty. -/
theorem IsGap.congr {gap first second first' second' : String} (h : IsGap gap first second)
    (hfirst : first = "" ↔ first' = "") (hsecond : second = "" ↔ second' = "") :
    IsGap gap first' second' := by
  unfold IsGap at h ⊢
  simpa only [← hfirst, ← hsecond] using h

namespace Strung

theorem singleton (text : String) : Strung [text] text := by
  have h : Strung [text] (text ++ "" ++ "") := .cons .nil (isGap_empty_right text)
  simpa using h

/-- Two strings of texts are strung together with a gap between them. -/
theorem append {texts more : List String} {first second gap : String} (h : Strung texts first)
    (h' : Strung more second) (hgap : IsGap gap first second) :
    Strung (texts ++ more) (first ++ gap ++ second) := by
  induction h generalizing gap with
  | nil =>
    rw [hgap.eq_empty (.inl rfl)]
    simpa using h'
  | @cons text inner doc texts hrest hinner ih =>
    by_cases hdoc : doc = ""
    · -- Behind the first text nothing is left, so the gap follows it at once.
      subst hdoc
      have hnone : inner = "" := hinner.eq_empty (.inr rfl)
      subst hnone
      have hnext : Strung (texts ++ more) second := by
        have hempty : IsGap "" "" second := by simp [IsGap]
        simpa using ih hempty
      have hhere : IsGap gap text second := by simpa using hgap
      simpa using Strung.cons hnext hhere
    · have hbehind : IsGap gap doc second := by
        apply hgap.congr _ Iff.rfl
        simp [hdoc, String.append_eq_empty_iff]
      have hbefore : IsGap inner text (doc ++ gap ++ second) := by
        apply hinner.congr Iff.rfl
        simp [hdoc, String.append_eq_empty_iff]
      have hall := Strung.cons (ih hbehind) hbefore
      simpa [String.append_assoc] using hall

theorem eq_empty {doc : String} (h : Strung [] doc) : doc = "" := by
  cases h with
  | nil => rfl

/-- What is strung together begins with the first text. -/
theorem exists_eq_append {text doc : String} {texts : List String}
    (h : Strung (text :: texts) doc) : ∃ rest, doc = text ++ rest := by
  cases h with
  | cons _ _ => exact ⟨_, String.append_assoc⟩

theorem eq_singleton {text doc : String} (h : Strung [text] doc) : doc = text := by
  cases h with
  | cons hrest hgap =>
    have hnone := hrest.eq_empty
    subst hnone
    rw [hgap.eq_empty (.inr rfl)]
    simp

end Strung

/-! ### Documentation -/

section Documentation

variable (options : Options) (lexemes : List Lexeme)

/-- The texts of the comments at some places. -/
def commentTexts (places : List Nat) : List String :=
  (places.filterMap (docAt? options lexemes)).map DocComment.text

/-- The comments that some deliveries bring to an entry, in the order in which
    they are delivered. -/
def commentsOf (deliveries : List Delivery) (id : EntryId) : List Nat :=
  (deliveries.filter fun delivery => decide (id ∈ delivery.ids)).flatMap Delivery.comments

theorem commentTexts_append (places more : List Nat) :
    commentTexts options lexemes (places ++ more)
      = commentTexts options lexemes places ++ commentTexts options lexemes more := by
  simp [commentTexts]

theorem commentsOf_sublist (deliveries : List Delivery) (id : EntryId) :
    (commentsOf deliveries id).Sublist (deliveries.flatMap Delivery.comments) := by
  induction deliveries with
  | nil => exact .slnil
  | cons delivery deliveries ih =>
    unfold commentsOf at ih ⊢
    rw [List.filter_cons, List.flatMap_cons]
    by_cases hid : id ∈ delivery.ids
    · simp only [hid, decide_true, ↓reduceIte, List.flatMap_cons]
      exact ih.append_left _
    · simp only [hid, decide_false, Bool.false_eq_true, ↓reduceIte]
      exact ih.trans (List.sublist_append_right _ _)

/-- Joined texts are strung together. -/
theorem strung_joinedBack (docs : List DocComment) :
    Strung (docs.reverse.map DocComment.text) (joinedBack docs) := by
  induction docs with
  | nil => exact .nil
  | cons last before ih =>
    obtain ⟨gap, hgap, heq⟩ := exists_joinedBack_cons_eq last before
    rw [heq, List.reverse_cons, List.map_append]
    exact ih.append (.singleton last.text) hgap

theorem strung_textAt (places : List Nat) :
    Strung (commentTexts options lexemes places) (textAt options lexemes places) := by
  have hjoined := strung_joinedBack (places.filterMap (docAt? options lexemes)).reverse
  rwa [List.reverse_reverse] at hjoined

/-- The documentation of an entry is strung together from the comments that are
    delivered to it. -/
theorem strung_delivered (deliveries : List Delivery) (id : EntryId) :
    Strung (commentTexts options lexemes (commentsOf deliveries id))
      (delivered options lexemes deliveries id) := by
  induction deliveries using List.reverseRecOn with
  | nil => exact .nil
  | append_singleton deliveries last ih =>
    rw [delivered_append]
    by_cases hid : id ∈ last.ids
    · have hcomments : commentsOf (deliveries ++ [last]) id
          = commentsOf deliveries id ++ last.comments := by
        simp [commentsOf, List.filter_append, hid]
      obtain ⟨gap, hgap, heq⟩ := exists_withParagraph_eq (delivered options lexemes deliveries id)
        (textAt options lexemes last.comments)
      rw [if_pos hid, heq, hcomments, commentTexts_append]
      exact ih.append (strung_textAt options lexemes last.comments) hgap
    · have hcomments : commentsOf (deliveries ++ [last]) id = commentsOf deliveries id := by
        simp [commentsOf, List.filter_append, hid]
      rw [if_neg hid, hcomments]
      exact ih

end Documentation

end PascalOutline
