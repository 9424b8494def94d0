import PascalOutline.Proofs.Comment.Clean
import PascalOutline.Proofs.Documentation.Account

/-! # Documentation is clean

  The text of a documentation comment is what cleaning leaves of the comment:
  line after line, without decoration, white space at line ends and common
  indentation. It is empty or tidy. The documentation of an entry joins such
  texts by line feeds and empty lines, so it is empty or tidy, too.
-/

namespace PascalOutline

/-! ### Texts of documentation -/

/-- A text is empty or tidy. -/
def IsClean (text : String) : Prop :=
  text = "" ∨ IsTidy text.toList

namespace IsClean

variable {text more : String}

theorem empty : IsClean "" :=
  .inl rfl

theorem ofList {cs : List Char} (h : cs = [] ∨ IsTidy cs) : IsClean (String.ofList cs) := by
  rcases h with rfl | htidy
  · exact .empty
  · refine .inr ?_
    rwa [String.toList_ofList]

/-- Two clean texts with a gap between them. -/
theorem join (h : IsClean text) (h' : IsClean more) {gap : String} (hgap : IsGap gap text more) :
    IsClean (text ++ gap ++ more) := by
  by_cases hempty : text = "" ∨ more = ""
  · rw [IsGap, if_pos hempty] at hgap
    rw [hgap, String.append_empty]
    rcases hempty with htext | hmore
    · rwa [htext, String.empty_append]
    · rwa [hmore, String.append_empty]
  · rw [IsGap, if_neg hempty] at hgap
    obtain ⟨hne, hne'⟩ := not_or.mp hempty
    have htidy := h.resolve_left hne
    have htidy' := h'.resolve_left hne'
    refine .inr ?_
    rw [String.toList_append, String.toList_append, List.append_assoc]
    rcases hgap with rfl | rfl
    · exact htidy.append_lineFeed htidy'
    · exact htidy.append_lineFeeds htidy'

theorem withParagraph (h : IsClean text) (h' : IsClean more) :
    IsClean (withParagraph text more) := by
  obtain ⟨gap, hgap, heq⟩ := exists_withParagraph_eq text more
  rw [heq]
  exact h.join h' hgap

end IsClean

/-! ### From comments to entries -/

/-- What cleaning leaves of a body follows the body without its closing
    decoration. -/
theorem Comment.clean_cases (style : CommentStyle) (body : List Char) :
    ∃ text, (match style with
        | .line => text = body
        | .block _ => Undecorates body text) ∧
      clean style body = joinLines (cleanLines text) := by
  cases style with
  | line => exact ⟨body, rfl, rfl⟩
  | block style => exact ⟨undecorated body, undecorates_undecorated body, rfl⟩

theorem DocComment.isClean {options : Options} {l : Lexeme} {doc : DocComment}
    (h : ofLexeme? options l = some doc) : IsClean doc.text := by
  unfold ofLexeme? at h
  split at h
  · next c _ =>
    obtain ⟨body, _, rfl⟩ := Option.map_eq_some_iff.mp h
    obtain ⟨text, _, hclean⟩ := Comment.clean_cases c.style (untrailed body).1
    show IsClean (String.ofList (Comment.clean c.style (untrailed body).1))
    rw [hclean]
    exact .ofList ((Comment.tidy_follows_cleanLines text).1.imp_right And.left)
  · cases h

section Documentation

variable {options : Options} {lexemes : List Lexeme}

theorem isClean_joinedBack {docs : List DocComment} (h : ∀ doc ∈ docs, IsClean doc.text) :
    IsClean (joinedBack docs) := by
  induction docs with
  | nil => exact .empty
  | cons last before ih =>
    obtain ⟨hlast, hbefore⟩ := List.forall_mem_cons.mp h
    obtain ⟨gap, hgap, heq⟩ := exists_joinedBack_cons_eq last before
    rw [heq]
    exact (ih hbefore).join hlast hgap

theorem isClean_textAt (places : List Nat) : IsClean (textAt options lexemes places) := by
  refine isClean_joinedBack ?_
  intro doc hdoc
  obtain ⟨place, _, hplace⟩ := List.mem_filterMap.mp (List.mem_reverse.mp hdoc)
  obtain ⟨l, _, hl⟩ := Option.bind_eq_some_iff.mp hplace
  exact DocComment.isClean hl

theorem isClean_delivered (deliveries : List Delivery) (id : EntryId) :
    IsClean (delivered options lexemes deliveries id) := by
  induction deliveries using List.reverseRecOn with
  | nil => exact .empty
  | append_singleton deliveries last ih =>
    rw [delivered_append]
    split
    · exact ih.withParagraph (isClean_textAt _)
    · exact ih

end Documentation

/-- There is a ledger for every scan. -/
theorem Ledger.exists_explains (options : Options) (file source : String) :
    ∃ ledger : Ledger, ledger.Explains options file source := by
  have hreachable := State.reachable_run options file (Lexer.lex options.nestedComments source)
  obtain ⟨haccounted, _, _, hpending⟩ :=
    State.accounted_finish hreachable.bookedAt hreachable.agrees.arena
  obtain ⟨ledger, haccounts⟩ := haccounted.exists_accounts
  exact ⟨ledger, haccounts.explains hpending⟩

/-- **Comments are cleaned faithfully.** Of every comment body nothing is left,
    or a tidy text that is not indented as a whole. Its lines are, one by one and
    in order, lines of the body that stand together, each one without its
    margin, white space at its end, and the common indentation; for a block
    comment these are the lines of the body without its closing decoration.

    So the documentation of every entry is empty or tidy. -/
theorem tidy_follows_clean :
    (∀ (style : CommentStyle) (body : List Char),
      (Comment.clean style body = [] ∨
        IsTidy (Comment.clean style body) ∧ Comment.IsFlush (Comment.clean style body)) ∧
      ∃ text, (match style with
          | .line => text = body
          | .block _ => Comment.Undecorates body text) ∧
        Comment.Follows text (Comment.clean style body)) ∧
    ∀ (options : Options) (file source : String),
      ∀ e ∈ (scan options file source).outline.entries, e.doc = "" ∨ IsTidy e.doc.toList := by
  constructor
  · intro style body
    obtain ⟨text, htext, hclean⟩ := Comment.clean_cases style body
    obtain ⟨htidy, hfollows⟩ := Comment.tidy_follows_cleanLines text
    rw [hclean]
    exact ⟨htidy, text, htext, hfollows⟩
  · intro options file source e he
    obtain ⟨ledger, hledger⟩ := Ledger.exists_explains options file source
    obtain ⟨id, hid⟩ := Array.mem_iff_getElem?.mp he
    rw [hledger.docs id e hid]
    exact isClean_delivered ledger.deliveries id

/-- Marks stand in the margin and before the closer, and one line ends in a
    blank. -/
theorem tidy_follows_clean_of_starred_comment :
    let source := "(**\r\n *   First \r\n *     second. **)\r\nvar X: T;"
    ((scan {} "u" source).outline.get? 1).map Entry.doc = some "First\n  second." ∧
      IsTidy "First\n  second.".toList := by
  intro source
  have hdoc : ((scan {} "u" source).outline.get? 1).map Entry.doc = some "First\n  second." := by
    decide +kernel
  refine ⟨hdoc, ?_⟩
  obtain ⟨e, he, htext⟩ := Option.map_eq_some_iff.mp hdoc
  rw [← htext]
  have hne : e.doc ≠ "" := by
    rw [htext]
    decide
  exact (tidy_follows_clean.2 {} "u" source e (Array.mem_of_getElem? he)).resolve_left hne

end PascalOutline
