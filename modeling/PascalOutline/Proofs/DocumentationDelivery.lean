import PascalOutline.Proofs.Documentation.Strung

/-! # Delivery of documentation

  Every documentation comment of a source is delivered once. A register follows
  the recognizer through the whole source: with each step its course goes on
  (`Register.Follows`), and at each step boundary it agrees with the state about
  what was examined, which entries there are, and where every comment is that was
  examined (`Register.Matches`). At the end of the source its ledger has all
  comments, and none of them waits.
-/

namespace PascalOutline

namespace Register

/-! ### Registers and states -/

/-- A register agrees with a state between two steps. -/
structure Matches (options : Options) (lexemes : List Lexeme) (r : Register) (s : State) :
    Prop where
  /-- What was counted was examined. -/
  examined : s.draft.examined = r.count
  /-- The rest of the lexemes is left. -/
  queue : s.draft.unexamined = lexemes.drop r.count
  /-- Nothing was examined before the cursor got to it. -/
  behind : r.count ≤ s.cursor.lexemeIndex
  /-- Entries may begin at the cursor. -/
  barred : r.barred ≤ s.cursor.lexemeIndex
  /-- No entry is being read. -/
  outside : r.inside = none
  /-- The register is up to date with the draft. -/
  records : r.Records options lexemes s.draft

/-- A register follows the recognizer from the root up to a state. -/
inductive Follows (options : Options) (file : String) (lexemes : List Lexeme)
    (look : EntryId → Option Entry) : Register → State → Prop where
  /-- The root is made. -/
  | root {r : Register} (hcourse : Course options lexemes look {} r)
      (hmatches : r.Matches options lexemes (State.root options file lexemes)) :
      Follows options file lexemes look r (State.root options file lexemes)
  /-- The recognizer does a step, and the course goes on. -/
  | step {r r' : Register} {s : State} (h : Follows options file lexemes look r s)
      (hcontinues : ¬ s.Finished) (hcourse : Course options lexemes look r r')
      (hmatches : r'.Matches options lexemes s.step) :
      Follows options file lexemes look r' s.step

variable {options : Options} {file : String} {lexemes : List Lexeme}
variable {look look' : EntryId → Option Entry} {r : Register} {s : State}

theorem Follows.mono (hlook : SameStarts look look') (h : r.Follows options file lexemes look s) :
    r.Follows options file lexemes look' s := by
  induction h with
  | root hcourse hmatches => exact .root (hcourse.mono hlook) hmatches
  | step _ hcontinues hcourse hmatches ih => exact .step ih hcontinues (hcourse.mono hlook) hmatches

theorem Follows.matches (h : r.Follows options file lexemes look s) :
    r.Matches options lexemes s := by
  cases h with
  | root _ hmatches => exact hmatches
  | step _ _ _ hmatches => exact hmatches

/-- Every course may go on from a register that agrees with a state. -/
theorem Matches.bookedAt (h : r.Matches options lexemes s)
    (hs : State.Reachable options file lexemes s) :
    s.draft.BookedAt options lexemes r s.cursor := by
  refine ⟨⟨?_, .inl hs.agrees.arena, ?_⟩, hs.reaches, ?_⟩
  · rw [h.examined]
    exact h.queue
  · rw [h.examined]
    exact ⟨r, .refl, h.records, rfl, h.outside, h.barred⟩
  · rw [h.examined]
    exact h.behind

/-- Where everything is booked the course has got to a register that agrees. -/
theorem exists_matches (h : s.draft.BookedAt options lexemes r s.cursor) :
    ∃ r' : Register, Course options lexemes s.draft.builder.entry? r r' ∧
      r'.Matches options lexemes s := by
  obtain ⟨r', hcourse, hrecords, hcount, houtside, hbarred⟩ := h.booked.accounted
  have hqueue := h.booked.queue
  have hbehind := h.behind
  rw [← hcount] at hqueue hbehind
  exact ⟨r', hcourse, hcount.symm, hqueue, hbehind, hbarred, houtside, hrecords⟩

/-- Entries of a builder begin where they begin in the finished outline, but for
    the root. -/
theorem SameStarts.finish {b : Builder} (hroot : b.hasRoot = true) (eof : Location) :
    SameStarts b.entry? (b.finish eof).get? := by
  intro id e hid he
  have hgrows : b.Grows (fun _ => False) (b.popTimes eof b.unclosed) := .popTimes b eof _
  obtain ⟨e', he', hkeeps⟩ := hgrows.kept id e he
  refine ⟨e', ?_, hkeeps.start⟩
  rw [Builder.get?_finish hroot, if_neg hid]
  exact he'

end Register

/-! ### Runs -/

namespace State

section Run

variable (options : Options) (file : String) (lexemes : List Lexeme)

/-- A register follows the first steps of the recognizer, and its course has
    come by all of them. -/
theorem exists_follows_iterate (n : Nat)
    (hbefore : ∀ m < n, ¬ (State.step^[m] (root options file lexemes)).Finished) :
    let look := (State.step^[n] (root options file lexemes)).draft.builder.entry?
    ∃ r : Register,
      r.Follows options file lexemes look (State.step^[n] (root options file lexemes)) ∧
        ∀ m ≤ n, ∃ earlier : Register,
          earlier.Follows options file lexemes look
              (State.step^[m] (root options file lexemes)) ∧
            Register.Course options lexemes look earlier r := by
  induction n with
  | zero =>
    obtain ⟨r, hcourse, hmatches⟩ := Register.exists_matches (bookedAt_root options file lexemes)
    have hfollows : r.Follows options file lexemes _ (root options file lexemes) :=
      .root hcourse hmatches
    refine ⟨r, hfollows, ?_⟩
    intro m hm
    obtain rfl := Nat.le_zero.mp hm
    exact ⟨r, hfollows, .refl⟩
  | succ n ih =>
    have hbefore' : ∀ m < n, ¬ (State.step^[m] (root options file lexemes)).Finished :=
      fun m hm => hbefore m (Nat.lt_succ_of_lt hm)
    have hcontinues := hbefore n (Nat.lt_succ_self n)
    have hreachable := Reachable.root.iterate n hbefore'
    obtain ⟨r, hfollows, hall⟩ := ih hbefore'
    -- The entries that there were begin after the step where they began before.
    have hlook := Register.SameStarts.of_grows
      (PascalOutline.Acts.grows (hreachable.acts_step hcontinues)).1
    obtain ⟨r', hcourse, hmatches⟩ := Register.exists_matches
      (hreachable.bookedAt_step hcontinues (hfollows.matches.bookedAt hreachable))
    have hnext := Register.Follows.step (hfollows.mono hlook) hcontinues hcourse hmatches
    rw [← Function.iterate_succ_apply' State.step n] at hcourse hnext hlook
    refine ⟨r', hnext, ?_⟩
    intro m hm
    rcases Nat.lt_or_eq_of_le hm with hlt | rfl
    · obtain ⟨earlier, hearlier, hthen⟩ := hall m (Nat.le_of_lt_succ hlt)
      exact ⟨earlier, hearlier.mono hlook, (hthen.mono hlook).trans hcourse⟩
    · exact ⟨r', hnext, .refl⟩

variable {options file lexemes}

/-- The reachable states are those of the run, up to its end. -/
theorem Reachable.exists_iterate {s : State} (h : Reachable options file lexemes s) {n : Nat}
    (hend : (State.step^[n] (State.root options file lexemes)).Finished) :
    ∃ m ≤ n, s = State.step^[m] (State.root options file lexemes) := by
  induction h with
  | root => exact ⟨0, Nat.zero_le n, rfl⟩
  | step _ hcontinues ih =>
    obtain ⟨m, hm, rfl⟩ := ih
    have hne : m ≠ n := fun heq => hcontinues (heq ▸ hend)
    refine ⟨m + 1, Nat.lt_of_le_of_ne hm hne, ?_⟩
    rw [Function.iterate_succ_apply']

/-- A register follows the whole run, and its course has come by every state. -/
theorem exists_follows_run (options : Options) (file : String) (lexemes : List Lexeme) :
    let last := (root options file lexemes).run
    ∃ r : Register, r.Follows options file lexemes last.draft.builder.entry? last ∧
      ∀ s, Reachable options file lexemes s → ∃ earlier : Register,
        earlier.Follows options file lexemes last.draft.builder.entry? s ∧
          Register.Course options lexemes last.draft.builder.entry? earlier r := by
  intro last
  obtain ⟨n, hrun, hend, hbefore⟩ := (root options file lexemes).exists_run_eq_iterate
  obtain ⟨r, hfollows, hall⟩ := exists_follows_iterate options file lexemes n hbefore
  rw [← hrun] at hfollows hall
  refine ⟨r, hfollows, ?_⟩
  intro s hs
  obtain ⟨m, hm, rfl⟩ := hs.exists_iterate (hrun ▸ hend)
  exact hall m hm

/-- The number of lexemes that were examined never goes down. -/
theorem Reachable.examined_le_step {s : State} (h : Reachable options file lexemes s)
    (hcontinues : ¬ s.Finished) : s.draft.examined ≤ s.step.draft.examined := by
  obtain ⟨r, _, hmatches⟩ := Register.exists_matches h.bookedAt
  obtain ⟨r', hcourse, hmatches'⟩ := Register.exists_matches
    (h.bookedAt_step hcontinues (hmatches.bookedAt h))
  rw [hmatches.examined, hmatches'.examined]
  exact hcourse.count_le

end Run

end State

/-- Every documentation comment is delivered once. One register follows the
    recognizer through all its steps: each lexeme is examined once and in source
    order, and never before the cursor has got to it. What becomes of a comment
    that is examined is told by the turn of the register: it goes to the item
    that it trails or in which it stands; or it waits, together with the comments
    that wait already, until all of them go to the entries that begin next or to
    one entry before them, or are dropped; or it is dropped at once because no
    item stands before it. At the end the ledger has every comment in one
    delivery, no delivery goes to two declarations, and the documentation of
    every entry is strung together from what was delivered to it. -/
theorem documentation_delivered_once (options : Options) (file source : String) :
    let lexemes := Lexer.lex options.nestedComments source
    let draft := (State.ofSource options file lexemes).draft
    let outline := (scan options file source).outline
    ∃ last : Register,
      (∀ s, State.Reachable options file lexemes s →
        s.draft.examined ≤ s.cursor.lexemeIndex ∧
        (¬ s.Finished → s.draft.examined ≤ s.step.draft.examined) ∧
        ∃ r : Register, r.Follows options file lexemes outline.get? s ∧
          Register.Course options lexemes outline.get? r last) ∧
      last.Records options lexemes draft ∧ last.count = lexemes.length ∧
      draft.examined = lexemes.length ∧ draft.unexamined = [] ∧ draft.pending = none ∧
      last.ledger.waiting = [] ∧ last.ledger.Explains options file source ∧
      ∀ id e, outline.get? id = some e →
        Strung (commentTexts options lexemes (commentsOf last.ledger.deliveries id)) e.doc := by
  intro lexemes draft outline
  obtain ⟨r, hfollows, hall⟩ := State.exists_follows_run options file lexemes
  have hreachable := State.reachable_run options file lexemes
  -- What is left at the end of the source is examined after the last step.
  obtain ⟨⟨last, hfinish, hrecords, hcount, _, _⟩, hexamined, hunexamined, hpending⟩ :=
    State.accounted_finish (hfollows.matches.bookedAt hreachable) hreachable.agrees.arena
  have haccounts := hrecords.accounts
  rw [hcount] at haccounts
  have hexplains := haccounts.explains hpending
  -- The entries of the finished outline begin where they were made.
  have hroot : draft.builder.hasRoot = true :=
    (hreachable.agrees.arena.of_sameFrame (State.documents_finish _).sameFrame).hasRoot
  have hlast : Register.SameStarts draft.builder.entry? outline.get? := .finish hroot _
  have hdocs : (State.root options file lexemes).run.draft.Documents draft :=
    State.documents_finish _
  have hgrows : (State.root options file lexemes).run.draft.builder.Grows (fun _ => False)
      draft.builder := .of_documents hdocs
  have hlook := Register.SameStarts.of_grows hgrows
  refine ⟨last, ?_, hrecords, hcount, hexamined, hunexamined, hpending,
    haccounts.waiting_eq_nil hpending, hexplains, ?_⟩
  · intro s hs
    obtain ⟨earlier, hearlier, hthen⟩ := hall s hs
    have hcourse : Register.Course options lexemes draft.builder.entry? earlier last :=
      (hthen.mono hlook).trans hfinish
    exact ⟨hs.bookedAt.behind, hs.examined_le_step, earlier, (hearlier.mono hlook).mono hlast,
      hcourse.mono hlast⟩
  · intro id e he
    rw [hexplains.docs id e he]
    exact strung_delivered options lexemes last.ledger.deliveries id

end PascalOutline
