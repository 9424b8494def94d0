import PascalOutline.Proofs.Recovery
import PascalOutline.Proofs.Scan

/-! # Where a routine ends

  The body of a routine is not parsed. Only the words that open a block and the
  `end` that closes it are counted, and inside of assembler code nothing but
  `end` is. So a routine ends with its own `end` when the statements before it
  are balanced (`Balanced`).

  The argument is an induction on the balanced statements. Each token of them
  takes one step (`Walk`), and after the last one the same blocks are open as
  before the first. Nothing is added to the outline on the way but the texts of
  comments.
-/

namespace PascalOutline

/-! ### Balanced statements -/

/-- Whether a keyword opens a block of statements. -/
def Keyword.opensStatements : Keyword → Bool
  | .begin | .try_ | .case_ | .record => true
  | _ => false

/-- Whether a keyword has a meaning among statements. -/
def Keyword.structuresStatements (kw : Keyword) : Bool :=
  kw.opensStatements || kw = .asm || kw = .end_ || kw.beginsPart

/-- Statements in which every block has its `end`. -/
inductive Balanced : List Token → Prop where
  /-- No statement. -/
  | nil : Balanced []
  /-- A token without a meaning of its own. -/
  | plain {t : Token} {ts : List Token}
      (hplain : t.isKeywordThat Keyword.structuresStatements = false) (hrest : Balanced ts) :
      Balanced (t :: ts)
  /-- A block of statements. -/
  | block {opener stop : Token} {inner ts : List Token}
      (hopener : opener.isKeywordThat Keyword.opensStatements = true) (hinner : Balanced inner)
      (hstop : stop.isKeyword .end_ = true) (hrest : Balanced ts) :
      Balanced (opener :: (inner ++ stop :: ts))
  /-- Assembler code, in which all other keywords are plain text. -/
  | asm {opener stop : Token} {code ts : List Token} (hopener : opener.isKeyword .asm = true)
      (hcode : ∀ t ∈ code, t.isKeyword .end_ = false) (hstop : stop.isKeyword .end_ = true)
      (hrest : Balanced ts) : Balanced (opener :: (code ++ stop :: ts))

/-- No `end` among some tokens has a point right behind it. -/
def NoFinalEnd (ts : List Token) : Prop :=
  ts.IsChain fun t next => t.isKeyword .end_ = true → next.isSymbol "." = false

instance (ts : List Token) : Decidable (NoFinalEnd ts) :=
  inferInstanceAs (Decidable (ts.IsChain _))

namespace NoFinalEnd

variable {stop : Token} {ts us more : List Token}

theorem of_part (h : NoFinalEnd us) (hpart : ts <:+: us) : NoFinalEnd ts :=
  List.IsChain.infix h hpart

/-- Behind an `end` stands no point, whatever more tokens there are. -/
theorem head (h : NoFinalEnd (stop :: (ts ++ more.take 1))) (hstop : stop.isKeyword .end_ = true) :
    (ts ++ more).head?.any (Token.isSymbol · ".") = false := by
  have hhead : (ts ++ more).head? = (ts ++ more.take 1).head? := by
    cases ts with
    | nil => cases more <;> rfl
    | cons t ts => rfl
  rw [hhead]
  cases hnext : (ts ++ more.take 1).head? with
  | none => rfl
  | some next =>
    obtain ⟨others, heq⟩ := List.head?_eq_some_iff.mp hnext
    rw [NoFinalEnd, heq] at h
    exact (List.isChain_cons_cons.mp h).1 hstop

/-- The own `end` of a block may follow: a keyword is no point. -/
theorem concat (h : NoFinalEnd ts) (hstop : stop.isKeyword .end_ = true) :
    NoFinalEnd (ts ++ [stop]) := by
  refine List.isChain_append.mpr ⟨h, List.isChain_singleton _, ?_⟩
  intro last _ next hnext _
  obtain rfl : stop = next := Option.some.inj hnext
  have hkeyword : stop.keyword? = some .end_ := of_decide_eq_true hstop
  rw [← Bool.not_eq_true]
  intro hsymbol
  rw [Cursor.keyword?_of_isSymbol hsymbol] at hkeyword
  cases hkeyword

end NoFinalEnd

namespace State

/-! ### Walking over tokens -/

/-- In `n` steps the recognizer gets from `s` to `t` and passes one token with
    each; no entry is made, opened or closed. -/
structure Walk (n : Nat) (s t : State) : Prop where
  /-- So many steps lead there. -/
  steps : step^[n] s = t
  /-- As many tokens are passed. -/
  cursor : t.cursor = s.cursor.advance n
  /-- At most documentation is added to entries. -/
  documents : s.draft.Documents t.draft
  /-- The recognizer goes on as before. -/
  stopped : t.stopped = s.stopped
  /-- A run takes these steps. -/
  run : s.stopped = false → n ≤ s.cursor.ahead.length → s.run = t.run

namespace Walk

variable {m n : Nat} {s t u : State}

theorem zero (s : State) : Walk 0 s s :=
  ⟨rfl, s.cursor.advance_zero.symm, .refl _, rfl, fun _ _ => rfl⟩

theorem trans (h : Walk m s t) (h' : Walk n t u) : Walk (m + n) s u := by
  constructor
  case steps => rw [Nat.add_comm, Function.iterate_add_apply, h.steps, h'.steps]
  case cursor => rw [h'.cursor, h.cursor, Cursor.advance_advance]
  case documents => exact h.documents.trans h'.documents
  case stopped => rw [h'.stopped, h.stopped]
  case run =>
    intro hrunning hlength
    rw [h.run hrunning (by omega)]
    refine h'.run (h.stopped.trans hrunning) ?_
    rw [h.cursor, Cursor.length_ahead_advance]
    omega

/-- A step that passes a token. -/
theorem one (hstep : s.step = t) (hcursor : t.cursor = s.cursor.next)
    (hdocuments : s.draft.Documents t.draft) (hstopped : t.stopped = s.stopped) : Walk 1 s t := by
  refine ⟨hstep, hcursor, hdocuments, hstopped, ?_⟩
  intro hrunning hlength
  rw [← hstep]
  refine run_eq_run_step ?_ hrunning
  rw [Cursor.atEnd, List.isEmpty_eq_false_iff]
  exact List.ne_nil_of_length_pos hlength

end Walk

/-! ### Steps inside of statements -/

section Steps

variable {s : State} {top : Block} {t stop : Token} {rest : List Block} {ts code more : List Token}

theorem keyword?_of_ahead (hahead : s.cursor.ahead = t :: ts) : s.cursor.keyword? = t.keyword? := by
  rw [Cursor.keyword?, Cursor.nthKeyword?, Cursor.nth?, hahead]
  rfl

/-- What admits nothing but statements is read as statements. -/
theorem step_eq_statementStep (hblocks : s.blocks = top :: rest)
    (hform : top.form.admits = [.statements, .assembler]) : s.step = s.statementStep := by
  unfold step
  rw [hblocks]
  match top with
  | .statements false => rfl
  | .statements true => cases hform
  | .entry id (.module unitPart decls) => cases hform
  | .entry id (.container kind visibility decls) => cases hform
  | .entry id (.routine .declarations decls) => cases hform
  | .entry id (.routine .body decls) => rfl
  | .entry id (.routine .asm decls) => cases hform
  | .entry id .statements => rfl

theorem walk_next (hstep : s.step = s.next) : Walk 1 s s.next ∧ s.next.blocks = s.blocks :=
  ⟨.one hstep rfl (.refl _) rfl, rfl⟩

/-- A token without a meaning is passed. -/
theorem walk_plain (hblocks : s.blocks = top :: rest)
    (hform : top.form.admits = [.statements, .assembler]) (hahead : s.cursor.ahead = t :: ts)
    (hplain : t.isKeywordThat Keyword.structuresStatements = false) :
    Walk 1 s s.next ∧ s.next.blocks = s.blocks := by
  refine walk_next ?_
  rw [step_eq_statementStep hblocks hform, statementStep, keyword?_of_ahead hahead]
  rw [Token.isKeywordThat] at hplain
  cases hkw : t.keyword? with
  | none => rfl
  | some kw =>
    rw [hkw] at hplain
    cases kw <;> first | rfl | cases hplain

/-- A word that opens a block of statements. -/
theorem exists_walk_opener (hblocks : s.blocks = top :: rest)
    (hform : top.form.admits = [.statements, .assembler]) (hahead : s.cursor.ahead = t :: ts)
    (hopener : t.isKeywordThat Keyword.opensStatements = true) :
    ∃ u, Walk 1 s u ∧ u.blocks = .statements false :: s.blocks := by
  obtain ⟨kw, hkw, hopens⟩ := (Option.any_eq_true _ _).mp hopener
  have hstep : s.step = s.next.openBlock (.statements false) := by
    rw [step_eq_statementStep hblocks hform, statementStep, keyword?_of_ahead hahead, hkw]
    cases kw <;> first | rfl | cases hopens
  exact ⟨_, .one hstep rfl (.refl _) rfl, rfl⟩

/-- The word `asm`. -/
theorem exists_walk_asm (hblocks : s.blocks = top :: rest)
    (hform : top.form.admits = [.statements, .assembler]) (hahead : s.cursor.ahead = t :: ts)
    (hopener : t.isKeyword .asm = true) :
    ∃ u, Walk 1 s u ∧ u.blocks = .statements true :: s.blocks := by
  have hkw : t.keyword? = some .asm := of_decide_eq_true hopener
  have hstep : s.step = s.next.openBlock (.statements true) := by
    rw [step_eq_statementStep hblocks hform, statementStep, keyword?_of_ahead hahead, hkw]
  exact ⟨_, .one hstep rfl (.refl _) rfl, rfl⟩

/-- At an `end` without a point the innermost block is closed. -/
theorem closeBlock_of_head (hahead : s.cursor.ahead = stop :: ts)
    (hpoint : ts.head?.any (Token.isSymbol · ".") = false) :
    s.cursor.nthIsSymbol 1 "." = false := by
  rw [Cursor.nthIsSymbol, Cursor.nth?, hahead, List.getElem?_cons_succ, ← List.head?_eq_getElem?,
    hpoint]

/-- The `end` of a nameless block, assembler code or not. -/
theorem walk_end {asm : Bool} (hblocks : s.blocks = .statements asm :: rest)
    (hahead : s.cursor.ahead = stop :: ts) (hstop : stop.isKeyword .end_ = true)
    (hpoint : ts.head?.any (Token.isSymbol · ".") = false) :
    ∃ u, Walk 1 s u ∧ u.blocks = rest := by
  have hkw : s.cursor.keyword? = some .end_ := by
    rw [keyword?_of_ahead hahead]
    exact of_decide_eq_true hstop
  have hstep : s.step
      = { ({ s with draft := s.draft.sync s.cursor } : State).next with blocks := rest } := by
    rw [step_of_end hkw hblocks, if_neg (by cases asm <;> decide), closeBlock]
    dsimp only
    rw [closeBlock_of_head hahead hpoint, if_neg Bool.false_ne_true, hblocks]
  exact ⟨_, .one hstep rfl (s.draft.documents_sync s.cursor) rfl, rfl⟩

/-- Assembler code is passed token by token. -/
theorem exists_walk_code (hblocks : s.blocks = .statements true :: rest)
    (hahead : s.cursor.ahead = code ++ more) (hcode : ∀ t ∈ code, t.isKeyword .end_ = false) :
    ∃ t, Walk code.length s t ∧ t.blocks = s.blocks := by
  induction code generalizing s with
  | nil => exact ⟨s, .zero s, rfl⟩
  | cons first code ih =>
    obtain ⟨hfirst, hothers⟩ := List.forall_mem_cons.mp hcode
    have hend : s.cursor.atKeyword .end_ = false := by
      rw [Cursor.atKeyword, keyword?_of_ahead hahead]
      exact hfirst
    have hstep : s.step = s.next := by
      unfold step
      rw [hblocks]
      dsimp only
      rw [if_pos rfl, asmStep, hend]
      rfl
    obtain ⟨hwalk, hsame⟩ := walk_next hstep
    have hnext : s.next.cursor.ahead = code ++ more := by
      rw [hwalk.cursor, Cursor.ahead_advance, hahead]
      rfl
    obtain ⟨t, hrest, hblocks'⟩ := ih (hsame.trans hblocks) hnext hothers
    refine ⟨t, ?_, hblocks'.trans hsame⟩
    rw [List.length_cons, Nat.add_comm]
    exact hwalk.trans hrest

/-- A nameless block is passed from its first word to its `end`, if its inside
    is. -/
theorem exists_walk_of_opened {asm : Bool} {u : State} {inner behind : List Token}
    (hahead : s.cursor.ahead = t :: (inner ++ stop :: behind)) (hopen : Walk 1 s u)
    (hopened : u.blocks = .statements asm :: s.blocks)
    (hinner : u.cursor.ahead = inner ++ stop :: behind →
      ∃ v, Walk inner.length u v ∧ v.blocks = u.blocks)
    (hstop : stop.isKeyword .end_ = true)
    (hpoint : behind.head?.any (Token.isSymbol · ".") = false) :
    ∃ v, Walk (inner.length + 2) s v ∧ v.blocks = s.blocks ∧ v.cursor.ahead = behind := by
  have hinside : u.cursor.ahead = inner ++ stop :: behind := by
    rw [hopen.cursor, Cursor.ahead_advance, hahead]
    rfl
  obtain ⟨v, hwalk, hsame⟩ := hinner hinside
  have hatStop : v.cursor.ahead = stop :: behind := by
    rw [hwalk.cursor, Cursor.ahead_advance, hinside, List.drop_left]
  obtain ⟨w, hend, hclosed⟩ := walk_end (hsame.trans hopened) hatStop hstop hpoint
  refine ⟨w, ?_, hclosed, ?_⟩
  · have hall := (hopen.trans hwalk).trans hend
    rwa [show 1 + inner.length + 1 = inner.length + 2 by omega] at hall
  · rw [hend.cursor, Cursor.ahead_advance, hatStop]
    rfl

/-! ### Balanced statements are passed -/

/-- After balanced statements the same blocks are open as before. The tokens
    behind them matter only as far as no final `end.` may come about. -/
theorem exists_walk_of_balanced {statements : List Token} (hbalanced : Balanced statements)
    (hblocks : s.blocks = top :: rest) (hform : top.form.admits = [.statements, .assembler])
    (hahead : s.cursor.ahead = statements ++ more)
    (hfinal : NoFinalEnd (statements ++ more.take 1)) :
    ∃ t, Walk statements.length s t ∧ t.blocks = s.blocks := by
  induction hbalanced generalizing s top rest more with
  | nil => exact ⟨s, .zero s, rfl⟩
  | @plain t ts hplain _ ih =>
    obtain ⟨hwalk, hsame⟩ := walk_plain hblocks hform hahead hplain
    have hnext : s.next.cursor.ahead = ts ++ more := by
      rw [hwalk.cursor, Cursor.ahead_advance, hahead]
      rfl
    obtain ⟨u, hrest, hblocks'⟩ := ih (hsame.trans hblocks) hform hnext
      (hfinal.of_part (List.suffix_cons _ _).isInfix)
    refine ⟨u, ?_, hblocks'.trans hsame⟩
    rw [List.length_cons, Nat.add_comm]
    exact hwalk.trans hrest
  | @block opener stop inner ts hopener _ hstop _ ihinner ihrest =>
    have hsplit : s.cursor.ahead = opener :: (inner ++ stop :: (ts ++ more)) := by
      rw [hahead]
      simp
    have hfinal : NoFinalEnd (opener :: (inner ++ stop :: (ts ++ more.take 1))) := by
      simpa using hfinal
    have hbehind : NoFinalEnd (stop :: (ts ++ more.take 1)) :=
      hfinal.of_part ⟨opener :: inner, [], by simp⟩
    -- The inside of the block is balanced too, with its `end` behind it.
    obtain ⟨u, hopen, hopened⟩ := exists_walk_opener hblocks hform hsplit hopener
    obtain ⟨v, hwalk, hsame, hafter⟩ := exists_walk_of_opened hsplit hopen hopened
      (fun hinside => ihinner hopened rfl hinside
        (hfinal.of_part ⟨[opener], ts ++ more.take 1, by simp⟩)) hstop (hbehind.head hstop)
    obtain ⟨w, hrest, hblocks'⟩ := ihrest (hsame.trans hblocks) hform hafter
      (hbehind.of_part (List.suffix_cons _ _).isInfix)
    refine ⟨w, ?_, hblocks'.trans hsame⟩
    have hall := hwalk.trans hrest
    rwa [show inner.length + 2 + ts.length = (opener :: (inner ++ stop :: ts)).length by
      simp; omega] at hall
  | @asm opener stop code ts hopener hcode hstop _ ihrest =>
    have hsplit : s.cursor.ahead = opener :: (code ++ stop :: (ts ++ more)) := by
      rw [hahead]
      simp
    have hfinal : NoFinalEnd (opener :: (code ++ stop :: (ts ++ more.take 1))) := by
      simpa using hfinal
    have hbehind : NoFinalEnd (stop :: (ts ++ more.take 1)) :=
      hfinal.of_part ⟨opener :: code, [], by simp⟩
    obtain ⟨u, hopen, hopened⟩ := exists_walk_asm hblocks hform hsplit hopener
    obtain ⟨v, hwalk, hsame, hafter⟩ := exists_walk_of_opened hsplit hopen hopened
      (fun hinside => exists_walk_code hopened hinside hcode) hstop (hbehind.head hstop)
    obtain ⟨w, hrest, hblocks'⟩ := ihrest (hsame.trans hblocks) hform hafter
      (hbehind.of_part (List.suffix_cons _ _).isInfix)
    refine ⟨w, ?_, hblocks'.trans hsame⟩
    have hall := hwalk.trans hrest
    rwa [show code.length + 2 + ts.length = (opener :: (code ++ stop :: ts)).length by
      simp; omega] at hall

/-! ### The end of the routine -/

variable {id : EntryId} {decls : DeclPart} {below : List Block} {semi : Token}

/-- The `end` of a routine, with the semicolon behind it. -/
theorem exists_step_end (hblocks : s.blocks = .entry id (.routine .body decls) :: below)
    (hahead : s.cursor.ahead = stop :: semi :: more) (hstop : stop.isKeyword .end_ = true)
    (hsemi : semi.isSymbol ";" = true) :
    s.step.cursor = s.cursor.advance 2 ∧ s.step.blocks = below ∧ s.step.stopped = s.stopped ∧
      ∃ b, s.draft.builder.Documents b ∧ (b.pop semi.stop).Documents s.step.draft.builder := by
  have hkw : s.cursor.keyword? = some .end_ := by
    rw [keyword?_of_ahead hahead]
    exact of_decide_eq_true hstop
  have hpoint : semi.isSymbol "." = false := by
    simp only [Token.isSymbol, Lexeme.isSymbol, Bool.and_eq_true, decide_eq_true_eq] at hsemi ⊢
    rw [hsemi.2]
    simp
  let passed : State := ({ s with draft := s.draft.sync s.cursor } : State).next
  have hnext : passed.cursor.ahead = semi :: more := by
    show s.cursor.next.ahead = _
    rw [Cursor.next, Cursor.ahead_advance, hahead]
    rfl
  have hdone : passed.cursor.passSymbol ";" = s.cursor.advance 2 := by
    have hat : passed.cursor.atSymbol ";" = true := by
      rw [Cursor.atSymbol, Cursor.nthIsSymbol, Cursor.nth?, hnext]
      exact hsemi
    rw [Cursor.passSymbol, hat]
    exact s.cursor.advance_advance 1 1
  have hplace : (s.cursor.advance 2).prevStop = semi.stop := by
    have hpeek : s.cursor.next.peek? = some semi := peek?_eq_some_iff.mpr ⟨more, hnext⟩
    rw [← s.cursor.advance_advance 1 1]
    exact Cursor.prevStop_next_of_peek? hpeek
  have hclose : s.step = passed.closeEntry id (.routine .body decls) := by
    have hform : (Block.entry id (.routine .body decls)).form ≠ .declarations := by
      intro h
      cases h
    rw [step_of_end hkw hblocks, if_neg hform, closeBlock]
    dsimp only
    rw [closeBlock_of_head hahead (by simpa using hpoint), if_neg Bool.false_ne_true]
    split
    next heq => cases hblocks.symm.trans heq
    next heq => cases hblocks.symm.trans heq; rfl
    next heq => cases hblocks.symm.trans heq
  -- A routine has no directives after its `end`, so its entry is only closed.
  have hstep : s.step = ((({ passed with blocks := passed.blocks.tail } : State).moveTo
      (s.cursor.advance 2)).build (·.pop semi.stop)).itemDone [id] := by
    rw [hclose, ← hplace, ← hdone]
    unfold closeEntry
    simp only [List.append_nil, Builder.modify_id]
  have hdone' : (((({ passed with blocks := passed.blocks.tail } : State).moveTo
      (s.cursor.advance 2)).build (·.pop semi.stop)).draft).Documents s.step.draft := by
    rw [hstep]
    exact Draft.documents_itemDone _ _ _
  refine ⟨by rw [hstep]; rfl, ?_, by rw [hstep]; rfl, _, s.draft.documents_sync s.cursor, hdone'⟩
  rw [hstep]
  show s.blocks.tail = below
  rw [hblocks]
  rfl

end Steps

/-- When balanced statements, an `end` and a semicolon come in the body of a
    routine, then the recognizer passes exactly these and closes exactly this
    routine, which ends with the semicolon. -/
theorem routine_ends_at_own_end {s : State} {id : EntryId} {decls : DeclPart}
    {below : List Block} {statements more : List Token} {stop semi : Token}
    (inBody : s.blocks = .entry id (.routine .body decls) :: below)
    (ahead : s.cursor.ahead = statements ++ stop :: semi :: more)
    (balanced : Balanced statements) (noFinalEnd : NoFinalEnd statements)
    (atEnd : stop.isKeyword .end_ = true) (atSemicolon : semi.isSymbol ";" = true) :
    let t := step^[statements.length + 1] s
    (s.stopped = false → s.run = t.run) ∧ t.stopped = s.stopped ∧
      t.cursor = s.cursor.advance (statements.length + 2) ∧
      t.blocks = below ∧ t.nextId = s.nextId ∧
      ∀ options file nested source, Reachable options file (Lexer.lex nested source) s →
        s.draft.builder.ClosesOnly t.draft.builder id semi.stop := by
  intro t
  obtain ⟨u, hwalk, hblocks⟩ := exists_walk_of_balanced balanced inBody rfl ahead
    (noFinalEnd.concat atEnd)
  have hatEnd : u.cursor.ahead = stop :: semi :: more := by
    rw [hwalk.cursor, Cursor.ahead_advance, ahead, List.drop_left]
  obtain ⟨hcursor, hbelow, hstopped, b, hbefore, hafter⟩ :=
    exists_step_end (hblocks.trans inBody) hatEnd atEnd atSemicolon
  have ht : t = u.step := by
    rw [← hwalk.steps]
    exact Function.iterate_succ_apply' step _ s
  have hplace : t.cursor = s.cursor.advance (statements.length + 2) := by
    rw [ht, hcursor, hwalk.cursor, Cursor.advance_advance]
  have hdocuments : s.draft.builder.Documents b :=
    Relation.ReflTransGen.trans hwalk.documents hbefore
  have hclosed : (b.pop semi.stop).Documents t.draft.builder := by
    rw [ht]
    exact hafter
  refine ⟨?_, ?_, hplace, ?_, ?_, ?_⟩
  · intro hrunning
    rw [hwalk.run hrunning (by rw [ahead, List.length_append]; omega), ht]
    refine run_eq_run_step ?_ (hwalk.stopped.trans hrunning)
    rw [Cursor.atEnd, hatEnd]
    rfl
  · rw [ht, hstopped, hwalk.stopped]
  · rw [ht, hbelow]
  · show t.draft.builder.nextId = s.draft.builder.nextId
    rw [hclosed.nextId, Builder.nextId, Builder.size_entries_pop]
    exact hdocuments.nextId
  · intro options file nested source hreachable
    obtain ⟨hordered, hspans⟩ := hreachable.spans
    obtain ⟨hstack, hgrounded⟩ := hreachable.agrees.stack_cons inBody Form.noConfusion
    -- Everything so far lies before the semicolon, the last token passed.
    have hprecedes : s.cursor.prevStop.Precedes semi.stop := by
      have hlast : t.cursor.prevStop = semi.stop := by
        have hpeek : u.cursor.next.peek? = some semi := by
          refine peek?_eq_some_iff.mpr ⟨more, ?_⟩
          rw [Cursor.next, Cursor.ahead_advance, hatEnd]
          rfl
        rw [ht, hcursor, ← u.cursor.advance_advance 1 1]
        exact Cursor.prevStop_next_of_peek? hpeek
      rw [← hlast, hplace]
      exact hordered.prevStop_precedes (s.cursor.reaches_advance _)
    exact (hspans.liesBefore.mono hprecedes).closesOnly hspans.arena hstack
      hgrounded.ne_nil hdocuments hclosed

/-- Assembler code inside of a `try` block. The `begin` in it opens nothing, so
    the routine ends with the third `end`. -/
theorem routine_ends_at_own_end_asm_in_try :
    let s := step^[2] (root {} "a.pas"
      (Lexer.lex false "procedure p; begin try asm begin end end end; var"))
    let t := step^[6] s
    s.blocks.head? = some (.entry 1 (.routine .body .none)) ∧
      s.run = t.run ∧ t.blocks = s.blocks.tail ∧ t.cursor = s.cursor.advance 7 ∧
      ∃ stop, s.draft.builder.ClosesOnly t.draft.builder 1 stop := by
  intro s t
  let first := root {} "a.pas"
    (Lexer.lex false "procedure p; begin try asm begin end end end; var")
  let token (i : Nat) : Token := s.cursor.ahead.getD i default
  obtain ⟨hhead, hahead, ⟨htry, hasm, hcode, hclose, hcloser, hstop, hsemi⟩, hfinal, hrunning,
      hbefore⟩ :
      s.blocks.head? = some (.entry 1 (.routine .body .none)) ∧
      s.cursor.ahead = [token 0, token 1, token 2, token 3, token 4] ++
        token 5 :: token 6 :: s.cursor.ahead.drop 7 ∧
      ((token 0).isKeywordThat Keyword.opensStatements = true ∧
        (token 1).isKeyword .asm = true ∧ (token 2).isKeyword .end_ = false ∧
        (token 3).isKeyword .end_ = true ∧ (token 4).isKeyword .end_ = true ∧
        (token 5).isKeyword .end_ = true ∧ (token 6).isSymbol ";" = true) ∧
      NoFinalEnd [token 0, token 1, token 2, token 3, token 4] ∧ s.stopped = false ∧
      ∀ m < 2, (step^[m] first).cursor.atEnd = false ∧ (step^[m] first).stopped = false := by
    decide +kernel
  have hreachable := Reachable.root.iterate 2
    (by simpa only [not_finished_iff] using hbefore)
  obtain ⟨below, hblocks⟩ := List.head?_eq_some_iff.mp hhead
  have hinner : Balanced (token 1 :: ([token 2] ++ [token 3])) :=
    .asm hasm (by simpa using hcode) hclose .nil
  obtain ⟨hrun, _, hcursor, hbelow, _, hcloses⟩ :=
    routine_ends_at_own_end hblocks hahead (.block htry hinner hcloser .nil) hfinal hstop hsemi
  refine ⟨hhead, hrun hrunning, ?_, hcursor, (token 6).stop, hcloses _ _ _ _ hreachable⟩
  rw [hblocks]
  exact hbelow

end State

end PascalOutline
