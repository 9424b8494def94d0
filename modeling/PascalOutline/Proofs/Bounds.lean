import PascalOutline.Proofs.Bounds.Draft
import PascalOutline.Proofs.Bounds.Reader
import PascalOutline.Proofs.Documentation
import PascalOutline.Scan

/-! # No operation outside of its domain

  On a source of fewer than 2 ^ 32 - 2 bytes no partial operation is used outside
  of its domain, neither while the source is scanned nor while it is read as a
  signature. Every function that has such operations is restated with the
  operations checked, and the restatement gives what the function gives:

  - the lexer, and the cutting of documentation out of comments;
  - the readers of phrases, at every cursor over the tokens;
  - whatever is done to a draft, after any sequence of acts from the beginning of
    the source on, and so between and within the steps of a run;
  - the count of parentheses in variant parts, in every state of a run, and the
    end of the run.
-/

namespace PascalOutline

open Lexer

/-! ### Text -/

/-- On the text of a source no partial operation is used outside of its domain. -/
structure TextInBounds (nested : Bool) (source : String) : Prop where
  /-- The lexer. -/
  lexemes : checkedLexFrom nested .start source.toList = some (lex nested source)
  /-- The search for closers of the other style in a comment. -/
  strays : ∀ l ∈ lex nested source, ∀ k style, l.comment? = some k → k.style = .block style →
    style.other.checkedStrayFrom 0 0 0 none k.body = some (style.other.strayCloserAt k.body)
  /-- The texts of lexemes. -/
  slices : ∀ l ∈ lex nested source,
    Span.slice? ⟨l.start.offset, l.stop.offset⟩ source.toList = some l.text.toList
  /-- The documentation in comments. -/
  docs : ∀ options, ∀ l ∈ lex nested source,
    DocComment.checkedOfLexeme? options source.toList l = some (DocComment.ofLexeme? options l)
  /-- The reader of single bytes: what lies ahead, its line and its column. -/
  reader : ∀ n, let r := (ByteReader.ofString source).steps n
    r.location.offset ≤ (ByteReader.bytesOf source).length ∧
      r.ahead = (ByteReader.bytesOf source).drop r.location.offset ∧
      r.location.line ≤ Word32.max ∧ r.location.column ≤ Word32.max

section Source

variable {source : String} (h : source.utf8ByteSize < UInt32.size - 2)
include h

theorem length_toList_lt : source.toList.length + 1 < Word32.max := by
  have hbytes := length_le_byteLength source.toList
  rw [← utf8ByteSize_eq_byteLength] at hbytes
  have hmax : Word32.max = UInt32.size - 1 := rfl
  omega

theorem length_lex_lt (nested : Bool) : (lex nested source).length + 1 < Word32.max := by
  have hlexemes := length_lexFrom_le nested .start source.toList
  have hlength := length_toList_lt h
  show (lexFrom nested .start source.toList).length + 1 < Word32.max
  omega

theorem fits_of_mem_lex {nested : Bool} {l : Lexeme} (hl : l ∈ lex nested source) :
    l.Fits source := by
  refine ⟨standsAt_of_mem_lex hl, ?_⟩
  have hline : l.stop.line ≤ 1 + source.toList.length := line_stop_le_of_mem_lexFrom hl
  have hlength := length_toList_lt h
  omega

theorem textInBounds (nested : Bool) : TextInBounds nested source := by
  have hlength := length_toList_lt h
  have hfirst : Location.start.line + source.toList.length ≤ Word32.max := by
    show 1 + source.toList.length ≤ Word32.max
    omega
  constructor
  case lexemes => exact checkedLexFrom_eq nested hfirst hfirst (by omega)
  case strays =>
    intro l hl k style hk _
    obtain ⟨pre, post, hstands⟩ := standsAt_of_mem_lex hl
    obtain ⟨hchars, _⟩ := hstands.comment k hk
    -- The body is a part of the source.
    have hbody : k.body.length ≤ source.toList.length := by
      rw [hstands.text, hchars, Comment.chars]
      simp only [List.length_append]
      omega
    exact style.other.checkedStrayFrom_eq 0 0 (by omega)
  case slices =>
    intro l hl
    obtain ⟨pre, post, hstands⟩ := standsAt_of_mem_lex hl
    exact hstands.slice?
  case docs =>
    intro options l hl
    obtain ⟨pre, post, hstands⟩ := standsAt_of_mem_lex hl
    exact DocComment.checkedOfLexeme?_eq options hstands
  case reader =>
    intro n r
    have hwithin : r.Within (ByteReader.bytesOf source) :=
      (ByteReader.within_ofString source).steps n
    have hbytes := ByteReader.length_bytesOf source
    have hoffset := hwithin.offset
    have hline := hwithin.line
    have hcolumn := hwithin.column
    have hmax : Word32.max = UInt32.size - 1 := rfl
    exact ⟨hoffset, hwithin.ahead, by omega, by omega⟩

/-! ### Readers -/

theorem length_tokens_lt (nested : Bool) :
    (Cursor.ofLexemes (lex nested source)).tokens.length < Word32.max := by
  -- Tokens are the lexemes that are no trivia.
  have hfilter := congrArg List.length (map_lexeme_ofLexemesFrom 0 false (lex nested source))
  rw [List.length_map] at hfilter
  have hle := List.length_filter_le (fun l => !l.isTrivia) (lex nested source)
  have hlexemes := length_lex_lt h nested
  show (Token.ofLexemesFrom 0 false (lex nested source)).length < Word32.max
  omega

theorem readsInBounds_of_reaches {nested : Bool} {c : Cursor}
    (hc : (Cursor.ofLexemes (lex nested source)).Reaches c) : ReadsInBounds c.ahead := by
  have htokens := length_tokens_lt h nested
  apply readsInBounds
  rw [← hc.tokens_eq, Cursor.tokens, List.length_append] at htokens
  omega

/-! ### Drafts -/

theorem fits_initial (options : Options) (file : String) (nested : Bool) :
    (State.initial options file (lex nested source)).draft.Fits source := by
  constructor
  case pending => exact fun _ hp => by cases hp
  case queue => exact fun l hl => fits_of_mem_lex h hl
  case stack => exact fun _ hid => by cases hid

theorem draftInBounds {options : Options} {file : String} {nested : Bool} {c : Cursor} {d : Draft}
    (hacts : Acts ((State.initial options file (lex nested source)).cursor,
      (State.initial options file (lex nested source)).draft) (c, d)) :
    d.InBounds source (lex nested source) c := by
  have hfits : d.Fits source := Acts.fits hacts (fits_initial h options file nested) (.refl _)
  exact hfits.inBounds (Acts.grows hacts).2

end Source

/-! ### States -/

theorem BlockChange.depth_le {blocks blocks' : List Block} (h : BlockChange blocks blocks')
    {bound : Nat} (hblocks : ∀ block ∈ blocks, block.depth ≤ bound) :
    (∀ block ∈ blocks', block.depth ≤ bound + 1) ∧
      (blocks'.length < blocks.length → ∀ block ∈ blocks', block.depth ≤ bound) := by
  cases h with
  | @rescoped id scope scope' rest _ hdepth =>
    refine ⟨?_, fun hshorter => absurd hshorter (Nat.lt_irrefl _)⟩
    intro block hblock
    rcases List.mem_cons.mp hblock with rfl | hblock
    · have hbefore := hblocks (.entry id scope) List.mem_cons_self
      exact Nat.le_trans hdepth (Nat.succ_le_succ hbefore)
    · exact Nat.le_succ_of_le (hblocks block (List.mem_cons_of_mem _ hblock))
  | @opened new below rest _ hdepth =>
    refine ⟨?_, fun hshorter => absurd hshorter (by simp)⟩
    intro block hblock
    rcases List.mem_cons.mp hblock with rfl | hblock
    · rw [hdepth]
      exact Nat.zero_le _
    · exact Nat.le_succ_of_le (hblocks block hblock)
  | closed shut _ =>
    have hrest : ∀ block ∈ blocks', block.depth ≤ bound := by
      intro block hblock
      exact hblocks block (List.mem_append_right shut hblock)
    exact ⟨fun block hblock => Nat.le_succ_of_le (hrest block hblock), fun _ => hrest⟩

namespace State

/-- A token inside of a class-like type that is neither a keyword nor a name, with
    a checked count of parentheses. -/
def checkedMemberSymbolStep (s : State) (decls : DeclPart) : Option State :=
  match decls with
  | .variant depth =>
    if s.cursor.atSymbol "(" then
      (Word32.add? depth 1).map fun inner => (s.setDecls (.variant inner)).next
    else if s.cursor.atSymbol ")" then some (s.setDecls (.variant (depth - 1))).next
    else some s.next
  | _ => some s.next

/-- Examines what is left of the source and notes what was left open, with a
    checked count. -/
def checkedFinish (source : String) (s : State) : Option State :=
  (Draft.checkedFinish source s.draft s.cursor).bind fun draft =>
    let noted :=
      if !s.stopped && 1 < s.openEntries then
        (Word32.sub? s.openEntries 1).map fun inside => draft.log (.textEndedInside inside)
      else some draft
    noted.map fun draft =>
      let unclosed := draft.builder.unclosed
      { s with draft := draft.logIf (0 < unclosed) (.entriesLeftOpen unclosed) }

/-- In a state between two steps no partial operation is used outside of its
    domain, those on the draft aside. -/
structure InBounds (source : String) (s : State) : Prop where
  /-- Parentheses in the variant part of the innermost block. -/
  variants : ¬ s.Finished → ∀ id kind visibility decls rest,
    s.blocks = .entry id (.container kind visibility decls) :: rest →
      s.checkedMemberSymbolStep decls = some (s.memberSymbolStep decls)
  /-- The entries that blocks hold open are there. -/
  blocks : ∀ id scope, .entry id scope ∈ s.blocks → id < s.draft.builder.entries.size
  /-- So are those that trailing documentation belongs to. -/
  lastItem : ∀ item, s.draft.lastItem = some item → ∀ id ∈ item.ids,
    id < s.draft.builder.entries.size
  /-- So is the one that documentation belongs to which is too far from what follows. -/
  orphanage : ∀ id ∈ s.draft.orphanage, id < s.draft.builder.entries.size
  /-- The end of the source. -/
  finish : s.checkedFinish source = some s.finish
  /-- The outline. -/
  outline : s.finish.draft.builder.checkedFinish s.finish.cursor.eof = some s.finish.outline

theorem Agrees.lt_size_of_mem_orphanage {s : State} (h : s.Agrees) {id : EntryId}
    (hid : id ∈ s.draft.orphanage) : id < s.draft.builder.entries.size := by
  obtain ⟨last, horphanage, hlast⟩ := Draft.exists_orphanage h.arena
  rw [horphanage] at hid
  rwa [List.mem_singleton.mp hid]

theorem checkedMemberSymbolStep_eq (s : State) {decls : DeclPart}
    (h : decls.depth < Word32.max) :
    s.checkedMemberSymbolStep decls = some (s.memberSymbolStep decls) := by
  cases decls with
  | variant depth =>
    unfold checkedMemberSymbolStep memberSymbolStep
    dsimp only
    split
    · rw [Word32.add?_of_le h]
      rfl
    · split <;> rfl
  | _ => rfl

theorem checkedFinish_eq {source : String} {s : State} (h : s.draft.Fits source) :
    s.checkedFinish source = some s.finish := by
  rw [checkedFinish, (h.finish s.cursor).1, Option.bind_some]
  dsimp only
  split
  · next hopen =>
    have hentries : 1 ≤ s.openEntries := by
      have hmore := (Bool.and_eq_true_iff.mp hopen).2
      exact Nat.le_of_lt (of_decide_eq_true hmore)
    rw [Word32.sub?_of_le hentries]
    simp only [finish, Draft.logIf, hopen, if_true, Option.map_some]
  · next hclosed => simp only [finish, Draft.logIf, hclosed, Option.map_some]; rfl

section Reachable

variable {options : Options} {file : String} {lexemes : List Lexeme} {s : State}

theorem Reachable.acts_initial (h : Reachable options file lexemes s) :
    (initial options file lexemes).Acts s :=
  Relation.ReflTransGen.trans (acts_root options file lexemes) h.acts

/-- A variant part has no more open parentheses than tokens were passed: one
    parenthesis is one token. -/
theorem Reachable.depth_le (h : Reachable options file lexemes s) :
    s.stopped = false → ∀ block ∈ s.blocks, block.depth ≤ s.cursor.pos := by
  induction h with
  | root =>
    intro _ block hblock
    rw [blocks_root] at hblock
    rw [List.mem_singleton.mp hblock]
    exact Nat.zero_le _
  | @step s _ hcontinues ih =>
    intro hrunning
    have heffect := effect_step_of_not_finished hcontinues
    obtain ⟨hopened, hclosed⟩ := heffect.blocks.depth_le (ih (s.not_finished_iff.mp hcontinues).2)
    rcases heffect.progress with hstopped | hpasses | ⟨hcursor, hshorter⟩
    · rw [hrunning] at hstopped
      cases hstopped
    · intro block hblock
      exact Nat.le_trans (hopened block hblock) hpasses.pos_lt
    · rw [hcursor]
      exact hclosed hshorter

end Reachable

theorem Reachable.inBounds {options : Options} {file source : String} {nested : Bool}
    (hsource : source.utf8ByteSize < UInt32.size - 2) {s : State}
    (h : Reachable options file (lex nested source) s) : s.InBounds source := by
  have hacts := h.acts_initial
  have hreaches : (Cursor.ofLexemes (lex nested source)).Reaches s.cursor :=
    (PascalOutline.Acts.grows hacts).2
  have hfits : s.draft.Fits source :=
    PascalOutline.Acts.fits hacts (fits_initial hsource options file nested) (.refl _)
  constructor
  case variants =>
    intro hcontinues id kind visibility decls rest hblocks
    have hdepth := h.depth_le (s.not_finished_iff.mp hcontinues).2
      (.entry id (.container kind visibility decls)) (by rw [hblocks]; exact List.mem_cons_self)
    have htokens := length_tokens_lt hsource nested
    rw [← hreaches.tokens_eq, Cursor.tokens, List.length_append, List.length_reverse] at htokens
    apply checkedMemberSymbolStep_eq
    have hpos : decls.depth ≤ s.cursor.past.length := hdepth
    omega
  case blocks => exact fun _ _ hblock => h.agrees.lt_size hblock
  case lastItem =>
    intro item hitem
    exact (h.bookedAt.booked.accounted.lastItem hitem).2.lt_size
  case orphanage => exact fun _ hid => h.agrees.lt_size_of_mem_orphanage hid
  case finish => exact checkedFinish_eq hfits
  case outline =>
    have hopen : s.finish.draft.builder.Open :=
      hfits.stack.of_sameFrame (documents_finish s).sameFrame
    exact hopen.checkedFinish_eq s.finish.cursor.eof

end State

/-! ### Whole sources -/

/-- Neither a scan of a source nor the reading of it as a signature uses a partial
    operation outside of its domain. -/
structure ScansInBounds (options : Options) (file source : String) : Prop where
  /-- The text, whether comments nest or not. -/
  text : ∀ nested, TextInBounds nested source
  /-- The readers of phrases, at every cursor over the tokens. -/
  readers : ∀ nested c, (Cursor.ofLexemes (lex nested source)).Reaches c → ReadsInBounds c.ahead
  /-- Whatever is done to a draft after any acts. -/
  drafts : ∀ c d,
    let start := State.initial options file (lex options.nestedComments source)
    Acts (start.cursor, start.draft) (c, d) →
      d.InBounds source (lex options.nestedComments source) c
  /-- Every state of a run comes from acts. -/
  acts : ∀ s, State.Reachable options file (lex options.nestedComments source) s →
    (State.initial options file (lex options.nestedComments source)).Acts s
  /-- The states of a run. -/
  states : ∀ s, State.Reachable options file (lex options.nestedComments source) s →
    s.InBounds source
  /-- A scan gives the outline of the last of these states. -/
  result : ∃ s, State.Reachable options file (lex options.nestedComments source) s ∧ s.Finished ∧
    (scan options file source).outline = s.finish.outline

/-- **No operation outside of its domain**: on every source of fewer than
    2 ^ 32 - 2 bytes, whatever the options and the name of the file. -/
theorem scansInBounds (options : Options) (file source : String)
    (h : source.utf8ByteSize < UInt32.size - 2) : ScansInBounds options file source := by
  constructor
  case text => exact textInBounds h
  case readers => exact fun _ _ hc => readsInBounds_of_reaches h hc
  case drafts =>
    intro c d start hacts
    exact draftInBounds h hacts
  case acts => exact fun _ hs => hs.acts_initial
  case states => exact fun _ hs => hs.inBounds h
  case result =>
    obtain ⟨_, _, hfinished, _⟩ := State.exists_run_eq_iterate
      (State.root options file (lex options.nestedComments source))
    exact ⟨_, State.reachable_run _ _ _, hfinished, rfl⟩

/-- A record with a variant part, and a comment before one of its fields. -/
theorem scansInBounds_of_variants :
    let source :=
      "unit u; interface type r = record case b: byte of 0: (\x7b! n \x7d n: byte) end; end."
    source.utf8ByteSize < UInt32.size - 2 ∧ ScansInBounds {} "u.pas" source := by
  intro source
  have hsize : source.utf8ByteSize < UInt32.size - 2 := by decide +kernel
  exact ⟨hsize, scansInBounds {} "u.pas" source hsize⟩

end PascalOutline
