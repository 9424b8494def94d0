import Mathlib.Data.List.Infix
import PascalOutline.Proofs.Recognizer.Alike
import PascalOutline.Proofs.Recognizer.Lockstep
import PascalOutline.Proofs.Token.Render
import PascalOutline.Prototype
import PascalOutline.Scan

/-! # Signatures read on their own

  The signature of an entry is a text of its own, made from the tokens of a
  header up to its terminator. Read as a prototype it gives the entry back:
  the rendered tokens are the tokens of the header, and where its terminator
  stood the text ends. Only the directives after the terminator are lost.

  This is so for every routine and property of a scanned source, since every
  such entry shows a header that was read at some cursor of the source, and
  nothing that happens to an entry later changes what the header said.
-/

namespace PascalOutline

/-! ### The tokens of a signature -/

/-- The tokens of a source that the signature of an entry is made from: they
    follow each other, begin where the entry begins and spell its signature. -/
structure SignatureTokens (lexemes : List Lexeme) (e : Entry) (ts : List Token) : Prop where
  /-- They follow each other in the source. -/
  among : ts <:+: Token.ofLexemes lexemes
  /-- The first one stands where the entry begins. -/
  start : ts.head?.map Token.start = some e.start
  /-- They are rendered as the signature. -/
  text : Token.render ts = e.signature

instance (lexemes : List Lexeme) (e : Entry) (ts : List Token) :
    Decidable (SignatureTokens lexemes e ts) :=
  decidable_of_iff (ts <:+: Token.ofLexemes lexemes ∧ ts.head?.map Token.start = some e.start ∧
      Token.render ts = e.signature)
    ⟨fun h => ⟨h.1, h.2.1, h.2.2⟩, fun h => ⟨h.among, h.start, h.text⟩⟩

namespace Token

theorem renderRest_append (ts us : List Token) :
    renderRest (ts ++ us) = renderRest ts ++ renderRest us := by
  induction ts with
  | nil =>
    rw [List.nil_append, renderRest]
    exact (String.empty_append).symm
  | cons t ts ih =>
    rw [List.cons_append, renderRest, renderRest, ih, String.append_assoc, String.append_assoc,
      String.append_assoc]

theorem render_append {ts : List Token} (h : ts ≠ []) (us : List Token) :
    render (ts ++ us) = render ts ++ renderRest us := by
  obtain ⟨t, rest, rfl⟩ := List.exists_cons_of_ne_nil h
  rw [List.cons_append, render, render, renderRest_append, String.append_assoc]

/-- Tokens that are rendered as nothing are none. -/
theorem eq_nil_of_renderRest {ts : List Token} (htext : ∀ t ∈ ts, t.text ≠ "")
    (h : renderRest ts = "") : ts = [] := by
  cases ts with
  | nil => rfl
  | cons t ts =>
    rw [renderRest, String.append_eq_empty_iff, String.append_eq_empty_iff] at h
    exact absurd h.1.2 (htext t List.mem_cons_self)

/-- Two beginnings of a list of tokens that have the same text are equal. -/
theorem eq_of_render {ts us all : List Token} (htext : ∀ t ∈ all, t.text ≠ "") (hts : ts <+: all)
    (hus : us <+: all) (hne : ts ≠ []) (hle : ts.length ≤ us.length) (h : render ts = render us) :
    ts = us := by
  obtain ⟨more, rfl⟩ := List.prefix_of_prefix_length_le hts hus hle
  rw [render_append hne] at h
  have hmore : renderRest more = "" := by
    have hlist := congrArg String.toList h
    rw [String.toList_append, List.self_eq_append_right] at hlist
    exact String.toList_eq_nil_iff.mp hlist
  have hnil := eq_nil_of_renderRest (fun t ht => htext t (hus.subset (List.mem_append_right _ ht)))
    hmore
  rw [hnil, List.append_nil]

end Token

/-! ### They are unique -/

section Unique

variable {nested : Bool} {source : String}

theorem text_ne_empty_of_mem_ofLexemes {t : Token}
    (h : t ∈ Token.ofLexemes (Lexer.lex nested source)) : t.text ≠ "" := by
  have hmem : t ∈ (Cursor.ofLexemes (Lexer.lex nested source)).tokens := h
  obtain ⟨pre, post, hstands⟩ := standsAt_of_mem_lex (mem_lexemes_of_mem_tokens hmem)
  intro hempty
  exact hstands.nonempty (by rw [show t.lexeme.text = "" from hempty]; rfl)

/-- The tokens of a source begin at different places. -/
theorem pairwise_offset_lt (nested : Bool) (source : String) :
    (Token.ofLexemes (Lexer.lex nested source)).Pairwise
      fun t u => t.start.offset < u.start.offset := by
  have hordered := ordered_ofLexemes nested source
  refine hordered.sorted.imp_of_mem ?_
  intro t u ht _ hprecedes
  have hlt := (hordered.token t ht).2
  exact Nat.lt_of_lt_of_le hlt hprecedes.offset

/-- Two parts of a list that begin at the same place of it have as much before
    them. -/
theorem length_eq_of_pairwise {A A' B B' : List Token} {t t' : Token}
    (hsorted : (A ++ t :: B).Pairwise fun t u => t.start.offset < u.start.offset)
    (heq : A ++ t :: B = A' ++ t' :: B') (hstart : t.start = t'.start) : A.length = A'.length := by
  have ht : (A ++ t :: B)[A.length]? = some t := by
    rw [List.getElem?_append_right (Nat.le_refl _), Nat.sub_self]
    rfl
  have ht' : (A ++ t :: B)[A'.length]? = some t' := by
    rw [heq, List.getElem?_append_right (Nat.le_refl _), Nat.sub_self]
    rfl
  obtain ⟨hlt, ht⟩ := List.getElem?_eq_some_iff.mp ht
  obtain ⟨hlt', ht'⟩ := List.getElem?_eq_some_iff.mp ht'
  rw [List.pairwise_iff_getElem] at hsorted
  rcases Nat.lt_trichotomy A.length A'.length with h | h | h
  · have hbefore := hsorted _ _ hlt hlt' h
    rw [ht, ht', hstart] at hbefore
    exact absurd hbefore (Nat.lt_irrefl _)
  · exact h
  · have hbefore := hsorted _ _ hlt' hlt h
    rw [ht, ht', hstart] at hbefore
    exact absurd hbefore (Nat.lt_irrefl _)

theorem SignatureTokens.eq {e : Entry} {ts us : List Token}
    (hts : SignatureTokens (Lexer.lex nested source) e ts)
    (hus : SignatureTokens (Lexer.lex nested source) e us) : ts = us := by
  obtain ⟨A, B, hA⟩ := hts.among
  obtain ⟨A', B', hA'⟩ := hus.among
  obtain ⟨t, ht, hstart⟩ := Option.map_eq_some_iff.mp hts.start
  obtain ⟨u, hu, hstart'⟩ := Option.map_eq_some_iff.mp hus.start
  obtain ⟨ts, rfl⟩ := List.head?_eq_some_iff.mp ht
  obtain ⟨us, rfl⟩ := List.head?_eq_some_iff.mp hu
  rw [List.append_assoc] at hA hA'
  -- Both begin at the same place, hence go on in the same way.
  have hsorted := pairwise_offset_lt nested source
  rw [← hA] at hsorted
  have hlength := length_eq_of_pairwise hsorted (hA.trans hA'.symm) (hstart.trans hstart'.symm)
  have hrest := (List.append_inj (hA.trans hA'.symm) hlength).2
  have htext : ∀ v ∈ t :: ts ++ B, v.text ≠ "" := by
    intro v hv
    have hmem : v ∈ Token.ofLexemes (Lexer.lex nested source) := by
      rw [← hA]
      exact List.mem_append_right _ hv
    exact text_ne_empty_of_mem_ofLexemes hmem
  have hprefix : t :: ts <+: t :: ts ++ B := List.prefix_append _ _
  have hprefix' : u :: us <+: t :: ts ++ B := by
    rw [hrest]
    exact List.prefix_append _ _
  have hrender : Token.render (t :: ts) = Token.render (u :: us) := hts.text.trans hus.text.symm
  rcases Nat.le_total (t :: ts).length (u :: us).length with hle | hle
  · exact Token.eq_of_render htext hprefix hprefix' (List.cons_ne_nil _ _) hle hrender
  · exact (Token.eq_of_render htext hprefix' hprefix (List.cons_ne_nil _ _) hle hrender.symm).symm

end Unique

/-! ### Reading a signature back -/

/-- Headers of the same code differ at most in their locations. -/
theorem Header.Corresponds.toEntry_restates {h h' : Header}
    (hh : h.Corresponds .sameCode h') : h.toEntry.Restates h'.toEntry := by
  have hqualifier : h'.qualifier = h.qualifier := hh.qualifier.trans Option.map_id_apply
  have hspecifiers : h'.specifiers = h.specifiers := hh.specifiers.trans (List.map_id _)
  refine ⟨hh.kind.symm, hh.name.symm, hqualifier.symm, hh.signature.symm, hh.args.symm,
    hh.typeText.symm, ?_⟩
  show h.specifiers <+: h'.specifiers
  rw [hspecifiers]

namespace Header.ReadAt

variable {c d : Cursor} {h : Header}

theorem start (hread : h.ReadAt c) : h.start = c.location := by
  obtain ⟨d, hroutine | hproperty⟩ := hread
  · exact (covers_routine? hroutine).start
  · exact (covers_property? hproperty).start

/-- A header begins with a word. -/
theorem exists_keyword? (hread : h.ReadAt c) :
    ∃ kw, (c.passKeyword .class_).keyword? = some kw ∧
      ((∃ e, routine? c = some (h, e)) ∨ kw = .property) := by
  obtain ⟨e, hroutine | hproperty⟩ := hread
  · cases hkw : (c.passKeyword .class_).keyword? with
    | none => simp [routine?, hkw] at hroutine
    | some kw => exact ⟨kw, rfl, Or.inl ⟨e, hroutine⟩⟩
  · by_cases hkw : (c.passKeyword .class_).atKeyword .property = true
    · exact ⟨.property, of_decide_eq_true hkw, Or.inr rfl⟩
    · simp [Header.property?, hkw] at hproperty

theorem keyword?_ne_none (hread : h.ReadAt c) : c.keyword? ≠ none := by
  obtain ⟨kw, hkw, _⟩ := hread.exists_keyword?
  intro hnone
  have hclass : c.atKeyword .class_ = false := by
    rw [Cursor.atKeyword, hnone]
    rfl
  rw [Cursor.passKeyword, hclass, Cursor.nextIf, if_neg Bool.false_ne_true, hnone] at hkw
  cases hkw

/-- A routine is looked for first, and where a property begins none does. -/
theorem exists_or_eq (hread : h.ReadAt c) : ∃ e, (routine? c).or (property? c) = some (h, e) := by
  obtain ⟨kw, hkw, ⟨e, hroutine⟩ | rfl⟩ := hread.exists_keyword?
  · exact ⟨e, by rw [hroutine]; rfl⟩
  · have hnone : routine? c = none := by simp [routine?, hkw, routineKind?]
    obtain ⟨e, hroutine | hproperty⟩ := hread
    · rw [hnone] at hroutine
      cases hroutine
    · exact ⟨e, by rw [hnone, hproperty]; rfl⟩

/-- A header corresponds to the one that begins where the corresponding code
    does. -/
theorem of_corresponds {r : Correspondence} (hread : h.ReadAt c) (hd : d.Corresponds r c) :
    ∃ h' : Header, h'.ReadAt d ∧ h'.Corresponds r h := by
  obtain ⟨e, hroutine | hproperty⟩ := hread
  · have hreads := routine?_corresponds hd
    rw [hroutine] at hreads
    obtain ⟨found, hfound, hh⟩ := hreads.exists_of_some
    exact ⟨found.1, ⟨found.2, Or.inl hfound⟩, hh⟩
  · have hreads := property?_corresponds hd
    rw [hproperty] at hreads
    obtain ⟨found, hfound, hh⟩ := hreads.exists_of_some
    exact ⟨found.1, ⟨found.2, Or.inr hfound⟩, hh⟩

end Header.ReadAt

namespace Prototype

/-- No attribute stands before a keyword. -/
theorem attributes_of_keyword? {c : Cursor} (h : c.keyword? ≠ none) : attributes c.ahead = 0 := by
  cases hahead : c.ahead with
  | nil => rw [attributes]
  | cons t ts =>
    have hkeyword : c.keyword? = t.keyword? := by
      rw [Cursor.keyword?, Cursor.nthKeyword?, Cursor.nth?, hahead]
      rfl
    rw [hkeyword] at h
    rw [attributes, if_neg]
    intro hsymbol
    exact h (Cursor.keyword?_of_isSymbol hsymbol)

/-- A text that begins with a header is read as this header. -/
theorem header?_eq_of_readAt {text : String} {h : Header}
    (hread : h.ReadAt (Cursor.ofLexemes (lexemes text))) : header? text = some h := by
  obtain ⟨e, hor⟩ := hread.exists_or_eq
  unfold header?
  dsimp only
  rw [attributes_of_keyword? hread.keyword?_ne_none, Cursor.advance_zero, hor]
  rfl

/-- The signature of a header is made from the tokens that it begins with. If
    these can be told apart in it, it is read as the header. -/
theorem exists_signature {nested : Bool} {source : String} {c : Cursor} {h : Header}
    (hc : (Cursor.ofLexemes (Lexer.lex nested source)).Reaches c) (hread : h.ReadAt c) :
    ∃ ts, ts <+: c.ahead ∧ ts ≠ [] ∧ Token.render ts = h.signature ∧
      (Token.StringsClosed ts →
        ∃ h', header? h.signature = some h' ∧ h'.toEntry.Restates h.toEntry) := by
  obtain ⟨e, hpasses, hsignature, hcut⟩ := hread.exists_cutAt
  refine ⟨c.upTo e, List.take_prefix _ _, ?_, hsignature.symm, ?_⟩
  · intro hnil
    have hlt := hpasses.left_lt
    rw [Cursor.upTo, List.take_eq_nil_iff] at hnil
    rcases hnil with hzero | hahead
    · omega
    · exact hpasses.1 hahead
  · intro hclosed
    -- The tokens of the rendering are those of the header, and it ends there.
    have hcode : Token.SameCode (Token.ofLexemes (lexemes h.signature)) (c.upTo e) := by
      obtain ⟨n, rfl⟩ := hc
      obtain ⟨cs, hlaid⟩ := Token.exists_laid_ofLexemes nested source
      obtain ⟨ds, hdrop⟩ := hlaid.exists_drop n
      rw [hsignature]
      exact Token.sameCode_lex_render (hdrop.take _) hclosed false
    obtain ⟨h', hread', hrestates⟩ := hcut
      { past := [], ahead := c.upTo e, eof := .start, lexemeCount := 0 } ⟨hpasses.reaches, rfl⟩
    obtain ⟨h'', hread'', hh⟩ := hread'.of_corresponds
      (Cursor.Alike.corresponds (c := Cursor.ofLexemes (lexemes h.signature)) hcode)
    exact ⟨h'', header?_eq_of_readAt hread'', hh.toEntry_restates.trans hrestates⟩

end Prototype

/-! ### Entries that show a header -/

/-- An entry says what the header at a cursor of a source says. -/
structure Entry.Shows (lexemes : List Lexeme) (e : Entry) (h : Header) (c : Cursor) : Prop where
  /-- The cursor stands in the source. -/
  reaches : (Cursor.ofLexemes lexemes).Reaches c
  /-- The header begins there. -/
  read : h.ReadAt c
  /-- The entry may have more specifiers. -/
  restates : h.toEntry.Restates e
  /-- The entry begins there. -/
  start : e.start = c.location

theorem Entry.Restates.of_keeps {e₀ e e' : Entry} (h : e₀.Restates e) (hkeeps : e.Keeps e')
    (hkind : e.kind ≠ .type_) : e₀.Restates e' := by
  obtain ⟨hsignature, htype⟩ := hkeeps.texts hkind
  constructor
  case kind => rw [h.kind, hkeeps.kind]
  case name => rw [h.name, hkeeps.name]
  case qualifier => rw [h.qualifier, hkeeps.qualifier]
  case signature => rw [h.signature, hsignature]
  case args => rw [h.args, hkeeps.args]
  case typeText => rw [h.typeText, htype]
  case specifiers => exact h.specifiers.trans hkeeps.specifiers

theorem Entry.Shows.of_keeps {lexemes : List Lexeme} {e e' : Entry} {h : Header} {c : Cursor}
    (hshows : e.Shows lexemes h c) (hkeeps : e.Keeps e') (hkind : e.kind.isHeaded = true) :
    e'.Shows lexemes h c := by
  have htype : e.kind ≠ .type_ := by
    intro htype
    rw [htype] at hkind
    cases hkind
  exact ⟨hshows.reaches, hshows.read, hshows.restates.of_keeps hkeeps htype,
    hkeeps.start.trans hshows.start⟩

/-- A routine or property of a reachable state shows a header. -/
theorem State.Reachable.exists_shows {options : Options} {file : String} {lexemes : List Lexeme}
    {s : State} (h : Reachable options file lexemes s) {i : EntryId} {e : Entry}
    (he : s.draft.builder.entry? i = some e) (hkind : e.kind.isHeaded = true) :
    ∃ header c, e.Shows lexemes header c := by
  obtain ⟨c, e₀, hc, hmade, hkeeps⟩ := h.exists_madeAt he
  rw [hkeeps.kind] at hkind
  cases hmade with
  | plain hplain =>
    rw [hplain] at hkind
    cases hkind
  | header header hread hentry hstart =>
    have hshows : e₀.Shows lexemes header c := ⟨hc, hread, hentry, hstart⟩
    exact ⟨header, c, hshows.of_keeps hkeeps hkind⟩

/-- A prototype with a name shows the header that its text begins with, behind
    the attributes. -/
theorem Prototype.exists_shows {text : String} (hname : (read text).name ≠ "") :
    ∃ header c, (read text).Shows (lexemes text) header c := by
  cases hread : header? text with
  | none =>
    rw [read, hread] at hname
    exact absurd rfl hname
  | some h =>
    obtain ⟨found, hfound, rfl⟩ := Option.map_eq_some_iff.mp hread
    rw [read, hread] at hname ⊢
    dsimp only at hname ⊢
    split at hname
    · exact absurd rfl hname
    rename_i hnamed
    rw [if_neg hnamed]
    have hheader : found.1.ReadAt ((Cursor.ofLexemes (lexemes text)).advance
        (attributes (Cursor.ofLexemes (lexemes text)).ahead)) :=
      ⟨found.2, (Option.or_eq_some_iff.mp hfound).imp id And.right⟩
    refine ⟨found.1, _, (Cursor.Reaches.refl _).advance _, hheader, ?_, hheader.start⟩
    exact ⟨rfl, rfl, rfl, rfl, rfl, rfl, List.prefix_refl _⟩

/-- An entry that shows a header has the tokens of its signature in the source,
    and its signature is read back as the entry. -/
theorem Entry.Shows.readsBack {nested : Bool} {source : String} {e : Entry} {h : Header}
    {c : Cursor} (hshows : e.Shows (Lexer.lex nested source) h c) :
    (∃ ts, SignatureTokens (Lexer.lex nested source) e ts) ∧
      ∀ ts, SignatureTokens (Lexer.lex nested source) e ts → Token.StringsClosed ts →
        e.name ≠ "" → (Prototype.read e.signature).Restates e := by
  obtain ⟨ts, hprefix, hne, htext, hback⟩ := Prototype.exists_signature hshows.reaches hshows.read
  have hsignature := hshows.restates.signature
  have htokens : SignatureTokens (Lexer.lex nested source) e ts := by
    constructor
    case among =>
      have htokens := hshows.reaches.tokens_eq
      refine hprefix.isInfix.trans ?_
      rw [show Token.ofLexemes (Lexer.lex nested source) = c.tokens from htokens.symm]
      exact (List.suffix_append _ _).isInfix
    case start =>
      obtain ⟨t, rest, rfl⟩ := List.exists_cons_of_ne_nil hne
      obtain ⟨more, hmore⟩ := hprefix
      have hpeek : c.peek? = some t := peek?_eq_some_iff.mpr ⟨rest ++ more, hmore.symm⟩
      rw [hshows.start, Cursor.location_eq_of_peek? hpeek]
      rfl
    case text => exact htext.trans hsignature
  refine ⟨⟨ts, htokens⟩, ?_⟩
  intro ts' htokens' hclosed hname
  rw [htokens'.eq htokens] at hclosed
  obtain ⟨h', hread, hrestates⟩ := hback hclosed
  have hnamed : h'.name ≠ "" := by
    rw [show h'.name = h.name from hrestates.name, show h.name = e.name from hshows.restates.name]
    exact hname
  rw [← show h.signature = e.signature from hsignature, Prototype.read, hread]
  dsimp only
  rw [if_neg hnamed]
  exact hrestates.trans hshows.restates

/-! ### Finishing -/

/-- An entry of a finished outline was there before; only the root is moved. -/
theorem Builder.exists_entry?_of_mem_finish {b : Builder} (hroot : b.hasRoot = true)
    {eof : Location} {e : Entry} (he : e ∈ (b.finish eof).entries) :
    ∃ i e₀, b.entry? i = some e₀ ∧ e.kind = e₀.kind ∧ (i ≠ 0 → e₀.Keeps e) := by
  obtain ⟨i, hi⟩ := Array.mem_iff_getElem?.mp he
  have hwith : b.withRoot = b := by rw [withRoot, if_pos hroot]
  unfold finish at hi
  simp only [hwith, Array.getElem?_modify] at hi
  have hgrows : b.Grows (fun _ => False) (b.popTimes eof b.unclosed) := .popTimes b eof _
  split at hi
  · rename_i hzero
    obtain ⟨e', he', rfl⟩ := Option.map_eq_some_iff.mp hi
    obtain ⟨e₀, he₀, hkeeps⟩ := hgrows.exists_kept he'
    exact ⟨i, e₀, he₀, hkeeps.kind, fun hne => absurd hzero.symm hne⟩
  · obtain ⟨e₀, he₀, hkeeps⟩ := hgrows.exists_kept hi
    exact ⟨i, e₀, he₀, hkeeps.kind, fun _ => hkeeps⟩

namespace State

/-- The root is neither a routine nor a property. -/
theorem exists_entry?_root (options : Options) (file : String) (lexemes : List Lexeme) :
    ∃ e, (root options file lexemes).draft.builder.entry? 0 = some e ∧ e.kind.isHeaded = false := by
  obtain ⟨p, hp, hroot⟩ := exists_profile?_root options file lexemes
  obtain ⟨e, he, rfl⟩ := Option.map_eq_some_iff.mp hp
  refine ⟨e, he, ?_⟩
  have hkind : e.kind.isModule = true ∨ e.kind = .other := hroot.kind
  cases hheaded : e.kind with
  | property | procedure | function | constructor | destructor | operator =>
    rw [hheaded] at hkind
    rcases hkind with hmodule | hother
    · cases hmodule
    · cases hother
  | _ => rfl

/-- A routine or property of a finished outline shows a header. -/
theorem exists_shows_of_mem_outline {options : Options} {file : String} {lexemes : List Lexeme}
    {e : Entry} (he : e ∈ (ofSource options file lexemes).outline.entries)
    (hkind : e.kind.isHeaded = true) : ∃ header c, e.Shows lexemes header c := by
  have hreachable := reachable_run options file lexemes
  have hfinish : (root options file lexemes).run.draft.builder.Grows (fun _ => False)
      (ofSource options file lexemes).draft.builder := .of_documents (documents_finish _)
  have hroot : (ofSource options file lexemes).draft.builder.hasRoot = true :=
    (hreachable.agrees.arena.of_sameFrame (documents_finish _).sameFrame).hasRoot
  obtain ⟨i, e₁, he₁, hkind₁, hkeeps₁⟩ := Builder.exists_entry?_of_mem_finish hroot he
  obtain ⟨e₀, he₀, hkeeps₀⟩ := hfinish.exists_kept he₁
  have hheaded : e₀.kind.isHeaded = true := by rw [← hkeeps₀.kind, ← hkind₁]; exact hkind
  have hne : i ≠ 0 := by
    rintro rfl
    -- The root has kept its kind since it was made.
    obtain ⟨r, hr, hplain⟩ := exists_entry?_root options file lexemes
    obtain ⟨r', hr', hkeeps⟩ := (PascalOutline.Acts.grows hreachable.acts).1.kept 0 r hr
    obtain rfl := Option.some.inj (hr'.symm.trans he₀)
    rw [hkeeps.kind, hplain] at hheaded
    cases hheaded
  obtain ⟨header, c, hshows⟩ := hreachable.exists_shows he₀ hheaded
  exact ⟨header, c, hshows.of_keeps (hkeeps₀.trans (hkeeps₁ hne)) hheaded⟩

end State

/-! ### Scanned entries and prototypes -/

/-- A text without a named header is read as the empty entry, and so is the
    signature of that. -/
theorem Prototype.restates_read_of_name_eq {text : String} (hname : (read text).name = "") :
    (read (read text).signature).Restates (read text) := by
  have hempty : read text = {} := by
    unfold read at hname ⊢
    split
    · rename_i h hread
      rw [hread] at hname
      dsimp only at hname ⊢
      split at hname
      · exact if_pos ‹_›
      · exact absurd hname ‹_›
    · rfl
  have hnothing : read "" = {} := by decide +kernel
  rw [hempty, show ({} : Entry).signature = "" from rfl, hnothing]
  exact .refl _

/-- Scanning and reading a prototype agree. The signature of a routine or a
    property of a scanned source has its tokens in the source, and if no string
    is left open before the last of them, the signature is read back as the
    entry, perhaps without its last specifiers. The same holds of an entry that
    was itself read from a prototype. -/
theorem restates_read_signature (options : Options) (file source : String) :
    (∀ e ∈ (scan options file source).outline.entries,
      e.kind.isRoutine = true ∨ e.kind = .property → e.name ≠ "" →
        (∃ ts, SignatureTokens (Lexer.lex options.nestedComments source) e ts) ∧
          ∀ ts, SignatureTokens (Lexer.lex options.nestedComments source) e ts →
            Token.StringsClosed ts → (Prototype.read e.signature).Restates e) ∧
      ∀ text, ((Prototype.read text).name = "" →
          (Prototype.read (Prototype.read text).signature).Restates (Prototype.read text)) ∧
        ((Prototype.read text).name ≠ "" →
          (∃ ts, SignatureTokens (Prototype.lexemes text) (Prototype.read text) ts) ∧
            ∀ ts, SignatureTokens (Prototype.lexemes text) (Prototype.read text) ts →
              Token.StringsClosed ts →
                (Prototype.read (Prototype.read text).signature).Restates
                  (Prototype.read text)) := by
  constructor
  · intro e he hkind hname
    have hheaded : e.kind.isHeaded = true := by
      rcases hkind with hroutine | hproperty
      · cases hcase : e.kind <;> rw [hcase] at hroutine <;> first | rfl | cases hroutine
      · rw [hproperty]
        rfl
    obtain ⟨header, c, hshows⟩ := State.exists_shows_of_mem_outline he hheaded
    obtain ⟨hexists, hback⟩ := hshows.readsBack
    exact ⟨hexists, fun ts hts hclosed => hback ts hts hclosed hname⟩
  · intro text
    refine ⟨Prototype.restates_read_of_name_eq, ?_⟩
    intro hname
    obtain ⟨header, c, hshows⟩ := Prototype.exists_shows hname
    obtain ⟨hexists, hback⟩ := hshows.readsBack
    exact ⟨hexists, fun ts hts hclosed => hback ts hts hclosed hname⟩

/-- A method whose directive comes after its terminator: the prototype is the
    same but for that directive. -/
theorem restates_read_signature_of_static_method :
    let source := "class function T.F(a: S = 'x'):\n S; static;"
    let ts := (Token.ofLexemes (Lexer.lex false source)).take 14
    let e : Entry :=
      { id := 1, kind := .function, name := "F", qualifier := some "T", file := "u"
        signature := "class function T.F(a: S = 'x'): S", args := "(a: S = 'x')", typeText := "S"
        specifiers := ["class", "static"], start := .start, stop := ⟨2, 12, 43⟩, parent := some 0 }
    (scan {} "u" source).outline.get? 1 = some e ∧
      SignatureTokens (Lexer.lex false source) e ts ∧ Token.StringsClosed ts ∧
      (Prototype.read e.signature).specifiers = ["class"] ∧
      (Prototype.read e.signature).Restates e := by
  intro source ts e
  have hget : (scan {} "u" source).outline.get? 1 = some e := by decide +kernel
  have hts : SignatureTokens (Lexer.lex false source) e ts := by decide +kernel
  have hclosed : Token.StringsClosed ts := by decide +kernel
  refine ⟨hget, hts, hclosed, by decide +kernel, ?_⟩
  have he : e ∈ (scan {} "u" source).outline.entries := Array.mem_of_getElem? hget
  have hname : e.name ≠ "" := by decide
  exact ((restates_read_signature {} "u" source).1 e he (Or.inl rfl) hname).2 ts hts hclosed

end PascalOutline
