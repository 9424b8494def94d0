import PascalOutline.Proofs.Correspondence.Scan
import PascalOutline.Proofs.Lexeme.Respelling

/-! # A source and its respelling

  The tokens, the documentation and the problems of a respelled source are
  those of the source, respelled. So the two scans correspond: every entry of
  the one is the entry of the other with its texts respelled, at the same line
  and column.
-/

namespace PascalOutline.Respelling

open Lexer
open Lexeme (byteLength)

variable (f : Respelling)

/-! ### The correspondence -/

/-- A text on one line, respelled. -/
def text (s : String) : String :=
  String.ofList (s.toList.map f.char)

theorem toLower_char (c : Char) : (f.char c).toLower = c.toLower := by
  rcases f.char_eq c with hsame | hlower
  · rw [hsame]
  · rw [hlower, toLower_toLower]

theorem char_toLower (c : Char) : f.char c.toLower = c.toLower := by
  rcases f.char_eq c.toLower with hsame | hlower
  · exact hsame
  · rw [hlower, toLower_toLower]

/-- More of a text takes more bytes, also when it is respelled. -/
theorem byteLength_chars_le (cs ds : List Char) :
    byteLength (f.chars cs) ≤ byteLength (f.chars (cs ++ ds)) := by
  fun_induction chars f cs with
  | case1 => exact Nat.zero_le _
  | case2 cs hfeeds ih =>
    rw [List.cons_append, List.cons_append, chars, if_pos hfeeds]
    exact Nat.add_le_add_left ih _
  | case3 cs hfeeds ih =>
    rw [List.cons_append, List.cons_append, chars, if_neg hfeeds]
    exact Nat.add_le_add_left (Nat.add_le_add_left ih _) _
  | case4 c cs hpair ih =>
    by_cases hparts : c = '\r' ∧ (cs ++ ds).head? = some '\n'
    · -- The carriage return stood last before, so it is one byte as it was.
      obtain ⟨rfl, hfeed⟩ := hparts
      obtain rfl : cs = [] := by
        cases cs with
        | nil => rfl
        | cons d cs => exact absurd (by rw [Option.some.inj hfeed]) (hpair cs rfl)
      have hhead : (f.chars ('\r' :: ds)).head? = some (f.single '\r') := f.head?_chars _
      obtain ⟨rest, hrest⟩ := List.head?_eq_some_iff.mp hhead
      rw [List.cons_append, List.nil_append, hrest]
      exact Nat.add_le_add_left (Nat.zero_le _) _
    · rw [List.cons_append, f.chars_cons fun h h' => hparts ⟨h, h'⟩]
      exact Nat.add_le_add_left ih _

namespace SamePlace

variable {f} {source : List Char} {a a' b b' : Location}

/-- The order of places is the same. -/
theorem le (ha : f.SamePlace source a a') (hb : f.SamePlace source b b') (h : a ≤ b) :
    a' ≤ b' := by
  obtain ⟨pre, post, hsource, hoffset, hoffset'⟩ := ha.offset
  obtain ⟨pre', post', hsource', hboffset, hboffset'⟩ := hb.offset
  have hmono : a.offset ≤ b.offset → a'.offset ≤ b'.offset := by
    intro hle
    rw [hoffset, hboffset] at hle
    rw [hoffset', hboffset']
    have hpre : pre <+: source := ⟨post, hsource.symm⟩
    have hpre' : pre' <+: source := ⟨post', hsource'.symm⟩
    rcases List.prefix_or_prefix_of_prefix hpre hpre' with ⟨more, rfl⟩ | ⟨more, rfl⟩
    · exact f.byteLength_chars_le pre more
    · -- Then nothing more stands before the first place.
      obtain rfl : more = [] := by
        by_contra hmore
        have hpos := byteLength_pos hmore
        rw [byteLength_append] at hle
        omega
      rw [List.append_nil]
  rw [Location.le_def] at h ⊢
  rw [ha.line, hb.line, ha.column, hb.column]
  omega

theorem max (ha : f.SamePlace source a a') (hb : f.SamePlace source b b') :
    f.SamePlace source (Max.max a b) (Max.max a' b') := by
  by_cases hab : a ≤ b
  · have hmax : Max.max a b = b := if_pos hab
    have hmax' : Max.max a' b' = b' := if_pos (ha.le hb hab)
    rwa [hmax, hmax']
  · have hba : b ≤ a := by
      rw [Location.le_def] at hab ⊢
      omega
    rwa [Location.max_eq_left hba, Location.max_eq_left (hb.le ha hba)]

theorem start (source : List Char) : f.SamePlace source .start .start :=
  ⟨rfl, rfl, [], source, rfl, rfl, rfl⟩

theorem nowhere (source : List Char) : f.SamePlace source .nowhere .nowhere :=
  ⟨rfl, rfl, [], source, rfl, rfl, rfl⟩

end SamePlace

/-- How the readings of a source and of its respelling belong together. -/
def correspondence (source : List Char) : Correspondence where
  text := f.text
  place := f.SamePlace source
  docs := True
  text_append a b := by simp [text]
  text_lowered a := by
    rw [text, toList_lowered, List.map_map, lowered]
    exact congrArg String.ofList (List.map_congr_left fun c _ => f.char_toLower c)
  lowered_text a := by
    rw [lowered, text, String.toList_ofList, List.map_map, lowered]
    exact congrArg String.ofList (List.map_congr_left fun c _ => f.toLower_char c)
  place_start := .start source
  place_nowhere := .nowhere source
  place_max ha hb := ha.max hb
  line_eq _ := SamePlace.line

theorem keepsPositions (source : List Char) : (f.correspondence source).KeepsPositions :=
  fun h => ⟨h.line, h.column⟩

variable {source : List Char} {l l' : Lexeme} {ls ls' : List Lexeme}

/-! ### Tokens -/

theorem isTrivia_kind (kind : LexemeKind) : (f.kind kind).isTrivia = kind.isTrivia := by
  cases kind <;> rfl

theorem kind_of_isTrivia_eq_false {kind : LexemeKind} (h : kind.isTrivia = false) :
    f.kind kind = kind := by
  cases kind <;> first | rfl | cases h

namespace Respells

variable {f}

theorem isTrivia (h : f.Respells source l l') : l'.isTrivia = l.isTrivia := by
  rw [Lexeme.isTrivia, h.kind, f.isTrivia_kind, Lexeme.isTrivia]

theorem token (h : f.Respells source l l') (htoken : l.isTrivia = false) (index : Nat)
    (spaced : Bool) :
    Token.Corresponds (f.correspondence source) ⟨l, index, spaced⟩ ⟨l', index, spaced⟩ := by
  constructor
  case kind => exact h.kind.trans (f.kind_of_isTrivia_eq_false htoken)
  case text =>
    show l'.text = f.text l.text
    rw [Respelling.text, ← f.chars_of_inline (h.inline htoken), ← h.text, String.ofList_toList]
  case symbol =>
    intro hsymbol
    show l'.text = l.text
    rw [← String.toList_inj, h.text, f.chars_of_isMark (h.symbol hsymbol)]
  case start => exact h.start
  case stop => exact h.stop
  case index => exact fun _ => rfl

end Respells

theorem tokens_correspond (h : List.Forall₂ (f.Respells source) ls ls') (index : Nat)
    (spaced : Bool) :
    Token.WordsCorrespond (f.correspondence source) (Token.ofLexemesFrom index spaced ls)
        (Token.ofLexemesFrom index spaced ls') ∧
      (Token.ofLexemesFrom index spaced ls').map Token.spaced
        = (Token.ofLexemesFrom index spaced ls).map Token.spaced := by
  induction h generalizing index spaced with
  | nil => exact ⟨.nil, rfl⟩
  | @cons l l' ls ls' hl _ ih =>
    rw [Token.ofLexemesFrom, Token.ofLexemesFrom, hl.isTrivia]
    cases htrivia : l.isTrivia with
    | true => exact ih (index + 1) true
    | false =>
      obtain ⟨hwords, hspaced⟩ := ih (index + 1) false
      exact ⟨.cons (hl.token htrivia index spaced) hwords, congrArg (spaced :: ·) hspaced⟩

theorem code_corresponds (h : List.Forall₂ (f.Respells source) ls ls') :
    Token.CodeCorresponds (f.correspondence source) (Token.ofLexemes ls) (Token.ofLexemes ls') := by
  obtain ⟨hwords, hspaced⟩ := f.tokens_correspond h 0 false
  refine ⟨hwords, ?_⟩
  rw [List.map_tail, List.map_tail]
  exact congrArg List.tail hspaced

theorem end_corresponds (h : List.Forall₂ (f.Respells source) ls ls') :
    f.SamePlace source (endOf ls) (endOf ls') := by
  have hreverse := List.forall₂_reverse_iff.mpr h
  rw [endOf, endOf, ← List.head?_reverse, ← List.head?_reverse]
  generalize ls.reverse = rs at hreverse
  generalize ls'.reverse = rs' at hreverse
  cases hreverse with
  | nil => exact .start source
  | cons hl _ => exact hl.stop

/-! ### Documentation -/

theorem marked?_brace (options : Options) (body : List Char) (closed : Bool) :
    DocComment.marked? options ⟨.block .brace, body, closed⟩
      = if body.head? = some '!' then some body.tail
        else if options.braceDocs then some body else none := by
  unfold DocComment.marked?
  split <;> simp_all [List.head?_eq_some_iff]

theorem marked?_parenStar (options : Options) (body : List Char) (closed : Bool) :
    DocComment.marked? options ⟨.block .parenStar, body, closed⟩
      = if body.head? = some '*' ∨ body.head? = some '!' then some body.tail else none := by
  unfold DocComment.marked?
  split <;> simp_all [List.head?_eq_some_iff]

theorem marked?_line (options : Options) (body : List Char) (closed : Bool) :
    DocComment.marked? options ⟨.line, body, closed⟩
      = if body.head? = some '/' then
          if body.tail.head? = some '/' then none else some body.tail
        else if body.head? = some '!' then some body.tail else none := by
  unfold DocComment.marked?
  split <;> simp_all [List.head?_eq_some_iff]

theorem tail_chars_of_head? {x : Char} (hx : isLineEnd x = false) {cs : List Char}
    (h : cs.head? = some x) : (f.chars cs).tail = f.chars cs.tail := by
  obtain ⟨rest, rfl⟩ := List.head?_eq_some_iff.mp h
  rw [f.chars_cons_of_isLineEnd_eq_false hx, List.tail_cons, List.tail_cons]

theorem marked?_comment (options : Options) (k : Comment) :
    DocComment.marked? options (f.comment k) = (DocComment.marked? options k).map f.chars := by
  obtain ⟨style, body, closed⟩ := k
  have hhead {x : Char} (hx : x.isAlpha = false) (hend : isLineEnd x = false) (cs : List Char) :=
    f.head?_chars_eq_some_iff hx hend cs
  rcases style with (_ | _) | _
  · rw [comment, marked?_brace, marked?_brace]
    by_cases hmark : body.head? = some '!'
    · rw [if_pos hmark, if_pos ((hhead rfl rfl body).mpr hmark), f.tail_chars_of_head? rfl hmark,
        Option.map_some]
    · rw [if_neg hmark, if_neg (mt (hhead rfl rfl body).mp hmark)]
      split <;> rfl
  · rw [comment, marked?_parenStar, marked?_parenStar]
    simp only [hhead (x := '*') rfl rfl, hhead (x := '!') rfl rfl]
    split
    · next hmark =>
      rcases hmark with hmark | hmark
      · rw [f.tail_chars_of_head? rfl hmark, Option.map_some]
      · rw [f.tail_chars_of_head? rfl hmark, Option.map_some]
    · rfl
  · rw [comment, marked?_line, marked?_line]
    simp only [hhead (x := '/') rfl rfl, hhead (x := '!') rfl rfl]
    by_cases hslash : body.head? = some '/'
    · simp only [hslash, if_true, f.tail_chars_of_head? rfl hslash, hhead (x := '/') rfl rfl]
      split <;> rfl
    · by_cases hmark : body.head? = some '!'
      · rw [if_neg hslash, if_neg hslash, if_pos hmark, if_pos hmark,
          f.tail_chars_of_head? rfl hmark, Option.map_some]
      · simp only [hslash, hmark, if_false, Option.map_none]

theorem untrailed_eq (body : List Char) :
    DocComment.untrailed body
      = if body.head? = some '<' then (body.tail, true) else (body, false) := by
  unfold DocComment.untrailed
  split <;> simp_all [List.head?_eq_some_iff]

theorem untrailed_chars (body : List Char) :
    DocComment.untrailed (f.chars body)
      = (f.chars (DocComment.untrailed body).1, (DocComment.untrailed body).2) := by
  rw [untrailed_eq, untrailed_eq]
  by_cases hmark : body.head? = some '<'
  · rw [if_pos hmark, if_pos ((f.head?_chars_eq_some_iff rfl rfl body).mpr hmark),
      f.tail_chars_of_head? rfl hmark]
  · rw [if_neg hmark, if_neg (mt (f.head?_chars_eq_some_iff rfl rfl body).mp hmark)]

theorem Respells.docCorresponds (h : f.Respells source l l') :
    l.DocCorresponds (f.correspondence source) l' := by
  refine ⟨h.isTrivia, ?_⟩
  intro options
  cases hkind : l.kind with
  | comment k =>
    have hkind' : l'.kind = .comment (f.comment k) := by rw [h.kind, hkind]; rfl
    simp only [DocComment.ofLexeme?, hkind, hkind', f.marked?_comment]
    cases DocComment.marked? options k with
    | none => exact .none
    | some body =>
      simp only [Option.map_some, f.untrailed_chars]
      refine .some ⟨?_, rfl, h.start.line, h.stop.line⟩
      simp only [comment, f.clean_chars, correspondence, Respelling.text, String.toList_ofList]
  | _ =>
    simp only [DocComment.ofLexeme?, hkind, h.kind]
    exact .none

/-! ### Problems -/

theorem at_eq (problem : Problem) {a a' : Location} (hline : a'.line = a.line)
    (hcolumn : a'.column = a.column) : Diagnostic.at_ problem a' = Diagnostic.at_ problem a := by
  rw [Diagnostic.at_, Diagnostic.at_, hline, hcolumn]

/-- A closer of the wrong style stands at the same line and column. -/
theorem Respells.wrongCloserAt? (h : f.Respells source l l') (style : BlockStyle) (k : Comment) :
    Option.Rel (fun a a' => a'.line = a.line ∧ a'.column = a.column)
      (Diagnostic.wrongCloserAt? l style k) (Diagnostic.wrongCloserAt? l' style (f.comment k)) := by
  unfold Diagnostic.wrongCloserAt? BlockStyle.strayCloserAt BlockStyle.closerAt
  rw [comment, f.closerFrom_chars style.other true 0 0 k.body (inline_zero k.body)]
  cases hcloser : style.other.closerFrom true 0 0 0 k.body with
  | none => exact .none
  | some n =>
    have hmark : IsMark style.opener := isMark_opener (.block style)
    have hopener : style.opener.getLast? = some '\r' → (k.body.take n).head? ≠ some '\n' := by
      intro hlast
      cases (hmark '\r' (List.mem_of_getLast? hlast)).2
    have hbefore : style.opener ++ f.chars (k.body.take n)
        = f.chars (style.opener ++ k.body.take n) := by
      rw [f.chars_append hopener, f.chars_of_isMark hmark]
    simp only [Option.map_some, f.take_length_chars hcloser, hbefore]
    exact .some (f.after_chars h.start.line h.start.column _)

theorem Respells.ofComment?_eq (h : f.Respells source l l') (k : Comment) :
    Diagnostic.ofComment? l' (f.comment k) = Diagnostic.ofComment? l k := by
  have hcloser (style : BlockStyle) := h.wrongCloserAt? f style k
  obtain ⟨style, body, closed⟩ := k
  cases style with
  | line => rfl
  | block style =>
    specialize hcloser style
    simp only [Diagnostic.ofComment?, comment] at hcloser ⊢
    generalize Diagnostic.wrongCloserAt? l style _ = place at hcloser ⊢
    generalize Diagnostic.wrongCloserAt? l' style _ = place' at hcloser ⊢
    cases hcloser with
    | none => rfl
    | some hplace =>
      simp only [Option.bind_some, hplace.1, h.stop.line, h.start.line,
        at_eq _ hplace.1 hplace.2]

theorem Respells.ofLexeme?_eq (h : f.Respells source l l') :
    Diagnostic.ofLexeme? l' = Diagnostic.ofLexeme? l := by
  cases hkind : l.kind with
  | comment k =>
    have hkind' : l'.kind = .comment (f.comment k) := by rw [h.kind, hkind]; rfl
    simp only [Diagnostic.ofLexeme?, hkind, hkind', h.ofComment?_eq f]
  | directive k =>
    have hkind' : l'.kind = .directive (f.comment k) := by rw [h.kind, hkind]; rfl
    simp only [Diagnostic.ofLexeme?, hkind, hkind', h.ofComment?_eq f]
  | symbol =>
    have hkind' : l'.kind = .symbol := by rw [h.kind, hkind]; rfl
    have htext : l'.text.toList = l.text.toList := by
      rw [h.text, f.chars_of_isMark (h.symbol hkind)]
    simp only [Diagnostic.ofLexeme?, hkind, hkind', htext, at_eq _ h.start.line h.start.column]
  | _ => simp only [Diagnostic.ofLexeme?, hkind, h.kind, Respelling.kind]

theorem ofLexemes_eq (h : List.Forall₂ (f.Respells source) ls ls') :
    Diagnostic.ofLexemes ls' = Diagnostic.ofLexemes ls := by
  induction h with
  | nil => rfl
  | cons hl _ ih =>
    rw [Diagnostic.ofLexemes, List.filterMap_cons, hl.ofLexeme?_eq, Diagnostic.ofLexemes,
      List.filterMap_cons, ← Diagnostic.ofLexemes, ← Diagnostic.ofLexemes, ih]

/-! ### Scans -/

/-- The scan of the respelled source is the scan of the source with a function
    applied to its entries, if that function gives the entry that corresponds. -/
theorem scan_apply (options : Options) (file source : String) {g : Entry → Entry}
    (hg : ∀ {e e'}, Entry.Corresponds (f.correspondence source.toList) e e' → e' = g e) :
    scan options file (f.apply source) = (scan options file source).mapEntries g := by
  have hlexemes := f.respells_lex options.nestedComments source
  have hdocs (_ : True) : options.DocumentAlike options ∧ List.Forall₂ _ _ _ :=
    ⟨.refl options, hlexemes.imp fun _ _ h => h.docCorresponds⟩
  have hstates := State.corresponds_ofSource (f.code_corresponds hlexemes)
    (f.end_corresponds hlexemes) hdocs file
  rw [← (scan options file (f.apply source)).mapEntries_id]
  exact hstates.report (f.keepsPositions source.toList) (f.ofLexemes_eq hlexemes) hg

end PascalOutline.Respelling
