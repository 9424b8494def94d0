import PascalOutline.Proofs.Cursor.Order
import PascalOutline.Proofs.Lexeme.Extent
import PascalOutline.Diagnostic

/-! # Closers of the wrong style

  A closer outside of any comment is reported, and so is a comment that holds a
  closer of the other style which nothing in it was opened for, if the comment
  never ends or ends on a later line.

  `Diagnostic.Reports` says what is reported of a lexeme without the function
  that looks for it: the marks of the other style are counted from left to
  right, and the first closer that makes them one more than the openers has no
  partner (`BlockStyle.IsFirstUnmatched`). Each lexeme has at most one report,
  which stands within it, so the reports of a source stand in its order.
-/

namespace PascalOutline

open Lexer

/-! ### Walking on -/

namespace Location

/-- `a` stands before `b` by line and column, and is another place. -/
def StandsBefore (a b : Location) : Prop :=
  a.line < b.line ∨ a.line = b.line ∧ a.column < b.column

variable {a b c : Location}

theorem StandsBefore.trans_le (hab : a.StandsBefore b) (hbc : b ≤ c) : a.StandsBefore c := by
  unfold StandsBefore at *
  rw [le_def] at hbc
  omega

/-- Walking over some text leads to another place. -/
theorem standsBefore_after (a : Location) {cs : List Char} (hne : cs ≠ []) :
    a.StandsBefore (a.after cs) := by
  have hline (bytes : Nat) : a.StandsBefore (a.nextLine bytes) := .inl (Nat.lt_succ_self _)
  fun_cases after a cs with
  | case1 => exact absurd rfl hne
  | case2 cs => exact (hline 2).trans_le (precedes_after _ cs).order
  | case3 c cs => exact (hline 1).trans_le (precedes_after _ cs).order
  | case4 c cs =>
    have hcolumn : a.StandsBefore (a.nextColumn c) := .inr ⟨rfl, Nat.lt_succ_self _⟩
    exact hcolumn.trans_le (precedes_after _ cs).order

/-- Walking over two texts one after the other, if they do not part a line end. -/
theorem after_append (a : Location) {cs ds : List Char}
    (hwhole : cs.getLast? = some '\r' → ds.head? ≠ some '\n') :
    a.after (cs ++ ds) = (a.after cs).after ds := by
  have hlast {c : Char} {cs : List Char} (h : cs.getLast? = some '\r') :
      (c :: cs).getLast? = some '\r' := by
    rw [List.getLast?_cons, h]
    rfl
  fun_induction after a cs with
  | case1 a => rfl
  | case2 a cs ih =>
    rw [List.cons_append, List.cons_append, after]
    exact ih fun h => hwhole (hlast (hlast h))
  | case3 a c cs hpair hends ih =>
    rw [List.cons_append, after, if_pos hends]
    · exact ih fun h => hwhole (hlast h)
    · -- The line feed of a pair would stand in the first text or begin the second.
      rintro rest rfl hrest
      cases cs with
      | nil => exact hwhole rfl (by rw [← List.nil_append ds, hrest]; rfl)
      | cons d cs =>
        obtain ⟨rfl, _⟩ := List.cons.inj hrest
        exact hpair cs rfl rfl
  | case4 a c cs hpair hends ih =>
    rw [List.cons_append, after, if_neg hends]
    · exact ih fun h => hwhole (hlast h)
    · rintro rest rfl _
      exact hends (.inr rfl)

end Location

/-! ### Closers without a partner -/

namespace BlockStyle

/-- Behind `n` characters of a text stands the first closer that no opener
    before it is open for: with it one more is closed than was opened, and with
    no beginning of the text that is shorter. -/
structure IsFirstUnmatched (style : BlockStyle) (cs : List Char) (n : Nat) : Prop where
  /-- A closer stands there. -/
  closer : style.closer <+: cs.drop n
  /-- It closes more than was opened, and no closer before it does. -/
  closes : style.Closes 1 (cs.take n ++ style.closer)

variable {style : BlockStyle} {cs : List Char} {m n : Nat}

namespace IsFirstUnmatched

theorem take_append_closer (h : style.IsFirstUnmatched cs n) :
    cs.take n ++ style.closer <+: cs := by
  obtain ⟨rest, hrest⟩ := h.closer
  exact ⟨rest, by rw [List.append_assoc, hrest, List.take_append_drop]⟩

theorem le_length (h : style.IsFirstUnmatched cs n) : n + style.closer.length ≤ cs.length := by
  have hle := h.closer.length_le
  have hpos := style.opener_length_pos
  rw [List.length_drop, style.length_closer] at hle
  rw [style.length_closer]
  omega

theorem length_eq (h : style.IsFirstUnmatched cs n) :
    (cs.take n ++ style.closer).length = n + style.closer.length := by
  have hle := h.le_length
  rw [List.length_append, List.length_take]
  omega

/-- There is only one first closer. -/
theorem le (h : style.IsFirstUnmatched cs n) (h' : style.IsFirstUnmatched cs m) : n ≤ m := by
  rw [← Nat.not_lt]
  intro hlt
  -- The text up to the earlier closer would be a shorter one that closes.
  have hshorter : (cs.take m ++ style.closer).length < (cs.take n ++ style.closer).length := by
    rw [h.length_eq, h'.length_eq]
    omega
  have hpart : cs.take m ++ style.closer <+: cs.take n ++ style.closer :=
    List.prefix_of_prefix_length_le h'.take_append_closer h.take_append_closer
      (Nat.le_of_lt hshorter)
  exact h.closes.shortest _ hpart hshorter h'.closes.shut

end IsFirstUnmatched

/-- The search for a closer without a partner finds the first one. -/
theorem strayCloserAt_eq_some_iff :
    style.strayCloserAt cs = some n ↔ style.IsFirstUnmatched cs n := by
  have hfound {k : Nat} (hk : style.strayCloserAt cs = some k) : style.IsFirstUnmatched cs k := by
    have hcloser := (closer_prefix_of_closerFrom hk).2
    rw [Nat.sub_zero] at hcloser
    exact ⟨hcloser, style.closes_of_closerFrom hk⟩
  constructor
  · exact hfound
  · intro h
    cases hk : style.strayCloserAt cs with
    | none =>
      have hopen : style.StaysOpen 1 cs := style.staysOpen_of_closerFrom hk
      have hpart := h.take_append_closer
      exact absurd h.closes.shut (hopen _ hpart (Nat.lt_succ_of_le hpart.length_le))
    | some k =>
      have hfirst := hfound hk
      rw [Nat.le_antisymm (hfirst.le h) (h.le hfirst)]

end BlockStyle

/-! ### Reports -/

/-- Where a closer of the other style stands in a block comment, behind `n`
    characters of its body. -/
def Lexeme.placeInBody (l : Lexeme) (style : BlockStyle) (c : Comment) (n : Nat) : Location :=
  l.start.after (style.opener ++ c.body.take n)

namespace Diagnostic

/-- What is reported of a lexeme. -/
inductive Reports (l : Lexeme) : Diagnostic → Prop
  /-- A closer outside of any comment, where it stands. -/
  | stray {style : BlockStyle} (kind : l.kind = .symbol) (text : l.text.toList = style.closer) :
      Reports l (at_ (.strayCloser style) l.start)
  /-- A block comment or directive in which a closer of the other style has no
      partner, where the first one stands. The comment has no end, or it ends on
      a later line than that closer. -/
  | wrong {style : BlockStyle} {c : Comment} {n : Nat} (comment : l.comment? = some c)
      (style_eq : c.style = .block style) (first : style.other.IsFirstUnmatched c.body n)
      (matters : c.closed = false ∨ (l.placeInBody style c n).line < l.stop.line) :
      Reports l (at_ (.wrongCloser style l.start.line) (l.placeInBody style c n))

variable {l : Lexeme} {d d' : Diagnostic}

theorem wrongCloserAt?_eq_some_iff {style : BlockStyle} {c : Comment} {place : Location} :
    wrongCloserAt? l style c = some place ↔
      ∃ n, style.other.IsFirstUnmatched c.body n ∧ l.placeInBody style c n = place := by
  unfold wrongCloserAt?
  rw [Option.map_eq_some_iff]
  simp only [BlockStyle.strayCloserAt_eq_some_iff]
  rfl

theorem ofComment?_eq_some_iff {c : Comment} (hc : l.comment? = some c) :
    ofComment? l c = some d ↔ Reports l d := by
  -- A symbol is no comment.
  have hsymbol : l.kind ≠ .symbol := by
    intro hkind
    rw [Lexeme.comment?, hkind] at hc
    cases hc
  unfold ofComment?
  constructor
  · intro h
    split at h
    · cases h
    · next style hstyle =>
      obtain ⟨place, hplace, hreport⟩ := Option.bind_eq_some_iff.mp h
      obtain ⟨n, hfirst, rfl⟩ := wrongCloserAt?_eq_some_iff.mp hplace
      split at hreport
      · next hmatters =>
        obtain rfl := Option.some.inj hreport
        refine .wrong hc hstyle hfirst ?_
        simpa using hmatters
      · cases hreport
  · intro h
    cases h with
    | stray hkind _ => exact absurd hkind hsymbol
    | @wrong style c' n hc' hstyle hfirst hmatters =>
      obtain rfl : c = c' := Option.some.inj (hc.symm.trans hc')
      have hplace : wrongCloserAt? l style c = some (l.placeInBody style c n) :=
        wrongCloserAt?_eq_some_iff.mpr ⟨n, hfirst, rfl⟩
      have hreported :
          (!c.closed || decide ((l.placeInBody style c n).line < l.stop.line)) = true := by
        simpa using hmatters
      simp only [hstyle, hplace, Option.bind_some, hreported, if_true]

/-- What is found in a lexeme is what is reported of it. -/
theorem ofLexeme?_eq_some_iff : ofLexeme? l = some d ↔ Reports l d := by
  unfold ofLexeme?
  split
  next hkind =>
    have hcomment : l.comment? = none := by rw [Lexeme.comment?, hkind]
    constructor
    · intro h
      split at h
      · next htext =>
        obtain rfl := Option.some.inj h
        exact .stray hkind htext
      · split at h
        · next htext =>
          obtain rfl := Option.some.inj h
          exact .stray hkind htext
        · cases h
    · intro h
      cases h with
      | @stray style _ htext =>
        rw [htext]
        cases style <;> rfl
      | wrong hc =>
        rw [hcomment] at hc
        cases hc
  next c hkind =>
    exact ofComment?_eq_some_iff (by rw [Lexeme.comment?, hkind])
  next c hkind =>
    exact ofComment?_eq_some_iff (by rw [Lexeme.comment?, hkind])
  next hsymbol hcomment hdirective =>
    refine ⟨fun h => (by cases h), ?_⟩
    intro h
    cases h with
    | stray hkind _ => exact absurd hkind hsymbol
    | @wrong _ c _ hc =>
      unfold Lexeme.comment? at hc
      split at hc
      · next c' hkind => exact absurd hkind (hcomment c')
      · next c' hkind => exact absurd hkind (hdirective c')
      · cases hc

/-- There is at most one report on a lexeme. -/
theorem Reports.unique (h : Reports l d) (h' : Reports l d') : d = d' := by
  rw [← ofLexeme?_eq_some_iff] at h h'
  exact Option.some.inj (h.symm.trans h')

/-! ### Reports in order -/

/-- `d` stands before `d'` by line and column. -/
def StandsBefore (d d' : Diagnostic) : Prop :=
  d.line < d'.line ∨ d.line = d'.line ∧ d.column < d'.column

/-- A report stands within its lexeme, and not at its end. -/
theorem Reports.exists_place {source : String} {pre post : List Char}
    (hl : l.StandsAt source pre post) (h : Reports l d) :
    ∃ place : Location, d.line = place.line ∧ d.column = place.column ∧ l.start ≤ place ∧
      place.StandsBefore l.stop := by
  cases h with
  | stray =>
    refine ⟨l.start, rfl, rfl, Location.le_refl _, ?_⟩
    rw [hl.stop]
    exact l.start.standsBefore_after hl.nonempty
  | @wrong style c n hc hstyle hfirst _ =>
    refine ⟨l.placeInBody style c n, rfl, rfl, (Location.precedes_after _ _).order, ?_⟩
    obtain ⟨rest, hrest⟩ := hfirst.closer
    have htext : l.text.toList
        = (style.opener ++ c.body.take n) ++ (style.other.closer ++ (rest ++ c.closing)) := by
      have hbody : c.body = c.body.take n ++ (style.other.closer ++ rest) := by
        rw [hrest, List.take_append_drop]
      rw [(hl.comment c hc).1, Comment.chars, hstyle, CommentStyle.opener]
      nth_rewrite 1 [hbody]
      simp only [List.append_assoc]
    -- A closer does not begin with a line feed.
    have hplain : (style.other.closer ++ (rest ++ c.closing)).head? ≠ some '\n' := by
      cases style <;> simp [BlockStyle.other, BlockStyle.closer]
    have hne : style.other.closer ++ (rest ++ c.closing) ≠ [] := by
      cases style <;> simp [BlockStyle.other, BlockStyle.closer]
    rw [hl.stop, htext, Location.after_append _ fun _ => hplain]
    exact Location.standsBefore_after _ hne

end Diagnostic

section Source

variable {nested : Bool} {source : String} {l l' : Lexeme} {d d' : Diagnostic}

/-- What is reported of a lexeme stands before what is reported of a later one. -/
theorem Diagnostic.Reports.standsBefore (hl : l ∈ lex nested source) (hl' : l' ∈ lex nested source)
    (happart : l.stop.Precedes l'.start) (h : Reports l d) (h' : Reports l' d') :
    d.StandsBefore d' := by
  obtain ⟨_, _, hstands⟩ := standsAt_of_mem_lex hl
  obtain ⟨_, _, hstands'⟩ := standsAt_of_mem_lex hl'
  obtain ⟨place, hline, hcolumn, _, hbefore⟩ := h.exists_place hstands
  obtain ⟨place', hline', hcolumn', hafter, _⟩ := h'.exists_place hstands'
  have hplaces := (hbefore.trans_le happart.order).trans_le hafter
  rwa [StandsBefore, hline, hcolumn, hline', hcolumn']

end Source

/-- **Wrong closers are reported exactly.** The reports on the lexemes of a source
    stand in strictly increasing order of line and column. They are the reports
    on some of its lexemes, one on each and in their order; no lexeme has two, and
    of no other lexeme there is anything to report. -/
theorem reports_ofLexemes (nested : Bool) (source : String) :
    (Diagnostic.ofLexemes (lex nested source)).Pairwise Diagnostic.StandsBefore ∧
      (∀ l d d', Diagnostic.Reports l d → Diagnostic.Reports l d' → d = d') ∧
      ∃ reported : List Lexeme, reported.Sublist (lex nested source) ∧
        List.Forall₂ Diagnostic.Reports reported (Diagnostic.ofLexemes (lex nested source)) ∧
        ∀ l ∈ lex nested source, l ∈ reported ↔ ∃ d, Diagnostic.Reports l d := by
  unfold Diagnostic.ofLexemes
  refine ⟨?_, fun l d d' h h' => h.unique h', ?_⟩
  · rw [List.pairwise_filterMap]
    refine (pairwise_lexFrom nested .start source.toList).imp_of_mem ?_
    intro l l' hl hl' happart d hd d' hd'
    exact (Diagnostic.ofLexeme?_eq_some_iff.mp hd).standsBefore hl hl' happart
      (Diagnostic.ofLexeme?_eq_some_iff.mp hd')
  · refine ⟨(lex nested source).filter fun l => (Diagnostic.ofLexeme? l).isSome,
      List.filter_sublist, ?_, ?_⟩
    · induction lex nested source with
      | nil => exact .nil
      | cons l ls ih =>
        cases hd : Diagnostic.ofLexeme? l with
        | none =>
          rw [List.filter_cons_of_neg (by simp [hd]), List.filterMap_cons_none hd]
          exact ih
        | some d =>
          rw [List.filter_cons_of_pos (by simp [hd]), List.filterMap_cons_some hd]
          exact .cons (Diagnostic.ofLexeme?_eq_some_iff.mp hd) ih
    · intro l hl
      simp only [List.mem_filter, hl, true_and, Option.isSome_iff_exists,
        Diagnostic.ofLexeme?_eq_some_iff]

/-- A comment that is closed two lines later swallows a declaration. -/
example : Diagnostic.ofLexemes (lex false "\x7b x *)\nprocedure P;\n\x7b d \x7d")
    = [⟨.wrongCloser .brace 1, 1, 5⟩] := by
  decide +kernel

end PascalOutline
