import PascalOutline.Proofs.Cursor.NamePlace
import PascalOutline.Proofs.Documentation
import PascalOutline.Proofs.Recognizer.Naming
import PascalOutline.Proofs.Scan
import PascalOutline.Proofs.WrongClosers

/-! # Missing names are reported

  A declaration whose header breaks off before its name, as in `procedure;`,
  still gets an entry, with an empty name. Main statement: the reports of
  missing names are those entries, one report for each of them and in their
  order; each tells the kind of the entry and stands where a token follows the
  keyword of the declaration (`missingNames_scan`). What is reported of single
  lexemes stands in between, and all reports are in source order.

  While a source is read, the reports so far belong to the entries so far
  (`State.Reported`): a step is quiet, or it reads a header, and then the check
  of the name and the new entry go together. Where a declaration begins later,
  its name is expected later, so the order of the entries is one of the source.
-/

namespace PascalOutline

/-! ### Reports -/

/-- Whether a problem is a missing name. -/
def Problem.isMissingName : Problem → Bool
  | missingName _ => true
  | _ => false

/-- The report on a declaration whose name is missing. -/
def Title.report (lexemes : List Lexeme) (t : Title) : Diagnostic :=
  .at_ (.missingName t.kind) (namePlace lexemes t.start)

/-- The reports on those of some declarations whose names are missing. -/
def Title.reports (lexemes : List Lexeme) (titles : List Title) : List Diagnostic :=
  (titles.filter Title.isNameless).map (Title.report lexemes)

/-- The first declaration of a source may as well begin with the text: its name
    is expected at the same place, or it needs none. -/
def Title.Leads (lexemes : List Lexeme) (t : Title) : Prop :=
  t.kind = .other ∨ namePlace lexemes t.start = namePlace lexemes .start

theorem Title.Leads.reports_eq {lexemes : List Lexeme} {t : Title} (h : t.Leads lexemes)
    (others : List Title) :
    reports lexemes (t.fromStart :: others) = reports lexemes (t :: others) := by
  have hsame : t.fromStart.isNameless = t.isNameless := rfl
  cases hnameless : t.isNameless with
  | false =>
    rw [reports, reports, List.filter_cons_of_neg (by simp [hsame, hnameless]),
      List.filter_cons_of_neg (by simp [hnameless])]
  | true =>
    have hother : t.kind ≠ .other := (of_decide_eq_true hnameless).2
    have hreport : t.fromStart.report lexemes = t.report lexemes :=
      congrArg (Diagnostic.at_ _) (h.resolve_left hother).symm
    rw [reports, reports, List.filter_cons_of_pos (hsame.trans hnameless),
      List.filter_cons_of_pos hnameless, List.map_cons, List.map_cons, hreport]

/-! ### Reports while a source is read -/

theorem State.exists_keyword?_of_moduleKind? {c : Cursor} {kind : EntryKind}
    (h : moduleKind? c = some kind) : ∃ kw, c.keyword? = some kw ∧ kw ≠ .class_ := by
  unfold moduleKind? at h
  split at h
  next hkw => exact ⟨_, hkw, by decide⟩
  next hkw => exact ⟨_, hkw, by decide⟩
  next hkw => exact ⟨_, hkw, by decide⟩
  next hkw => exact ⟨_, hkw, by decide⟩
  next => cases h

namespace State

variable {lexemes : List Lexeme} {s t : State} {e : Entry}

/-- The reports so far are those on the entries without a name, in the order
    of the entries. -/
def Reported (lexemes : List Lexeme) (s : State) : Prop :=
  s.diagnostics.toList = Title.reports lexemes s.draft.builder.titles

theorem titles_addItem (s : State) (e : Entry) :
    (s.addItem e).draft.builder.titles = s.draft.builder.titles ++ [e.title] :=
  (Builder.Documents.titles_eq (Draft.documents_itemDone _ _ _)).trans (Builder.titles_addLeaf _ e)

theorem titles_pushItem (s : State) (e : Entry) :
    (s.pushItem e).draft.builder.titles = s.draft.builder.titles ++ [e.title] :=
  (Builder.Documents.titles_eq (Draft.documents_itemDone _ _ _)).trans (Builder.titles_push _ e)

namespace Reported

theorem quiet (h : s.Reported lexemes) (hquiet : s.Quiet t) : t.Reported lexemes := by
  have hnameless := congrArg (List.map (Title.report lexemes)) hquiet.nameless
  unfold Reported
  rw [hquiet.diagnostics]
  exact h.trans hnameless.symm

/-- The check of a name goes with the entry of that name. -/
theorem declare (h : s.Reported lexemes)
    (hdiagnostics : t.diagnostics
      = (s.checkName e.name e.kind (namePlace lexemes e.start)).diagnostics)
    (htitles : t.draft.builder.titles = s.draft.builder.titles ++ [e.title])
    (hkind : e.kind ≠ .other) : t.Reported lexemes := by
  by_cases hname : e.name = ""
  · have hnameless : e.title.isNameless = true := decide_eq_true ⟨hname, hkind⟩
    rw [checkName, if_pos hname] at hdiagnostics
    unfold Reported
    rw [hdiagnostics, Title.reports, htitles, List.filter_append, List.map_append,
      List.filter_cons_of_pos hnameless]
    exact (Array.toList_push ..).trans (congrArg (· ++ _) h)
  · rw [checkName, if_neg hname] at hdiagnostics
    exact h.quiet
      ⟨hdiagnostics, Builder.nameless_append htitles (Title.isNameless_eq_false hname)⟩

section Declare

variable {name : String} {kind : EntryKind} {place : Location} (hname : e.name = name)
  (hkind : e.kind = kind) (hplace : namePlace lexemes e.start = place) (hother : kind ≠ .other)
include hname hkind hplace hother

theorem addItem (h : s.Reported lexemes) :
    ((s.checkName name kind place).addItem e).Reported lexemes := by
  subst hname hkind hplace
  refine h.declare rfl ?_ hother
  rw [titles_addItem, draft_checkName]

theorem pushItem (h : s.Reported lexemes) :
    ((s.checkName name kind place).pushItem e).Reported lexemes := by
  subst hname hkind hplace
  refine h.declare rfl ?_ hother
  rw [titles_pushItem, draft_checkName]

end Declare

theorem initial (options : Options) (file : String) (lexemes : List Lexeme) :
    (initial options file lexemes).Reported lexemes :=
  rfl

section Source

variable {nested : Bool} {source : String}

theorem routineDecl (h : s.Reported (Lexer.lex nested source))
    (hs : (Cursor.ofLexemes (Lexer.lex nested source)).Reaches s.cursor)
    (member : Option Visibility) : (s.routineDecl member).Reported (Lexer.lex nested source) := by
  have hled := h.quiet (Quiet.refl s).takeLeading
  unfold State.routineDecl
  dsimp only
  split
  next => exact hled.quiet (Quiet.refl _).next
  next header done hread =>
    have hkind := (Header.nameAt_routine? hread).2
    have hplace := Header.ReadAt.namePlace_eq ⟨done, .inl hread⟩ hs
    have hmoved := hled.quiet ((Quiet.refl _).moveTo done)
    split
    · exact hmoved.addItem rfl rfl hplace hkind
    · exact hmoved.pushItem rfl rfl hplace hkind

theorem propertyDecl (h : s.Reported (Lexer.lex nested source))
    (hs : (Cursor.ofLexemes (Lexer.lex nested source)).Reaches s.cursor) (visibility : Visibility) :
    (s.propertyDecl visibility).Reported (Lexer.lex nested source) := by
  have hled := h.quiet (Quiet.refl s).takeLeading
  unfold State.propertyDecl
  dsimp only
  split
  next => exact hled.quiet (Quiet.refl _).next
  next header done hread =>
    have hkind := (Header.nameAt_property? hread).2
    have hplace := Header.ReadAt.namePlace_eq ⟨done, .inr hread⟩ hs
    exact (hled.quiet ((Quiet.refl _).moveTo done)).addItem rfl rfl hplace hkind

/-- The step lemma. -/
theorem step (h : s.Reported (Lexer.lex nested source))
    (hs : (Cursor.ofLexemes (Lexer.lex nested source)).Reaches s.cursor)
    (hahead : s.cursor.ahead ≠ []) : s.step.Reported (Lexer.lex nested source) := by
  have hreads := reads_step ((Cursor.worded_ofLexemes nested source).of_reaches hs) hahead
  generalize s.step = t at hreads ⊢
  cases hreads with
  | quiet hquiet => exact h.quiet hquiet
  | routine member => exact h.routineDecl hs member
  | property visibility => exact h.propertyDecl hs visibility

/-- The header of the module begins the source. -/
theorem moduleHeader (options : Options) (file : String) {kind : EntryKind}
    (hkind : moduleKind? (Cursor.ofLexemes (Lexer.lex nested source)) = some kind) :
    ((State.initial options file (Lexer.lex nested source)).moduleHeader kind).Reported
      (Lexer.lex nested source) := by
  have hled := (initial options file (Lexer.lex nested source)).quiet (Quiet.refl _).takeLeading
  obtain ⟨kw, hkw, hclass⟩ := exists_keyword?_of_moduleKind? hkind
  have hplace := namePlace_location (.refl _) (Cursor.ahead_of_keyword? hkw)
  rw [Cursor.passIntroduction_of_keyword? hkw hclass] at hplace
  unfold State.moduleHeader
  dsimp only
  refine (hled.quiet ((Quiet.refl _).moveTo _)).pushItem rfl rfl hplace ?_
  rintro rfl
  cases isModule_of_moduleKind? hkind

theorem root (options : Options) (file : String) (nested : Bool) (source : String) :
    (State.root options file (Lexer.lex nested source)).Reported (Lexer.lex nested source) := by
  unfold State.root makeRoot
  dsimp only
  split
  next kind hkind => exact moduleHeader options file hkind
  next =>
    -- What stands for a source without a header needs no name.
    refine (initial options file (Lexer.lex nested source)).quiet ⟨rfl, ?_⟩
    exact Builder.nameless_append (Builder.titles_push _ _) (decide_eq_false fun h => h.2 rfl)

end Source

end Reported

/-- The run lemma. -/
theorem Reachable.reported {options : Options} {file source : String} {nested : Bool} {s : State}
    (h : Reachable options file (Lexer.lex nested source) s) :
    s.Reported (Lexer.lex nested source) := by
  induction h with
  | root => exact Reported.root options file nested source
  | @step s hs hcontinues ih =>
    exact ih.step hs.reaches (Cursor.ahead_ne_nil_of_atEnd (s.not_finished_iff.mp hcontinues).1)

/-! ### The root -/

theorem exists_titles_moduleHeader (s : State) (kind : EntryKind) :
    ∃ t : Title, (s.moduleHeader kind).draft.builder.titles = s.draft.builder.titles ++ [t] ∧
      t.start = s.cursor.location := by
  have hled : s.takeLeading.2.draft.builder.titles = s.draft.builder.titles :=
    Builder.Documents.titles_eq (s.draft.documents_takeLeading s.cursor)
  unfold moduleHeader
  dsimp only
  refine ⟨_, (titles_pushItem _ _).trans (congrArg (· ++ _) ?_), rfl⟩
  rw [draft_checkName]
  exact hled

/-- The first entry stays the first one. -/
theorem Reachable.head?_titles {options : Options} {file : String} {lexemes : List Lexeme}
    {s : State} (h : Reachable options file lexemes s) {t : Title}
    (ht : (State.root options file lexemes).draft.builder.titles = [t]) :
    s.draft.builder.titles.head? = some t := by
  have hfirst : (State.root options file lexemes).draft.builder.titles[0]? = some t := by
    rw [ht]
    rfl
  rw [Builder.getElem?_titles] at hfirst
  obtain ⟨e, he, rfl⟩ := Option.map_eq_some_iff.mp hfirst
  obtain ⟨e', he', hkeeps⟩ := (PascalOutline.Acts.grows h.acts).1.kept 0 e he
  rw [List.head?_eq_getElem?, Builder.getElem?_titles, he']
  exact congrArg some hkeeps.title_eq

section Source

variable (options : Options) (file : String) (nested : Bool) (source : String)

theorem reported_ofSource :
    (ofSource options file (Lexer.lex nested source)).Reported (Lexer.lex nested source) := by
  have hrun := reachable_run options file (Lexer.lex nested source)
  exact hrun.reported.quiet ⟨rfl, Builder.nameless_congr (documents_finish _).titles_eq⟩

theorem exists_titles_root :
    ∃ t, (State.root options file (Lexer.lex nested source)).draft.builder.titles = [t] ∧
      t.Leads (Lexer.lex nested source) := by
  unfold State.root makeRoot
  dsimp only
  split
  next kind hkind =>
    obtain ⟨kw, hkw, _⟩ := exists_keyword?_of_moduleKind? hkind
    obtain ⟨t, htitles, hstart⟩ :=
      exists_titles_moduleHeader (initial options file (Lexer.lex nested source)) kind
    refine ⟨t, htitles, .inr ?_⟩
    rw [hstart, namePlace_start]
    exact namePlace_location (.refl _) (Cursor.ahead_of_keyword? hkw)
  next => exact ⟨_, Builder.titles_push _ _, .inl rfl⟩

/-- The root is the first entry to the end, where it is moved to the beginning
    of the text. -/
theorem exists_titles_outline :
    ∃ t others, t.Leads (Lexer.lex nested source) ∧
      (ofSource options file (Lexer.lex nested source)).draft.builder.titles = t :: others ∧
      (ofSource options file (Lexer.lex nested source)).outline.titles = t.fromStart :: others := by
  obtain ⟨t, hroot, hleads⟩ := exists_titles_root options file nested source
  have hrun := reachable_run options file (Lexer.lex nested source)
  obtain ⟨others, htitles⟩ := List.head?_eq_some_iff.mp (hrun.head?_titles hroot)
  have hfinish := (documents_finish (root options file (Lexer.lex nested source)).run).titles_eq
  refine ⟨t, others, hleads, hfinish.trans htitles, ?_⟩
  have harena := hrun.agrees.arena.of_sameFrame (documents_finish _).sameFrame
  refine (Builder.titles_finish harena.hasRoot _).trans ?_
  exact congrArg (List.modify · 0 Title.fromStart) (hfinish.trans htitles)

end Source

end State

/-! ### The finished outline -/

/-- After the root, entries begin in the order in which they were made. -/
theorem Builder.Spans.pairwise_titles {b : Builder} {source : String} {p : Location}
    (h : b.Spans source p) :
    b.titles.tail.Pairwise fun t u => t.start.offset < u.start.offset := by
  have hends : ∀ {i : Nat} {t : Title}, b.titles[i]? = some t →
      ∃ stop, b.ends? i = some (t.start, stop) := by
    intro i t ht
    rw [getElem?_titles] at ht
    obtain ⟨e, he, rfl⟩ := Option.map_eq_some_iff.mp ht
    exact ⟨e.stop, by rw [ends?, he]; rfl⟩
  rw [List.pairwise_iff_getElem]
  intro i j hi hj hij
  -- The tail begins with the second title.
  have htail : ∀ {k : Nat} (hk : k < b.titles.tail.length),
      b.titles[k + 1]? = some b.titles.tail[k] := by
    intro k hk
    rw [← List.getElem?_tail, List.getElem?_eq_getElem hk]
  obtain ⟨_, hx⟩ := hends (htail hi)
  obtain ⟨_, hy⟩ := hends (htail hj)
  exact (h.rising _ _ _ _ hx hy (Nat.succ_ne_zero i) (Nat.succ_lt_succ hij)).2

namespace Diagnostic

theorem atOrBefore_trans (a b c : Diagnostic) (hab : a.atOrBefore b = true)
    (hbc : b.atOrBefore c = true) : a.atOrBefore c = true := by
  simp only [atOrBefore, Bool.or_eq_true, Bool.and_eq_true, decide_eq_true_eq, beq_iff_eq] at *
  omega

theorem atOrBefore_total (a b : Diagnostic) : (a.atOrBefore b || b.atOrBefore a) = true := by
  simp only [atOrBefore, Bool.or_eq_true, Bool.and_eq_true, decide_eq_true_eq, beq_iff_eq]
  omega

theorem atOrBefore_at {a b : Location} (h : a.Precedes b) (p q : Problem) :
    (at_ p a).atOrBefore (at_ q b) = true := by
  have horder := h.order
  rw [Location.le_def] at horder
  show (decide (a.line < b.line) || (a.line == b.line && decide (a.column ≤ b.column))) = true
  simp only [Bool.or_eq_true, Bool.and_eq_true, decide_eq_true_eq, beq_iff_eq]
  omega

/-- Nothing that shows in single lexemes is a missing name. -/
theorem isMissingName_ofLexemes (lexemes : List Lexeme) :
    ∀ d ∈ ofLexemes lexemes, d.problem.isMissingName = false := by
  intro d hd
  obtain ⟨l, _, hl⟩ := List.mem_filterMap.mp hd
  cases ofLexeme?_eq_some_iff.mp hl <;> rfl

end Diagnostic

/-! ### The reports of a scan -/

theorem Title.isMissingName_reports {lexemes : List Lexeme} {titles : List Title} :
    ∀ d ∈ reports lexemes titles, d.problem.isMissingName = true := by
  intro d hd
  obtain ⟨t, _, rfl⟩ := List.mem_map.mp hd
  rfl

theorem Title.filter_append_reports (lexemes : List Lexeme) (titles : List Title) :
    ((Diagnostic.ofLexemes lexemes ++ reports lexemes titles).filter
      fun d => d.problem.isMissingName) = reports lexemes titles := by
  have hnone : ((Diagnostic.ofLexemes lexemes).filter fun d => d.problem.isMissingName) = [] :=
    List.filter_eq_nil_iff.mpr fun d hd => by
      simp [Diagnostic.isMissingName_ofLexemes lexemes d hd]
  rw [List.filter_append, hnone, List.filter_eq_self.mpr isMissingName_reports, List.nil_append]

theorem Title.reports_titles (lexemes : List Lexeme) (o : Outline) :
    reports lexemes o.titles
      = (o.entries.toList.filter fun e => e.name = "" ∧ e.kind ≠ .other).map
          fun e => .at_ (.missingName e.kind) (namePlace lexemes e.start) := by
  rw [reports, Outline.titles, List.filter_map, List.map_map]
  rfl

/-- Reports on declarations in order are in order. -/
theorem Title.pairwise_reports {nested : Bool} {source : String} {titles : List Title}
    (h : titles.Pairwise fun t u => t.start.offset ≤ u.start.offset) :
    (reports (Lexer.lex nested source) titles).Pairwise fun a b => a.atOrBefore b = true := by
  refine List.pairwise_map.mpr ((h.filter _).imp ?_)
  intro t u htu
  exact Diagnostic.atOrBefore_at (precedes_namePlace htu) _ _

namespace State

section Source

variable (options : Options) (file : String) (nested : Bool) (source : String)

/-- What is reported while a source is read are the missing names of the
    finished outline. -/
theorem diagnostics_ofSource :
    (ofSource options file (Lexer.lex nested source)).diagnostics.toList
      = Title.reports (Lexer.lex nested source)
          (ofSource options file (Lexer.lex nested source)).outline.titles := by
  obtain ⟨t, others, hleads, htitles, houtline⟩ :=
    exists_titles_outline options file nested source
  have hreported : _ = _ := reported_ofSource options file nested source
  rw [hreported, houtline, htitles, hleads.reports_eq]

theorem pairwise_titles_outline :
    (ofSource options file (Lexer.lex nested source)).outline.titles.Pairwise
      fun t u => t.start.offset ≤ u.start.offset := by
  obtain ⟨t, others, _, htitles, houtline⟩ := exists_titles_outline options file nested source
  have hspans := (reachable_run options file (Lexer.lex nested source)).spans.2.of_sameFrame
    (sameFrame_finish _)
  have hothers := hspans.pairwise_titles (b := (ofSource options file _).draft.builder)
  rw [htitles] at hothers
  rw [houtline]
  exact List.pairwise_cons.mpr ⟨fun _ _ => Nat.zero_le _, hothers.imp Nat.le_of_lt⟩

end Source

end State

/-- Sorting does not change the order of what is in order already. -/
theorem filter_mergeSort {α : Type} {le : α → α → Bool}
    (htrans : ∀ a b c, le a b = true → le b c = true → le a c = true)
    (htotal : ∀ a b, (le a b || le b a) = true) {p : α → Bool} {l : List α}
    (h : (l.filter p).Pairwise fun a b => le a b = true) :
    (l.mergeSort le).filter p = l.filter p := by
  have hsublist := (List.sublist_mergeSort htrans htotal h List.filter_sublist).filter p
  simp only [List.filter_filter, Bool.and_self] at hsublist
  have hlength := ((List.mergeSort_perm l le).filter p).length_eq
  exact (hsublist.eq_of_length hlength.symm).symm

section Scan

variable (options : Options) (file source : String)

/-- The reports on single lexemes and on the entries of the outline, sorted. -/
theorem diagnostics_scan :
    (scan options file source).diagnostics
      = (Diagnostic.ofLexemes (Lexer.lex options.nestedComments source)
          ++ Title.reports (Lexer.lex options.nestedComments source)
            (scan options file source).outline.titles).mergeSort Diagnostic.atOrBefore := by
  have hreports := State.diagnostics_ofSource options file options.nestedComments source
  unfold scan Report.ofState
  dsimp only
  rw [hreports]

theorem pairwise_titles_scan :
    (scan options file source).outline.titles.Pairwise fun t u => t.start.offset ≤ u.start.offset :=
  State.pairwise_titles_outline options file options.nestedComments source

end Scan

/-- Missing names are reported exactly, for every source: the reports of
    missing names are the entries of the outline that have no name and declare
    something, one report for each, in the order of the entries. A report
    tells the kind of its entry and stands where the name was expected, at the
    token that follows the keyword of the declaration, or at the end of the
    text. All reports of the scan are sorted by line and column. -/
theorem missingNames_scan (options : Options) (file source : String) :
    let lexemes := Lexer.lex options.nestedComments source
    let report := scan options file source
    (report.diagnostics.filter fun d => d.problem.isMissingName)
        = (report.outline.entries.toList.filter fun e => e.name = "" ∧ e.kind ≠ .other).map
            (fun e => .at_ (.missingName e.kind) (namePlace lexemes e.start)) ∧
      report.diagnostics.Pairwise fun a b => a.atOrBefore b = true := by
  intro lexemes report
  have hsorted : report.diagnostics = _ := diagnostics_scan options file source
  have hrising := pairwise_titles_scan options file source
  -- What shows in single lexemes is never a missing name.
  have hmissing := Title.filter_append_reports lexemes report.outline.titles
  constructor
  · rw [hsorted, filter_mergeSort Diagnostic.atOrBefore_trans Diagnostic.atOrBefore_total]
    · exact hmissing.trans (Title.reports_titles lexemes report.outline)
    · rw [hmissing]
      exact Title.pairwise_reports hrising
  · rw [hsorted]
    exact List.pairwise_mergeSort Diagnostic.atOrBefore_trans Diagnostic.atOrBefore_total _

/-- A unit, a class function and a property without names. -/
example :
    let source := "unit;\ntype T = class\n  class function (a: T): T;\n  property"
    (Title.reports (Lexer.lex false source) (scan {} "a.pas" source).outline.titles).map
        Diagnostic.describe
      = ["1:5: unit declaration without a name", "3:18: function declaration without a name",
          "4:11: property declaration without a name"] := by
  decide +kernel

end PascalOutline
