import PascalOutline.Proofs.Nesting.Steps
import PascalOutline.Scan

/-! # Nesting in the outline

  The outline of nested declarations is the tree that they stand for, to any
  depth and width: every declaration is read to its end, whatever it holds,
  and leaves the blocks around it as it found them. Only what a name begins in
  the innermost one may have changed, and every declaration of the grammar
  sets it anew.
-/

namespace PascalOutline

open Nesting State

namespace Nesting

/-! ### One declaration after the other -/

/-- From `s` the recognizer comes to a state with `ws` ahead, the same blocks
    open, and some trees below the innermost one. -/
def Reads (s : State) (host : Host) (p : EntryId) (blocks : List Block) (b : Builder)
    (trees : List Tree) (ws : List Word) : Prop :=
  ∃ (t : State) (decls : DeclPart) (b' : Builder), s.run = t.run ∧
    t.Stands ws (.entry p (host.scope decls) :: blocks) b' ∧ Builder.Plants p b trees b'

variable {s : State} {host : Host} {p : EntryId} {decls : DeclPart} {ws : List Word}
  {blocks : List Block} {b : Builder}

theorem Reads.nil (h : s.Stands ws (.entry p (host.scope decls) :: blocks) b) :
    Reads s host p blocks b [] ws :=
  ⟨s, decls, b, rfl, h, .nil rfl⟩

/-- What stands after the trees of a declaration may be read on. -/
theorem Reads.append {ts us : List Tree} {vs : List Word} (hp : b.OpenAt p)
    (h : Reads s host p blocks b ts ws)
    (hrest : ∀ (t : State) (decls : DeclPart) (b' : Builder), b'.OpenAt p →
      t.Stands ws (.entry p (host.scope decls) :: blocks) b' →
      Reads t host p blocks b' us vs) :
    Reads s host p blocks b (ts ++ us) vs := by
  obtain ⟨t, decls, b', hrun, hstands, hplants⟩ := h
  obtain ⟨u, decls', b'', hrun', hstands', hplants'⟩ :=
    hrest t decls b' (hplants.openAt hp) hstands
  exact ⟨u, decls', b'', hrun.trans hrun', hstands', hplants.append hp hplants'⟩

theorem opens_of_type (t : TypeDecl) (ws : List Word) : Opens (t.words ++ ws) := by
  cases t <;> rw [TypeDecl.words] <;> exact ⟨.type_, by decide, _, rfl⟩

theorem opens_of_members (ms : List Member) (ws : List Word) :
    Opens (Member.allWords ms ++ .keyword .end_ :: ws) := by
  cases ms with
  | nil => exact ⟨.end_, by decide, _, rfl⟩
  | cons m ms =>
    rw [Member.allWords, List.append_assoc]
    cases m with
    | fields first others type =>
      rw [Member.words]
      exact ⟨.var, by decide, _, rfl⟩
    | type t =>
      rw [Member.words]
      exact opens_of_type t _

theorem opens_of_decl (d : Decl) (ws : List Word) : Opens (d.words ++ ws) := by
  cases d with
  | procedure n inner =>
    rw [Decl.words]
    exact ⟨.procedure, by decide, _, rfl⟩
  | type t =>
    rw [Decl.words]
    exact opens_of_type t ws

theorem opens_of_decls (ds : List Decl) (ws : List Word) :
    Opens (Decl.allWords ds ++ .keyword .begin :: ws) := by
  cases ds with
  | nil => exact ⟨.begin, by decide, _, rfl⟩
  | cons d ds =>
    rw [Decl.allWords, List.append_assoc]
    exact opens_of_decl d _

theorem reads_fields {first type : Ident} {others : List Ident} (hp : b.OpenAt p)
    (h : s.Stands ((Member.fields first others type).words ++ ws)
      (.entry p (Host.record.scope decls) :: blocks) b) :
    Reads s .record p blocks b (Member.fields first others type).trees ws := by
  rw [Member.words] at h
  have hvar := step_var h
  have hrun : s.run = s.step.step.run := by rw [h.run_eq, hvar.run_eq]
  obtain ⟨b', hstands, hplants⟩ := exists_valueDecl hp hvar
  rw [← step_field_name hvar] at hstands
  rw [Member.trees]
  exact ⟨_, _, b', hrun, hstands, hplants⟩

/-- A type is read up to what follows its equals sign. -/
theorem exists_run_typeBody {n : TypeName} {w : Word}
    (hw : w = .keyword .record ∨ w = .mark .opening)
    (h : s.Stands (.keyword .type_ :: .name n.toIdent :: .mark .equals :: w :: ws)
      (.entry p (host.scope decls) :: blocks) b) :
    ∃ (t : State) (first : Cursor) (e : Entry), s.run = (t.typeBody first e).run ∧
      t.Stands (w :: ws) (.entry p (host.scope .types) :: blocks) b ∧
      e.label = { kind := .type_, name := n.text, visibility := host.visibility } := by
  have hname := step_type h
  obtain ⟨t, e, hbody, hstands, hlabel⟩ := exists_typeBody hw hname host.visibility
  refine ⟨t, s.step.cursor, e, ?_, hstands, hlabel⟩
  rw [h.run_eq, hname.run_eq, step_type_name hname, hbody]

theorem reads_enumeration {n : TypeName} {first : Ident} {others : List Ident} (hp : b.OpenAt p)
    (h : s.Stands ((TypeDecl.enumeration n first others).words ++ ws)
      (.entry p (host.scope decls) :: blocks) b) :
    Reads s host p blocks b [(TypeDecl.enumeration n first others).tree host.visibility] ws := by
  rw [TypeDecl.words, List.append_assoc, List.append_assoc] at h
  obtain ⟨t, start, e, hrun, hstands, hlabel⟩ := exists_run_typeBody (Or.inr rfl) h
  obtain ⟨b', hread, hplants⟩ := exists_enumType hp hstands start e
  rw [hlabel] at hplants
  rw [TypeDecl.tree]
  exact ⟨_, _, b', hrun, hread, hplants⟩

mutual

/-- A type is read to its end. -/
theorem reads_type {s : State} {host : Host} {p : EntryId} {decls : DeclPart} {ws : List Word}
    {blocks : List Block} {b : Builder} : (type : TypeDecl) → b.OpenAt p →
    s.Stands (type.words ++ ws) (.entry p (host.scope decls) :: blocks) b →
      Reads s host p blocks b [type.tree host.visibility] ws
  | .enumeration _ _ _, hp, h => reads_enumeration hp h
  | .record n members, hp, h => by
    rw [TypeDecl.words, List.append_assoc, List.append_assoc] at h
    obtain ⟨t, start, e, hrun, hstands, hlabel⟩ := exists_run_typeBody (Or.inl rfl) h
    obtain ⟨e', hopened, hlabel'⟩ := exists_containerType hstands (opens_of_members members _) start
    -- The members go under the record, up to its `end`.
    obtain ⟨u, decls', b', hrun', hend, hplants⟩ :=
      reads_members members (Builder.openAt_push hp e') hopened
    obtain ⟨f, stop, hclosed, hf⟩ := exists_step_end (Or.inr rfl) hend
    rw [TypeDecl.tree]
    refine ⟨u.step, .types, _, ?_, hclosed, ?_⟩
    · rw [hrun, hrun', hend.run_eq]
    · have hplanted := hplants.node hp hf stop (g := id)
      rwa [hlabel', hlabel] at hplanted

/-- The members of a record are read. -/
theorem reads_members {s : State} {p : EntryId} {decls : DeclPart} {ws : List Word}
    {blocks : List Block} {b : Builder} : (members : List Member) → b.OpenAt p →
    s.Stands (Member.allWords members ++ ws) (.entry p (Host.record.scope decls) :: blocks) b →
      Reads s .record p blocks b (Member.forest members) ws
  | [], _, h => .nil h
  | m :: ms, hp, h => by
    rw [Member.allWords, List.append_assoc] at h
    rw [Member.forest]
    refine (reads_member m hp h).append hp ?_
    intro t decls' b' hp' hstands
    exact reads_members ms hp' hstands

/-- A member of a record is read. -/
theorem reads_member {s : State} {p : EntryId} {decls : DeclPart} {ws : List Word}
    {blocks : List Block} {b : Builder} : (member : Member) → b.OpenAt p →
    s.Stands (member.words ++ ws) (.entry p (Host.record.scope decls) :: blocks) b →
      Reads s .record p blocks b member.trees ws
  | .fields _ _ _, hp, h => reads_fields hp h
  | .type type, hp, h => by
    rw [Member.words] at h
    rw [Member.trees]
    exact reads_type type hp h

end

mutual

/-- A declaration is read to its end. -/
theorem reads_decl {s : State} {host : Host} {p : EntryId} {decls : DeclPart} {ws : List Word}
    {blocks : List Block} {b : Builder} (hhost : host.visibility = none) :
    (d : Decl) → b.OpenAt p →
    s.Stands (d.words ++ ws) (.entry p (host.scope decls) :: blocks) b →
      Reads s host p blocks b [d.tree] ws
  | .type type, hp, h => by
    rw [Decl.words] at h
    rw [Decl.tree, ← hhost]
    exact reads_type type hp h
  | .procedure n inner, hp, h => by
    rw [Decl.words, List.append_assoc, List.append_assoc] at h
    obtain ⟨e, hopened, hlabel⟩ := exists_step_procedure hhost h (opens_of_decls inner _)
    -- The inner declarations go under the procedure, up to its `begin`.
    obtain ⟨t, decls', b', hrun, hbegin, hplants⟩ :=
      reads_decls rfl inner (Builder.openAt_push hp e) hopened
    have hend := step_begin hbegin
    obtain ⟨f, stop, hclosed, hf⟩ := exists_step_end (Or.inl rfl) hend
    rw [Decl.tree]
    refine ⟨t.step.step, decls, _, ?_, hclosed, ?_⟩
    · rw [h.run_eq, hrun, hbegin.run_eq, hend.run_eq]
    · have hplanted := hplants.node hp hf stop (g := id)
      rwa [hlabel] at hplanted

/-- Some declarations are read one after the other. -/
theorem reads_decls {s : State} {host : Host} {p : EntryId} {decls : DeclPart} {ws : List Word}
    {blocks : List Block} {b : Builder} (hhost : host.visibility = none) :
    (ds : List Decl) → b.OpenAt p →
    s.Stands (Decl.allWords ds ++ ws) (.entry p (host.scope decls) :: blocks) b →
      Reads s host p blocks b (Decl.forest ds) ws
  | [], _, h => .nil h
  | d :: ds, hp, h => by
    rw [Decl.allWords, List.append_assoc] at h
    rw [Decl.forest]
    refine (reads_decl hhost d hp h).append hp ?_
    intro t decls' b' hp' hstands
    exact reads_decls hhost ds hp' hstands

end

/-! ### A whole source -/

/-- The label of a root without a module header. -/
def rootLabel (file : String) : Label :=
  { kind := .other, name := (Path.stem? file).getD file }

/-- A builder that holds nothing but such a root. -/
def rooted (file : String) : Builder :=
  Builder.push { file } { kind := .other, name := (Path.stem? file).getD file }

theorem openAt_rooted (file : String) : (rooted file).OpenAt 0 :=
  ⟨rfl, Nat.zero_lt_one⟩

/-- The state before the words of some declarations, at no place in
    particular. -/
def before (options : Options) (file : String) (ws : List Word) : State :=
  { cursor := { past := [], ahead := ws.map Word.token, eof := .start, lexemeCount := 0 }
    draft := { options, builder := { file }, unexamined := [] } }

theorem alike_initial_spelling (options : Options) (file : String) (ws : List Word) :
    (initial options file (Lexer.lex options.nestedComments (Word.spelling ws))).Alike
      (before options file ws) :=
  ⟨Word.sameCode_lex_spelling options.nestedComments ws, rfl, rfl, rfl, rfl⟩

theorem moduleKind?_eq_none {c : Cursor} {ds : List Decl} (h : c.Faces (Decl.allWords ds)) :
    moduleKind? c = none := by
  cases ds with
  | nil => simp [moduleKind?, Cursor.keyword?, Cursor.nthKeyword?, h.nth?, Decl.allWords]
  | cons d ds =>
    obtain ⟨kw, hkw, rest, hwords⟩ := opens_of_decl d (Decl.allWords ds)
    rw [Decl.allWords, hwords] at h
    rw [moduleKind?, h.keyword?, Word.keyword?_token_keyword]
    simp only [openers, List.mem_cons, List.not_mem_nil, or_false] at hkw
    rcases hkw with rfl | rfl | rfl | rfl | rfl <;> rfl

theorem stands_makeRoot_before (options : Options) (file : String) (ds : List Decl) :
    ((before options file (Decl.allWords ds)).makeRoot file).Stands (Decl.allWords ds)
      [.entry 0 (Host.module.scope .none)] (rooted file) := by
  have hheader : moduleKind? (before options file (Decl.allWords ds)).cursor = none :=
    moduleKind?_eq_none rfl
  rw [makeRoot, hheader]
  exact ⟨⟨rfl, rfl, rfl, rfl⟩, rfl⟩

/-- A run over some declarations ends with their trees below the root. -/
theorem exists_run_before (options : Options) (file : String) (ds : List Decl) :
    ∃ (decls : DeclPart) (b : Builder),
      ((before options file (Decl.allWords ds)).makeRoot file).run.Stands []
        [.entry 0 (Host.module.scope decls)] b ∧
      Builder.Plants 0 (rooted file) (Decl.forest ds) b := by
  have hroot := stands_makeRoot_before options file ds
  rw [← List.append_nil (Decl.allWords ds)] at hroot
  obtain ⟨t, decls, b, hrun, hstands, hplants⟩ := reads_decls rfl ds (openAt_rooted file) hroot
  rw [List.append_nil] at hrun
  have hfinished : t.Finished := by
    refine Or.inr ?_
    rw [Cursor.atEnd, hstands.faces.eq]
    rfl
  rw [hrun, run_of_finished hfinished]
  exact ⟨decls, b, hstands, hplants⟩

/-- The finished state for some declarations has their trees below the root, and
    reports nothing. -/
theorem exists_ofSource (options : Options) (file : String) (ds : List Decl) {s : State}
    (hs : s = ofSource options file (Lexer.lex options.nestedComments (source ds))) :
    s.diagnostics = #[] ∧ ∃ b, s.draft.builder.bare = b.bare ∧
      Builder.Plants 0 (rooted file) (Decl.forest ds) b := by
  obtain ⟨decls, b, hstands, hplants⟩ := exists_run_before options file ds
  have halike : s.Alike ((before options file (Decl.allWords ds)).makeRoot file).run.finish := by
    rw [hs]
    exact ((alike_initial_spelling options file (Decl.allWords ds)).makeRoot file).run.finish
  have hproblems := halike.problems
  rw [show (finish _).diagnostics = _ from hstands.quiet, Array.map_empty,
    Array.map_eq_empty_iff] at hproblems
  have hfinish := Builder.Documents.bare_eq (documents_finish
    ((before options file (Decl.allWords ds)).makeRoot file).run)
  exact ⟨hproblems, b, (halike.outline.trans hfinish).trans hstands.outline, hplants⟩

end Nesting

open Nesting

/-- The outline of nested declarations mirrors them: below a root that is named
    after the file it has one entry for each procedure, type, enumeration value
    and field, nested as they are and in their order, and nothing else. Nothing
    is reported. -/
theorem tree?_scan_source (options : Options) (file : String) (ds : List Decl) :
    let report := scan options file (source ds)
    let tree := Tree.node (rootLabel file) (Decl.forest ds)
    report.outline.tree? = some tree ∧ report.outline.size = tree.size ∧
      report.diagnostics = [] := by
  intro report tree
  obtain ⟨hquiet, b, hbare, hplants⟩ := exists_ofSource options file ds rfl
  have hroot : b.hasRoot = true := (hplants.openAt (openAt_rooted file)).hasRoot
  have hclosed : b.unclosed = 0 := by
    rw [Builder.unclosed, hplants.stack]
    rfl
  have houtline : report.outline.nodes = tree.nodes 0 :=
    calc report.outline.nodes
        = (b.finish .start).nodes := Outline.nodes_congr (Builder.finish_congr hbare _ _)
      _ = b.nodes := Builder.nodes_finish hroot hclosed .start
      _ = tree.nodes 0 := hplants.nodes
  obtain ⟨htree, hsize⟩ := Outline.tree?_of_nodes houtline
  have hdiagnostics : report.diagnostics = ([] ++ #[].toList).mergeSort Diagnostic.atOrBefore := by
    rw [← hquiet, ← Word.ofLexemes_lex_spelling options.nestedComments (Decl.allWords ds)]
    rfl
  refine ⟨htree, hsize, ?_⟩
  rw [hdiagnostics]
  exact List.mergeSort_nil

end PascalOutline
