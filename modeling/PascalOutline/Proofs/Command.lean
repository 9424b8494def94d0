import PascalOutline.Command.Session
import PascalOutline.Proofs.FileTree
import PascalOutline.Proofs.Path.Order
import PascalOutline.Proofs.Text.Case

/-! # Runs over files

  A run that asks for files succeeds when the format is known, the output
  folder can be made, every argument can be expanded and every input can be
  read and delivered. Expanding arguments changes nothing, and what an input
  does is to print or to write one outline. The log of a run grows on the way,
  and nothing else depends on it (`effect`).
-/

namespace PascalOutline

/-! ### Arguments -/

namespace Arguments

variable {a b : Arguments} {waiting : Option ValueOption}

theorem output_setValue {option : ValueOption} {value : String}
    (h : a.setValue option value = some b) (ha : a.output ≠ some "") : b.output ≠ some "" := by
  cases option with
  | output =>
    rw [setValue] at h
    split at h
    · cases h
    next hvalue =>
      cases h
      intro hempty
      exact hvalue (Or.inr (Option.some.inj hempty))
  | format =>
    rw [setValue] at h
    split at h <;> cases h
    exact ha
  | prototype =>
    rw [setValue] at h
    split at h <;> cases h
    exact ha
  | docGap =>
    rw [setValue] at h
    split at h
    · cases h
    · obtain ⟨gap, -, rfl⟩ := Option.map_eq_some_iff.mp h
      exact ha

theorem output_setFlag {option : FlagOption} (h : a.setFlag option = some b) :
    b.output = a.output := by
  cases option <;> rw [setFlag] at h
  · split at h <;> cases h
    rfl
  · split at h <;> cases h
    rfl
  · cases h
    rfl

theorem output_readLong {name : String} {attached : Option String}
    (h : a.readLong name attached = some (b, waiting)) (ha : a.output ≠ some "") :
    b.output ≠ some "" := by
  unfold readLong at h
  split at h
  next =>
    obtain ⟨c, hc, heq⟩ := Option.map_eq_some_iff.mp h
    cases heq
    exact output_setValue hc ha
  next =>
    cases h
    exact ha
  next =>
    obtain ⟨c, hc, heq⟩ := Option.map_eq_some_iff.mp h
    cases heq
    rwa [output_setFlag hc]
  next => cases h

theorem output_readShort {letters : List Char} (h : a.readShort letters = some (b, waiting))
    (ha : a.output ≠ some "") : b.output ≠ some "" := by
  induction letters generalizing a with
  | nil =>
    cases h
    exact ha
  | cons c cs ih =>
    rw [readShort] at h
    split at h
    next =>
      obtain ⟨a', ha', h⟩ := Option.bind_eq_some_iff.mp h
      apply ih h
      rwa [output_setFlag ha']
    next =>
      split at h
      · cases h
        exact ha
      all_goals
        obtain ⟨a', ha', heq⟩ := Option.map_eq_some_iff.mp h
        cases heq
        exact output_setValue ha' ha
    next => cases h

theorem output_readFrom {args : List String} (h : a.readFrom waiting args = some b)
    (ha : a.output ≠ some "") : b.output ≠ some "" := by
  induction args generalizing a waiting with
  | nil =>
    rw [readFrom] at h
    split at h <;> cases h
    exact ha
  | cons arg args ih =>
    unfold readFrom at h
    split at h
    next =>
      obtain ⟨a', ha', h⟩ := Option.bind_eq_some_iff.mp h
      exact ih h (output_setValue ha' ha)
    next => cases h
    next =>
      cases h
      exact ha
    next =>
      obtain ⟨⟨a', waiting'⟩, ha', h⟩ := Option.bind_eq_some_iff.mp h
      exact ih h (output_readLong ha' ha)
    next =>
      obtain ⟨⟨a', waiting'⟩, ha', h⟩ := Option.bind_eq_some_iff.mp h
      exact ih h (output_readShort ha' ha)
    next => exact ih h ha

/-- The output folder has a path. -/
theorem output_ne_of_read {args : List String} {folder : String} (h : Arguments.read args = some a)
    (hfolder : a.output = some folder) : folder ≠ "" := by
  rintro rfl
  exact output_readFrom h (by simp) hfolder

end Arguments

/-! ### Sources -/

namespace Session

/-- The extension decides whether there is a reader for a file. -/
theorem forExtension_extension? (path : String) (options : Options) :
    FrontEnd.forExtension ((Path.extension? path).getD "") options =
      if isSource path = true then .ok ⟨options⟩
      else .error ⟨lowered ((Path.extension? path).getD "")⟩ := by
  have hbare : ∀ extension, Path.extension? path = some extension →
      String.ofList (extension.toList.dropWhile (· = '.')) = extension := by
    intro extension h
    obtain ⟨name, -, hname⟩ := Option.bind_eq_some_iff.mp h
    obtain ⟨-, -, hdot⟩ := Path.eq_of_splitName (Prod.ext rfl hname)
    rw [List.dropWhile_eq_self_iff.mpr, String.ofList_toList]
    intro hlength hfirst
    exact hdot (of_decide_eq_true hfirst ▸ List.getElem_mem hlength)
  unfold isSource FrontEnd.forExtension
  cases hextension : Path.extension? path with
  | none => rfl
  | some extension => simp [hbare extension hextension]

/-- The file name of a source has a stem and the extension of a source. -/
theorem exists_of_isSource {path : String} (h : isSource path = true) :
    ∃ name extension, Path.fileName? path = some name ∧
      Path.splitName name = (outputStem path, some extension) ∧
      sourceExtensions.contains (lowered extension) = true := by
  obtain ⟨extension, hextension, hsource⟩ := (Option.any_eq_true _ _).mp h
  obtain ⟨name, hname, hsplit⟩ := Option.bind_eq_some_iff.mp hextension
  refine ⟨name, extension, hname, Prod.ext ?_ hsplit, hsource⟩
  rw [outputStem, Path.stem?, hname]
  rfl

/-! ### Steps one after the other -/

theorem exists_of_bind_eq_ok {ε α β : Type} {x : Except ε α} {f : α → Except ε β} {b : β}
    (h : x >>= f = .ok b) : ∃ a, x = .ok a ∧ f a = .ok b := by
  cases x with
  | error => cases h
  | ok a => exact ⟨a, rfl, h⟩

/-- A run over some inputs gets somewhere with the first of them, and from there
    to its end with the others. -/
theorem exists_of_foldlM_cons {ε σ α : Type} {step : σ → α → Except ε σ} {s t : σ} {x : α}
    {xs : List α} (h : (x :: xs).foldlM step s = .ok t) :
    ∃ next, step s x = .ok next ∧ xs.foldlM step next = .ok t := by
  rw [List.foldlM_cons] at h
  exact exists_of_bind_eq_ok h

theorem exists_of_foldlM_append {ε σ α : Type} {step : σ → α → Except ε σ} {s t : σ}
    {xs ys : List α} (h : (xs ++ ys).foldlM step s = .ok t) :
    ∃ next, xs.foldlM step s = .ok next ∧ ys.foldlM step next = .ok t := by
  rw [List.foldlM_append] at h
  exact exists_of_bind_eq_ok h

/-! ### Effects -/

/-- What a run leaves apart from its log: the files, and what is printed if it
    succeeds. -/
def effect : Except Halted Session → Except FileTree (FileTree × String)
  | .ok s => .ok (s.tree, s.stdout)
  | .error halted => .error halted.session.tree

/-- Two states of a run that differ in their logs only. -/
structure Alike (s t : Session) : Prop where
  tree : s.tree = t.tree
  stdout : s.stdout = t.stdout

section Effects

variable {a b : Arguments} {s t : Session}

theorem Alike.log (h : s.Alike t) (events events' : List Event) :
    (s.log events).Alike (t.log events') :=
  ⟨h.tree, h.stdout⟩

theorem Alike.effect_eq (h : s.Alike t) : effect (.ok s) = effect (.ok t) := by
  rw [effect, effect, h.tree, h.stdout]

theorem alike_of_effect_eq (h : effect (.ok s) = effect (.ok t)) : s.Alike t := by
  obtain ⟨htree, hstdout⟩ := Prod.mk.inj (Except.ok.inj h)
  exact ⟨htree, hstdout⟩

theorem effect_halt (h : s.tree = t.tree) (cause cause' : Failure) :
    effect (s.halt cause) = effect (t.halt cause') := by
  rw [halt, halt, effect, effect, h]

theorem effect_bind {x y : Except Halted Session} {f g : Session → Except Halted Session}
    (h : effect x = effect y) (hnext : ∀ s t, Alike s t → effect (f s) = effect (g t)) :
    effect (x >>= f) = effect (y >>= g) := by
  cases x with
  | error =>
    cases y with
    | error => exact h
    | ok => cases h
  | ok s =>
    cases y with
    | error => cases h
    | ok t => exact hnext s t (alike_of_effect_eq h)

/-- Runs whose steps have the same effects have the same effect. -/
theorem effect_foldlM {step step' : Session → String → Except Halted Session}
    (hstep : ∀ s t path, Alike s t → effect (step s path) = effect (step' t path))
    (paths : List String) (h : s.Alike t) :
    effect (paths.foldlM step s) = effect (paths.foldlM step' t) := by
  induction paths generalizing s t with
  | nil => exact h.effect_eq
  | cons path paths ih =>
    rw [List.foldlM_cons, List.foldlM_cons]
    exact effect_bind (hstep s t path h) fun s' t' h' => ih h'

theorem effect_deliver (houtput : a.output = b.output) (format : Format) (path text : String)
    (h : s.Alike t) :
    effect (s.deliver a format path text) = effect (t.deliver b format path text) := by
  unfold deliver
  rw [houtput, h.tree]
  split
  next => rw [effect, effect, print, print, h.tree, h.stdout]
  next folder _ =>
    simp only
    split
    next => exact effect_halt h.tree _ _
    next => rw [effect, effect, h.stdout]

/-- What an input does depends on how sources are read and on where outlines
    go, and not on what happened before but for the files. -/
theorem effect_processFile (hoptions : a.options = b.options) (houtput : a.output = b.output)
    (format : Format) (path : String) (h : s.Alike t) :
    effect (processFile a format s path) = effect (processFile b format t path) := by
  unfold processFile
  rw [hoptions, h.tree]
  split
  next => exact (h.log _ _).effect_eq
  next f _ =>
    split
    next => exact effect_halt h.tree _ _
    next source _ => exact effect_deliver houtput format path _ (h.log _ _)

end Effects

/-! ### Inputs -/

/-- The files that arguments stand for, argument by argument. -/
def expansion (glob : Glob.Finder) (tree : FileTree) (args : List String) :
    Except Glob.Malformed (List String) :=
  (args.mapM (expand glob tree)).map List.flatten

/-- The inputs of a run: the files that its arguments stand for, in the order
    of their paths and each one once. -/
def inputs (glob : Glob.Finder) (tree : FileTree) (args : List String) :
    Except Glob.Malformed (List String) :=
  (expansion glob tree args).map Path.sorted

/-- What is found in order and without repetitions stays as it is. -/
theorem inputs_of_ascending {glob : Glob.Finder} {tree : FileTree} {args paths : List String}
    (h : expansion glob tree args = .ok paths) (hpaths : Path.Ascending paths) :
    inputs glob tree args = .ok paths := by
  rw [inputs, h, Except.map, Path.sorted_eq_self hpaths]

section Expansion

variable (glob : Glob.Finder)

theorem expansion_nil (tree : FileTree) : expansion glob tree [] = .ok [] :=
  rfl

theorem expansion_cons (tree : FileTree) (arg : String) (args : List String) :
    expansion glob tree (arg :: args) =
      (expand glob tree arg).bind fun found => (expansion glob tree args).map (found ++ ·) := by
  rw [expansion, expansion, List.mapM_cons]
  cases expand glob tree arg with
  | error cause => rfl
  | ok found => cases args.mapM (expand glob tree) <;> rfl

/-- Expanding arguments adds nothing but events. -/
theorem foldlM_expandNext (args : List String) (s : Session) (paths : List String) :
    ∃ events, args.foldlM (expandNext glob) (s, paths) =
      match expansion glob s.tree args with
      | .ok more => .ok ({ s with events }, paths ++ more)
      | .error cause => .error ⟨.malformedPattern cause, { s with events }⟩ := by
  induction args generalizing s paths with
  | nil =>
    refine ⟨s.events, ?_⟩
    simp [expansion_nil, pure, Except.pure]
  | cons arg args ih =>
    rw [expansion_cons]
    cases harg : expand glob s.tree arg with
    | error cause =>
      refine ⟨s.events, ?_⟩
      simp [expandNext, harg, halt, bind, Except.bind]
    | ok found =>
      let complaint : List Event := if found = [] then [.nothingMatched arg] else []
      obtain ⟨events, hevents⟩ := ih (s.log complaint) (paths ++ found)
      refine ⟨events, ?_⟩
      have hnext : expandNext glob (s, paths) arg = .ok (s.log complaint, paths ++ found) := by
        rw [expandNext, harg]
      rw [List.foldlM_cons, hnext]
      refine hevents.trans ?_
      rw [show (s.log complaint).tree = s.tree from rfl]
      cases expansion glob s.tree args with
      | error cause => rfl
      | ok more => simp [Except.map, Except.bind, log]

end Expansion

section Runs

variable {a : Arguments} {format : Format} {s t made : Session}

/-- Once the output folder is made, a run reads its inputs one after the other. -/
theorem effect_showFiles (glob : Glob.Finder) (hformat : s.format a = .ok format)
    (hmade : s.makeOutput a = .ok made) :
    effect (s.showFiles glob a) =
      match inputs glob made.tree a.files with
      | .ok paths => effect (paths.foldlM (processFile a format) made)
      | .error _ => .error made.tree := by
  obtain ⟨events, hevents⟩ := foldlM_expandNext glob a.files made []
  unfold showFiles inputs
  rw [hformat]
  simp only [bind, Except.bind]
  rw [hmade]
  simp only
  rw [hevents]
  cases expansion glob made.tree a.files with
  | error cause => rfl
  | ok paths => exact effect_foldlM (fun _ _ => effect_processFile rfl rfl format) _ ⟨rfl, rfl⟩

theorem named_of_format (h : s.format a = .ok format) :
    Format.named a.formatName = .ok format := by
  unfold Session.format at h
  split at h
  next heq =>
    cases h
    exact heq
  next => cases h

/-- What a run over files went through if it succeeded. -/
theorem exists_of_showFiles {glob : Glob.Finder} (h : s.showFiles glob a = .ok t) :
    ∃ format made paths t', Format.named a.formatName = .ok format ∧
      s.makeOutput a = .ok made ∧ inputs glob made.tree a.files = .ok paths ∧
      paths.foldlM (processFile a format) made = .ok t' ∧ t.Alike t' := by
  obtain ⟨format, hformat, hshow⟩ := exists_of_bind_eq_ok h
  obtain ⟨made, hmade, -⟩ := exists_of_bind_eq_ok hshow
  have heffect := effect_showFiles glob hformat hmade
  rw [h] at heffect
  split at heffect
  next paths hpaths =>
    cases hrun : paths.foldlM (processFile a format) made with
    | error halted =>
      rw [hrun] at heffect
      cases heffect
    | ok t' =>
      rw [hrun] at heffect
      exact ⟨format, made, paths, t', named_of_format hformat, hmade, hpaths, hrun,
        alike_of_effect_eq heffect⟩
  next => cases heffect

end Runs

/-! ### One input -/

/-- The name of the output file for a source. -/
def outputName (format : Format) (path : String) : String :=
  outputStem path ++ "." ++ format.extension

/-- The outline of a source file, written out. -/
def outline (a : Arguments) (format : Format) (path source : String) : String :=
  format.report (FrontEnd.scan ⟨a.options⟩ path source)

/-- What one input does to a run that writes into a folder. -/
theorem processFile_eq_ok {a : Arguments} {format : Format} {s t : Session} {path folder : String}
    (houtput : a.output = some folder) (h : processFile a format s path = .ok t) :
    isSource path = false ∧ t.tree = s.tree ∨
      isSource path = true ∧ ∃ source, (s.tree.read? path).bind String.fromUTF8? = some source ∧
        s.tree.write? folder (outputName format path) (outline a format path source)
          = some t.tree := by
  unfold processFile at h
  rw [forExtension_extension?] at h
  cases hsource : isSource path with
  | false =>
    rw [hsource] at h
    cases h
    exact Or.inl ⟨rfl, rfl⟩
  | true =>
    rw [hsource] at h
    simp only [if_pos] at h
    split at h
    next => cases h
    next source hread =>
      refine Or.inr ⟨rfl, source, hread, ?_⟩
      rw [deliver, houtput] at h
      simp only at h
      split at h
      next => cases h
      next tree hwrite =>
        cases h
        exact hwrite

end Session

/-! ### The command -/

/-- The exit code, the standard output and the files for what a run leaves. -/
def Outcome.ofEffect : Except FileTree (FileTree × String) → Nat × String × FileTree
  | .ok (tree, stdout) => (0, stdout, tree)
  | .error tree => (1, "", tree)

section Command

variable {args : List String} {a : Arguments} {format : Format} {made : Session}
  {paths : List String}

theorem command_eq_ofEffect (glob : Glob.Finder) (hread : Arguments.read args = some a)
    (input : ByteArray) (tree : FileTree) :
    let o := commandWith glob args input tree
    (o.code, o.stdout, o.tree) =
      Outcome.ofEffect (Session.effect (({ tree } : Session).perform glob a input)) := by
  intro o
  have ho : o = commandWith glob args input tree := rfl
  unfold commandWith at ho
  rw [hread] at ho
  simp only at ho
  rw [ho]
  cases ({ tree } : Session).perform glob a input <;> rfl

theorem perform_files (glob : Glob.Finder) {s : Session} (hmode : a.mode = .files)
    (input : ByteArray) :
    s.perform glob a input = s.showFiles glob a := by
  simp only [Session.perform, hmode]

/-- A run over files that succeeds comes to the end of its inputs. -/
theorem exists_of_code_eq_zero {glob : Glob.Finder} {input : ByteArray} {tree : FileTree}
    (hread : Arguments.read args = some a) (hmode : a.mode = .files)
    (hdone : (commandWith glob args input tree).code = 0) :
    ∃ format made paths t, Format.named a.formatName = .ok format ∧
      ({ tree } : Session).makeOutput a = .ok made ∧
      Session.inputs glob made.tree a.files = .ok paths ∧
      paths.foldlM (Session.processFile a format) made = .ok t ∧
      (commandWith glob args input tree).tree = t.tree := by
  have hcommand := command_eq_ofEffect glob hread input tree
  rw [perform_files glob hmode] at hcommand
  cases hfiles : ({ tree } : Session).showFiles glob a with
  | error halted =>
    rw [hfiles] at hcommand
    have hcode : (commandWith glob args input tree).code = 1 := congrArg Prod.fst hcommand
    omega
  | ok s =>
    rw [hfiles] at hcommand
    have htree : (commandWith glob args input tree).tree = s.tree :=
      congrArg (fun o => o.2.2) hcommand
    obtain ⟨format, made, paths, t, hformat, hmade, hpaths, hrun, halike⟩ :=
      Session.exists_of_showFiles hfiles
    exact ⟨format, made, paths, t, hformat, hmade, hpaths, hrun, htree.trans halike.tree⟩

/-- A run over files, from the folder made to the last input. -/
theorem command_files {glob : Glob.Finder} {tree : FileTree} (hread : Arguments.read args = some a)
    (hmode : a.mode = .files) (hformat : Format.named a.formatName = .ok format)
    (hmade : ({ tree } : Session).makeOutput a = .ok made)
    (hpaths : Session.inputs glob made.tree a.files = .ok paths) (input : ByteArray) :
    let o := commandWith glob args input tree
    (o.code, o.stdout, o.tree) =
      Outcome.ofEffect (Session.effect (paths.foldlM (Session.processFile a format) made)) := by
  intro o
  have hformat' : ({ tree } : Session).format a = .ok format := by
    rw [Session.format, hformat]
  have heffect := Session.effect_showFiles glob hformat' hmade
  rw [hpaths] at heffect
  have hcommand := command_eq_ofEffect glob hread input tree
  rw [perform_files glob hmode, heffect] at hcommand
  exact hcommand

end Command

end PascalOutline
