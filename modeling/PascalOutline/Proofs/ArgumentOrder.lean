import PascalOutline.Proofs.Command

/-! # The order of file arguments

  What a run over files leaves depends on the set of its file arguments only.
  Main statement: two command lines that agree in everything but the order and
  the repetition of their files give the same exit code, print the same and
  leave the same files (`command_congr_files`), whatever finds the files that a
  pattern matches. Only where a path is spelled in
  several ways does the order matter, because the first spelling is the one
  that outlines are printed with.

  Arguments that stand for no files, and those that overlap, need no attention:
  the expansions fail together or have the same members, and the members
  determine the inputs.
-/

namespace PascalOutline

namespace Session

/-! ### Expansions -/

section Expansion

variable {glob : Glob.Finder} {tree : FileTree} {args args' paths : List String}

/-- Arguments are expanded one by one, and all of them have to be. -/
theorem expansion_eq_ok_iff : (∃ paths, expansion glob tree args = .ok paths) ↔
    ∀ arg ∈ args, ∃ found, expand glob tree arg = .ok found := by
  induction args with
  | nil => simp [expansion_nil]
  | cons arg args ih =>
    rw [List.forall_mem_cons, ← ih, expansion_cons]
    cases expand glob tree arg with
    | error cause => simp [Except.bind]
    | ok found => cases expansion glob tree args <;> simp [Except.bind, Except.map]

theorem mem_expansion {path : String} (h : expansion glob tree args = .ok paths) :
    path ∈ paths ↔ ∃ arg ∈ args, ∃ found, expand glob tree arg = .ok found ∧ path ∈ found := by
  induction args generalizing paths with
  | nil =>
    cases h
    simp
  | cons arg args ih =>
    rw [expansion_cons] at h
    cases harg : expand glob tree arg with
    | error cause =>
      rw [harg] at h
      cases h
    | ok found =>
      rw [harg] at h
      cases hargs : expansion glob tree args with
      | error cause =>
        rw [hargs] at h
        cases h
      | ok more =>
        rw [hargs] at h
        cases h
        simp [ih hargs, harg]

/-- Arguments of one set have the same inputs, or cannot be expanded. -/
theorem inputs_congr (hargs : ∀ arg, arg ∈ args ↔ arg ∈ args')
    (hspelled : ∀ paths, expansion glob tree args = .ok paths → Path.SpelledAlike paths) :
    (inputs glob tree args).toOption = (inputs glob tree args').toOption := by
  have hfails : (∃ paths, expansion glob tree args = .ok paths) ↔
      ∃ paths, expansion glob tree args' = .ok paths := by
    simp only [expansion_eq_ok_iff, hargs]
  unfold inputs
  cases hexpansion : expansion glob tree args with
  | error cause =>
    cases hexpansion' : expansion glob tree args' with
    | error cause' => rfl
    | ok paths' =>
      obtain ⟨paths, hpaths⟩ := hfails.mpr ⟨paths', hexpansion'⟩
      rw [hexpansion] at hpaths
      cases hpaths
  | ok paths =>
    obtain ⟨paths', hpaths'⟩ := hfails.mp ⟨paths, hexpansion⟩
    have hmem : ∀ path, path ∈ paths ↔ path ∈ paths' := by
      intro path
      simp only [mem_expansion hexpansion, mem_expansion hpaths', hargs]
    rw [hpaths', Except.map, Except.map, Path.sorted_congr (hspelled paths hexpansion) hmem]

end Expansion

/-! ### Runs -/

section Runs

variable {glob : Glob.Finder} {s : Session} {a : Arguments} {files : List String}

theorem effect_showFiles_congr (hfiles : ∀ file, file ∈ a.files ↔ file ∈ files)
    (hspelled : ∀ made paths, s.makeOutput a = .ok made →
      expansion glob made.tree a.files = .ok paths → Path.SpelledAlike paths) :
    effect (s.showFiles glob a) = effect (s.showFiles glob { a with files }) := by
  cases hformat : s.format a with
  | error halted =>
    have hformat' : s.format { a with files } = .error halted := hformat
    unfold showFiles
    rw [hformat, hformat']
    rfl
  | ok format =>
    have hformat' : s.format { a with files } = .ok format := hformat
    cases hmade : s.makeOutput a with
    | error halted =>
      have hmade' : s.makeOutput { a with files } = .error halted := hmade
      unfold showFiles
      rw [hformat, hformat']
      simp only [bind, Except.bind]
      rw [hmade, hmade']
    | ok made =>
      have hmade' : s.makeOutput { a with files } = .ok made := hmade
      rw [effect_showFiles glob hformat hmade, effect_showFiles glob hformat' hmade']
      have hinputs := inputs_congr hfiles fun paths => hspelled made paths hmade
      cases hpaths : inputs glob made.tree a.files with
      | error cause =>
        cases hpaths' : inputs glob made.tree files with
        | error cause' => rfl
        | ok paths' =>
          rw [hpaths, hpaths'] at hinputs
          cases hinputs
      | ok paths =>
        cases hpaths' : inputs glob made.tree files with
        | error cause' =>
          rw [hpaths, hpaths'] at hinputs
          cases hinputs
        | ok paths' =>
          rw [hpaths, hpaths'] at hinputs
          cases hinputs
          apply effect_foldlM _ _ ⟨rfl, rfl⟩
          intro s t path h
          exact effect_processFile (a := a) (b := { a with files }) rfl rfl format path h

/-- Whatever is asked for, it depends on the set of file arguments only. -/
theorem effect_perform_congr (hfiles : ∀ file, file ∈ a.files ↔ file ∈ files)
    (hspelled : ∀ made paths, s.makeOutput a = .ok made →
      expansion glob made.tree a.files = .ok paths → Path.SpelledAlike paths) (input : ByteArray) :
    effect (s.perform glob a input) = effect (s.perform glob { a with files } input) := by
  have hempty : files.isEmpty = a.files.isEmpty := by
    rw [Bool.eq_iff_iff, List.isEmpty_iff, List.isEmpty_iff, List.eq_nil_iff_forall_not_mem,
      List.eq_nil_iff_forall_not_mem]
    simp only [hfiles]
  have hmode : ({ a with files } : Arguments).mode = a.mode := by
    unfold Arguments.mode
    rw [hempty]
  unfold perform
  rw [hmode]
  cases a.mode with
  | prototype text => rfl
  | input => rfl
  | files => exact effect_showFiles_congr hfiles hspelled

end Runs

end Session

/-- Two command lines that differ in the order and the repetition of their file
    arguments have the same exit code, print the same and leave the same files,
    if the paths that the arguments stand for are spelled in one way each. This
    holds for whatever finds the files that a pattern matches. -/
theorem command_congr_files (glob : Glob.Finder) {args args' : List String} {tree : FileTree}
    {a : Arguments} {files : List String} (hread : Arguments.read args = some a)
    (hread' : Arguments.read args' = some { a with files })
    (hfiles : ∀ file, file ∈ a.files ↔ file ∈ files)
    (hspelled : ∀ made paths, ({ tree } : Session).makeOutput a = .ok made →
      Session.expansion glob made.tree a.files = .ok paths → Path.SpelledAlike paths)
    (input : ByteArray) :
    let o := commandWith glob args input tree
    let o' := commandWith glob args' input tree
    o.code = o'.code ∧ o.stdout = o'.stdout ∧ o.tree = o'.tree := by
  have hleft := command_eq_ofEffect glob hread input tree
  have hright := command_eq_ofEffect glob hread' input tree
  rw [Session.effect_perform_congr hfiles hspelled] at hleft
  simpa using hleft.trans hright.symm

/-- A folder and a file in it, in another order and with repetitions. -/
theorem command_congr_files_folder :
    let tree : FileTree :=
      { files := [(["sub", "a.pas"], "unit U;".toUTF8), (["sub", "b.inc"], "var X: T;".toUTF8)] }
    let o := command ["sub", "sub/b.inc"] .empty tree
    let o' := command ["sub/b.inc", "sub", "sub/b.inc"] .empty tree
    o.code = o'.code ∧ o.stdout = o'.stdout ∧ o.tree = o'.tree := by
  intro tree o o'
  let a : Arguments := { files := ["sub", "sub/b.inc"] }
  have hread : Arguments.read ["sub", "sub/b.inc"] = some a := by decide +kernel
  have hread' : Arguments.read ["sub/b.inc", "sub", "sub/b.inc"]
      = some { a with files := ["sub/b.inc", "sub", "sub/b.inc"] } := by
    decide +kernel
  have hspelled : ∀ made paths, ({ tree } : Session).makeOutput a = .ok made →
      Session.expansion Glob.files made.tree a.files = .ok paths → Path.SpelledAlike paths := by
    intro made paths hmade hpaths
    cases hmade
    cases (show Except.ok ["sub/a.pas", "sub/b.inc", "sub/b.inc"] = Except.ok paths from hpaths)
    decide +kernel
  have hfiles : ∀ file, file ∈ a.files ↔ file ∈ ["sub/b.inc", "sub", "sub/b.inc"] := by
    intro file
    simp only [a, List.mem_cons, List.not_mem_nil, or_false]
    constructor
    · rintro (rfl | rfl) <;> simp
    · rintro (rfl | rfl | rfl) <;> simp
  exact command_congr_files Glob.files hread hread' hfiles hspelled .empty

end PascalOutline
