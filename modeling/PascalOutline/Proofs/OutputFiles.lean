import PascalOutline.Proofs.Command

/-! # Output files

  With an output folder, the outline of a source goes into the file in that
  folder that has the stem of the source for its name. Main statement: after a
  run that succeeds, the file of a source holds exactly the outline of that
  source, unless a later source has the same stem, and nothing but these files
  has changed (`outlines_in_folder`).

  No source is ever lost to an output file, because output files do not have
  the extension of a source. Sources with one stem do share their file, as
  `a.inc` and `a.pas` do, and the last one keeps it
  (`not_forall_outlines_in_folder`).
-/

namespace PascalOutline

namespace Session

/-! ### Names of output files -/

section Names

variable {format : Format} {path : String}

theorem not_isSource_extension (format : Format) :
    sourceExtensions.contains (lowered format.extension) = false := by
  cases format <;> decide

theorem isName_outputName (h : isSource path = true) : Path.IsName (outputName format path) := by
  obtain ⟨name, extension, hname, hsplit, -⟩ := exists_of_isSource h
  obtain ⟨rfl, -, -⟩ := Path.eq_of_splitName hsplit
  have hstem : '/' ∉ (outputStem path).toList := by
    intro hslash
    exact (Path.isName_of_fileName? hname).noSlash (by simp [hslash])
  cases format <;> exact Path.isName_append hstem (by decide) (by decide) (by decide)

theorem outputStem_eq_of_outputName {q : String}
    (h : outputName format q = outputName format path) : outputStem q = outputStem path := by
  have hlist := congrArg String.toList h
  simp only [outputName, String.toList_append, List.append_assoc] at hlist
  exact String.toList_injective (List.append_cancel_right hlist)

/-- An output file does not have the name of a source. -/
theorem outputName_ne_fileName {q name : String} (hq : isSource q = true)
    (hpath : isSource path = true) (hname : Path.fileName? path = some name) :
    outputName format q ≠ name := by
  rintro rfl
  obtain ⟨_, _, -, hsplit, -⟩ := exists_of_isSource hq
  have hstem := (Path.eq_of_splitName hsplit).2.1
  have hcut : Path.splitName (outputName format q) = (outputStem q, some format.extension) := by
    rw [outputName, Path.splitName_append (by cases format <;> decide), if_neg hstem]
  obtain ⟨name, extension, hname', hsplit', hsource⟩ := exists_of_isSource hpath
  rw [hname] at hname'
  cases hname'
  have hextension := Option.some.inj (congrArg Prod.snd (hcut.symm.trans hsplit'))
  rw [← hextension, not_isSource_extension] at hsource
  cases hsource

end Names

/-! ### Runs that write into a folder -/

/-- Whether a place is the one for the output file of an input. -/
def IsOutput (place : Place) (format : Format) (paths : List String) (p : Place) : Prop :=
  ∃ path ∈ paths, isSource path = true ∧ p = place ++ [outputName format path]

section Runs

variable {a : Arguments} {format : Format} {folder path : String} {paths : List String}
  {place : Place} {s t : Session}

theorem not_isOutput_place (place : Place) (format : Format) (paths : List String) :
    ¬ IsOutput place format paths place := by
  rintro ⟨path, -, -, h⟩
  have hlength := congrArg List.length h
  simp at hlength

theorem IsOutput.mono {paths' : List String} {p : Place} (h : IsOutput place format paths p)
    (hsub : ∀ q ∈ paths, q ∈ paths') : IsOutput place format paths' p := by
  obtain ⟨path, hpath, h⟩ := h
  exact ⟨path, hsub path hpath, h⟩

theorem IsOutput.getLast?_ne {p : Place} {name : String} (h : IsOutput place format paths p)
    (hpath : isSource path = true) (hname : Path.fileName? path = some name) :
    p.getLast? ≠ some name := by
  obtain ⟨q, -, hq, rfl⟩ := h
  rw [List.getLast?_concat]
  intro heq
  exact outputName_ne_fileName hq hpath hname (Option.some.inj heq)

/-- Output files do not move the folder that they are written into. -/
theorem locate?_of_agrees (h : s.tree.AgreesOutside (IsOutput place format paths) t.tree)
    (hlocate : s.tree.locate? folder = some place) : t.tree.locate? folder = some place :=
  (h.locate?_eq_some_iff (not_isOutput_place place format paths)).mpr hlocate

section

variable (houtput : a.output = some folder) (hlocate : s.tree.locate? folder = some place)
include houtput hlocate

/-- An input that is a source leaves its outline in its output file. -/
theorem processFile_written (h : processFile a format s path = .ok t)
    (hpath : isSource path = true) :
    ∃ source, (s.tree.read? path).bind String.fromUTF8? = some source ∧
      t.tree.contentAt? (place ++ [outputName format path])
        = some (outline a format path source).toUTF8 := by
  obtain ⟨hno, -⟩ | ⟨-, source, hread, hwrite⟩ := processFile_eq_ok houtput h
  · rw [hpath] at hno
    cases hno
  · obtain ⟨q, hq, -, htree⟩ := FileTree.write?_eq_some hwrite
    rw [hlocate] at hq
    cases hq
    refine ⟨source, hread, ?_⟩
    rw [htree, FileTree.contentAt?_setFile, if_pos rfl]

/-- One input changes at most its output file. -/
theorem processFile_agrees (h : processFile a format s path = .ok t) :
    s.tree.AgreesOutside (IsOutput place format [path]) t.tree := by
  obtain ⟨-, htree⟩ | ⟨hpath, source, -, hwrite⟩ := processFile_eq_ok houtput h
  · rw [htree]
    exact .refl _ _
  · obtain ⟨q, hq, hfolder, htree⟩ := FileTree.write?_eq_some hwrite
    rw [hlocate] at hq
    cases hq
    rw [htree]
    exact .setFile hfolder ⟨path, List.mem_singleton_self path, hpath, rfl⟩ _

/-- A run changes at most the output files of its inputs. -/
theorem foldlM_processFile_agrees (h : paths.foldlM (processFile a format) s = .ok t) :
    s.tree.AgreesOutside (IsOutput place format paths) t.tree := by
  induction paths generalizing s with
  | nil =>
    cases h
    exact .refl _ _
  | cons path paths ih =>
    obtain ⟨next, hpath, hpaths⟩ := exists_of_foldlM_cons h
    have hfirst := processFile_agrees houtput hlocate hpath
    have hrest := ih (locate?_of_agrees hfirst hlocate) hpaths
    apply (hfirst.mono _).trans (hrest.mono _)
    · intro p hp
      exact hp.mono (by simp)
    · intro p hp
      exact hp.mono fun q => List.mem_cons_of_mem path

/-- In the end, the output file of a source holds its outline, unless a later
    source has the same stem. -/
theorem foldlM_processFile_written {before after : List String}
    (h : (before ++ path :: after).foldlM (processFile a format) s = .ok t)
    (hpath : isSource path = true)
    (hafter : ∀ q ∈ after, isSource q = true → outputStem q ≠ outputStem path) :
    ∃ source, (t.tree.read? path).bind String.fromUTF8? = some source ∧
      t.tree.contentAt? (place ++ [outputName format path])
        = some (outline a format path source).toUTF8 := by
  obtain ⟨s₁, hbefore, hrest⟩ := exists_of_foldlM_append h
  have hlocate₁ :=
    locate?_of_agrees (foldlM_processFile_agrees houtput hlocate hbefore) hlocate
  obtain ⟨s₂, hone, hlast⟩ := exists_of_foldlM_cons hrest
  obtain ⟨source, hread, hcontent⟩ := processFile_written houtput hlocate₁ hone hpath
  have hlocate₂ := locate?_of_agrees (processFile_agrees houtput hlocate₁ hone) hlocate₁
  refine ⟨source, ?_, ?_⟩
  · -- No output file has the name of the source, so it reads as it did.
    obtain ⟨name, -, hname, -⟩ := exists_of_isSource hpath
    have hsame := (foldlM_processFile_agrees houtput hlocate₁ hrest).read?_eq hname
      fun p hp => hp.getLast?_ne hpath hname
    rw [hsame, hread]
  · rw [(foldlM_processFile_agrees houtput hlocate₂ hlast).contentAt?_eq, hcontent]
    rintro ⟨q, hq, hsource, heq⟩
    apply hafter q hq hsource
    apply outputStem_eq_of_outputName
    exact (List.singleton_inj.mp (List.append_cancel_left heq)).symm

end

end Runs

end Session

/-- Whether the output file of a source holds the outline of that source. -/
def FileTree.HoldsOutline (t : FileTree) (a : Arguments) (folder : String) (format : Format)
    (path : String) : Prop :=
  ∃ source, (t.read? path).bind String.fromUTF8? = some source ∧
    t.read? (Path.join folder (Session.outputName format path))
      = some (Session.outline a format path source).toUTF8

/-! ### The command -/

section Command

open Session

variable (glob : Glob.Finder) {args : List String} {input : ByteArray} {tree : FileTree}
  {a : Arguments} {folder : String}

/-- After a run that writes into a folder, the output file of a source holds the
    outline of that source, unless a later source has the same stem, and no
    other file has changed. This holds for whatever finds the files that a
    pattern matches. -/
theorem outlines_in_folder (hread : Arguments.read args = some a) (hmode : a.mode = .files)
    (houtput : a.output = some folder) (hdone : (commandWith glob args input tree).code = 0) :
    ∃ format made paths place, Format.named a.formatName = .ok format ∧
      tree.makeFolders? folder = some made ∧ inputs glob made a.files = .ok paths ∧
      (commandWith glob args input tree).tree.locate? folder = some place ∧
      (∀ before path after, paths = before ++ path :: after → isSource path = true →
        (∀ q ∈ after, isSource q = true → outputStem q ≠ outputStem path) →
        (commandWith glob args input tree).tree.HoldsOutline a folder format path) ∧
      ∀ p, (∀ path ∈ paths, isSource path = true → p ≠ place ++ [outputName format path]) →
        (commandWith glob args input tree).tree.contentAt? p = tree.contentAt? p := by
  obtain ⟨format, made, paths, t, hformat, hmade, hinputs, hrun, hend⟩ :=
    exists_of_code_eq_zero hread hmode hdone
  rw [hend]
  rw [makeOutput, houtput] at hmade
  simp only at hmade
  split at hmade
  next => cases hmade
  next grown hgrown =>
    cases hmade
    obtain ⟨hgrows, hfolder⟩ :=
      FileTree.makeFolders?_spec hgrown (Arguments.output_ne_of_read hread houtput)
    obtain ⟨place, hlocate, hplace⟩ := FileTree.isFolder_iff.mp hfolder
    have hagrees := foldlM_processFile_agrees houtput hlocate hrun
    have hlocated := locate?_of_agrees hagrees hlocate
    refine ⟨format, grown, paths, place, hformat, hgrown, hinputs, hlocated, ?_, ?_⟩
    · rintro before path after rfl hpath hafter
      obtain ⟨source, hread, hcontent⟩ :=
        foldlM_processFile_written houtput hlocate hrun hpath hafter
      refine ⟨source, hread, ?_⟩
      rw [FileTree.read?_join hlocated _ (isName_outputName hpath), hcontent]
      rwa [hagrees.hasFolder]
    · intro p hp
      rw [hagrees.contentAt?_eq]
      · exact hgrows.contentAt?_eq p
      · rintro ⟨path, hpath, hsource, heq⟩
        exact hp path hpath hsource heq

end Command

/-- Two sources in two folders. -/
theorem outlines_in_folder_two :
    let args := ["-o", "out", "a.pas", "sub/b.inc"]
    let tree : FileTree :=
      { files := [(["a.pas"], "unit U;".toUTF8), (["sub", "b.inc"], "var X: T;".toUTF8)] }
    let a : Arguments := { files := ["a.pas", "sub/b.inc"], output := some "out" }
    (command args .empty tree).code = 0 ∧
      (command args .empty tree).tree.HoldsOutline a "out" .tree "a.pas" ∧
      (command args .empty tree).tree.HoldsOutline a "out" .tree "sub/b.inc" := by
  intro args tree a
  let made : Session := { tree := { tree with folders := [["out"]] } }
  have hread : Arguments.read args = some a := by decide +kernel
  have hfound : Session.expansion Glob.files made.tree a.files = .ok ["a.pas", "sub/b.inc"] := rfl
  have hpaths := Session.inputs_of_ascending hfound (by decide +kernel)
  have hmade : ({ tree } : Session).makeOutput a = .ok made := rfl
  have hcommand := command_files hread rfl rfl hmade hpaths .empty
  have hdone : (command args .empty tree).code = 0 :=
    (congrArg Prod.fst hcommand).trans (by decide +kernel)
  obtain ⟨format, _, paths, place, hformat, hgrown, hpaths', -, hholds, -⟩ :=
    outlines_in_folder Glob.files hread rfl rfl hdone
  cases hformat
  cases (show some made.tree = some _ from hgrown)
  cases hpaths.symm.trans hpaths'
  refine ⟨hdone, ?_, ?_⟩
  · exact hholds [] "a.pas" ["sub/b.inc"] rfl (by decide +kernel) (by decide +kernel)
  · exact hholds ["a.pas"] "sub/b.inc" [] rfl (by decide +kernel) (by decide +kernel)

/-- The outline of `a.inc` is lost when `a.pas` is an input as well. -/
theorem not_forall_outlines_in_folder :
    ¬ ∀ (args : List String) (input : ByteArray) (tree made : FileTree) (a : Arguments)
      (folder : String) (format : Format) (paths : List String),
      Arguments.read args = some a → a.mode = .files → a.output = some folder →
      Format.named a.formatName = .ok format → tree.makeFolders? folder = some made →
      Session.inputs Glob.files made a.files = .ok paths → (command args input tree).code = 0 →
      ∀ path ∈ paths, Session.isSource path = true →
        (command args input tree).tree.HoldsOutline a folder format path := by
  intro h
  let args := ["-o", "out", "a.inc", "a.pas"]
  let tree : FileTree :=
    { files := [(["a.pas"], "unit U;".toUTF8), (["a.inc"], "var X: T;".toUTF8)] }
  let a : Arguments := { files := ["a.inc", "a.pas"], output := some "out" }
  let made : Session := { tree := { tree with folders := [["out"]] } }
  have hread : Arguments.read args = some a := by decide +kernel
  have hfound : Session.expansion Glob.files made.tree a.files = .ok ["a.inc", "a.pas"] := rfl
  have hpaths := Session.inputs_of_ascending hfound (by decide +kernel)
  have hmade : ({ tree } : Session).makeOutput a = .ok made := rfl
  have hcommand := command_files hread rfl rfl hmade hpaths .empty
  have hdone : (command args .empty tree).code = 0 :=
    (congrArg Prod.fst hcommand).trans (by decide +kernel)
  obtain ⟨source, hsource, houtline⟩ := h args .empty tree made.tree a "out" .tree _ hread rfl rfl
    rfl rfl hpaths hdone "a.inc" (by decide +kernel) (by decide +kernel)
  have htree : (command args .empty tree).tree = _ := congrArg (fun o => o.2.2) hcommand
  rw [htree] at hsource houtline
  -- What is read is the source, and what is written is the outline of the unit.
  have hcontent : some source = some "var X: T;" := hsource.symm.trans (by decide +kernel)
  have hwritten :
      some (Session.outline a .tree "a.inc" source).toUTF8 = some "unit U (1:1)\n".toUTF8 :=
    houtline.symm.trans (by decide +kernel)
  cases hcontent
  revert hwritten
  decide +kernel

end PascalOutline
