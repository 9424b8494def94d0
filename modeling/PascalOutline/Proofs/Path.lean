import PascalOutline.Path
import Mathlib.Data.List.Basic
import Mathlib.Data.List.TakeWhile

/-! # Names in paths

  Cutting a path at its slashes undoes the joining of its pieces, and cutting a
  file name at its last dot undoes the joining of its stem and its extension.
-/

namespace PascalOutline.Path

/-! ### Slashes -/

theorem splitSlashes_ne_nil (cs : List Char) : splitSlashes cs ≠ [] := by
  cases cs with
  | nil => simp [splitSlashes]
  | cons c cs =>
    rw [splitSlashes]
    split
    · simp
    · split <;> simp

theorem splitSlashes_slash (cs : List Char) : splitSlashes ('/' :: cs) = [] :: splitSlashes cs := by
  simp [splitSlashes]

theorem splitSlashes_append (cs ds : List Char) :
    splitSlashes (cs ++ '/' :: ds) = splitSlashes cs ++ splitSlashes ds := by
  induction cs with
  | nil => simp [splitSlashes]
  | cons c cs ih =>
    rw [List.cons_append, splitSlashes, splitSlashes, ih]
    by_cases hslash : c = '/'
    · simp [hslash]
    · cases hpieces : splitSlashes cs with
      | nil => exact absurd hpieces (splitSlashes_ne_nil cs)
      | cons piece pieces => simp [hslash]

theorem splitSlashes_of_not_mem {cs : List Char} (h : '/' ∉ cs) : splitSlashes cs = [cs] := by
  induction cs with
  | nil => rfl
  | cons c cs ih =>
    rw [List.mem_cons, not_or] at h
    rw [splitSlashes, if_neg (Ne.symm h.1), ih h.2]

theorem not_mem_of_mem_splitSlashes {cs piece : List Char} (h : piece ∈ splitSlashes cs) :
    '/' ∉ piece := by
  induction cs generalizing piece with
  | nil =>
    rw [splitSlashes, List.mem_singleton] at h
    simp [h]
  | cons c cs ih =>
    rw [splitSlashes] at h
    split at h
    next =>
      obtain rfl | h := List.mem_cons.mp h
      · simp
      · exact ih h
    next hslash =>
      cases hpieces : splitSlashes cs with
      | nil => exact absurd hpieces (splitSlashes_ne_nil cs)
      | cons first pieces =>
        rw [hpieces] at h ih
        obtain rfl | h := List.mem_cons.mp h
        · rw [List.mem_cons, not_or]
          exact ⟨Ne.symm hslash, ih List.mem_cons_self⟩
        · exact ih (List.mem_cons_of_mem _ h)

/-! ### File names -/

/-- Whether a text is a name: it holds no slash, and is more than nothing and
    other than `.` and `..` -/
structure IsName (name : String) : Prop where
  noSlash : '/' ∉ name.toList
  nonempty : name.toList ≠ []
  notHere : name.toList ≠ ['.']
  notAbove : name.toList ≠ ['.', '.']

theorem partOf?_eq_name {first : Bool} {piece : List Char} {name : String}
    (h : partOf? first piece = some (.name name)) :
    piece = name.toList ∧ piece ≠ [] ∧ piece ≠ ['.'] ∧ piece ≠ ['.', '.'] := by
  unfold partOf? at h
  split at h
  next => cases h
  next hempty =>
    split at h
    next => split at h <;> cases h
    next hhere =>
      split at h
      next => cases h
      next habove =>
        cases h
        exact ⟨String.toList_ofList.symm, hempty, hhere, habove⟩

/-- The components of a path are the meanings of its pieces, and in front of
    them at most a component that is no name. -/
theorem exists_parts_eq (path : String) :
    ∃ first, parts path = first ++ (splitSlashes path.toList).filterMap (partOf? false) ∧
      ∀ name, PathPart.name name ∉ first := by
  unfold parts
  split
  next cs hcs => exact ⟨[.root], by simp [hcs, splitSlashes_slash, partOf?], by simp⟩
  next =>
    cases splitSlashes path.toList with
    | nil => exact ⟨[], by simp, by simp⟩
    | cons piece pieces =>
      by_cases hhere : piece = ['.']
      · exact ⟨[.here], by simp [hhere, partOf?], by simp⟩
      · have hfirst : partOf? true piece = partOf? false piece := by simp [partOf?, hhere]
        refine ⟨[], ?_, by simp⟩
        change (partOf? true piece).toList ++ _ = _
        rw [List.nil_append, List.filterMap_cons, hfirst]
        cases partOf? false piece <;> rfl

/-- The last piece that has a meaning is the file name. -/
theorem getLast?_pieces_of_fileName? {path name : String} (h : fileName? path = some name) :
    ((splitSlashes path.toList).filterMap (partOf? false)).getLast? = some (.name name) := by
  have hlast : (parts path).getLast? = some (.name name) := by
    unfold fileName? at h
    split at h
    next hlast =>
      cases h
      exact hlast
    next => cases h
  obtain ⟨first, hparts, hfirst⟩ := exists_parts_eq path
  rw [hparts] at hlast
  cases hmeanings : (splitSlashes path.toList).filterMap (partOf? false) with
  | nil =>
    rw [hmeanings, List.append_nil] at hlast
    exact absurd (List.mem_of_getLast? hlast) (hfirst name)
  | cons p ps =>
    rwa [hmeanings, List.getLast?_append_of_ne_nil _ (List.cons_ne_nil p ps)] at hlast

theorem isName_of_fileName? {path name : String} (h : fileName? path = some name) :
    IsName name := by
  have hmem := List.mem_of_getLast? (getLast?_pieces_of_fileName? h)
  obtain ⟨piece, hpiece, hpart⟩ := List.mem_filterMap.mp hmem
  obtain ⟨rfl, hempty, hhere, habove⟩ := partOf?_eq_name hpart
  exact ⟨not_mem_of_mem_splitSlashes hpiece, hempty, hhere, habove⟩

theorem head?_join {folder : String} (h : folder ≠ "") (name : String) :
    (join folder name).toList.head? = folder.toList.head? := by
  cases hfolder : folder.toList with
  | nil => exact absurd (String.toList_eq_nil_iff.mp hfolder) h
  | cons c cs => unfold join; split <;> simp [hfolder]

/-- A name that is joined to a folder is one more piece. A slash at the end of
    the folder is not doubled. -/
theorem exists_pieces_join {folder name : String} (hfolder : folder ≠ "") (hname : IsName name) :
    ∃ pieces, splitSlashes (join folder name).toList = pieces ++ [name.toList] ∧
      (splitSlashes folder.toList = pieces ∨ splitSlashes folder.toList = pieces ++ [[]]) := by
  unfold join
  split
  next h =>
    obtain ⟨init, hinit⟩ := List.getLast?_eq_some_iff.mp (h.resolve_left hfolder)
    have hjoined : (folder ++ name).toList = init ++ '/' :: name.toList := by simp [hinit]
    refine ⟨splitSlashes init, ?_, Or.inr ?_⟩
    · rw [hjoined, splitSlashes_append, splitSlashes_of_not_mem hname.noSlash]
    · rw [hinit, splitSlashes_append]
      rfl
  next =>
    have hjoined : (folder ++ "/" ++ name).toList = folder.toList ++ '/' :: name.toList := by simp
    refine ⟨splitSlashes folder.toList, ?_, Or.inl rfl⟩
    rw [hjoined, splitSlashes_append, splitSlashes_of_not_mem hname.noSlash]

/-! ### Extensions -/

theorem splitName_of_not_mem {name : String} (h : '.' ∉ name.toList) :
    splitName name = (name, none) := by
  have hall : name.toList.reverse.dropWhile (· ≠ '.') = [] := by
    rw [List.dropWhile_eq_nil_iff]
    intro c hc
    rw [List.mem_reverse] at hc
    exact decide_eq_true fun hdot => h (hdot ▸ hc)
  simp only [splitName, hall, List.drop_nil, if_pos]

theorem splitName_append {stem extension : String} (h : '.' ∉ extension.toList) :
    splitName (stem ++ "." ++ extension) =
      if stem = "" then (stem ++ "." ++ extension, none) else (stem, some extension) := by
  have hreversed : (stem ++ "." ++ extension).toList.reverse =
      extension.toList.reverse ++ '.' :: stem.toList.reverse := by simp
  have hbefore : ∀ c ∈ extension.toList.reverse, decide (c ≠ '.') = true := by
    intro c hc
    rw [List.mem_reverse] at hc
    exact decide_eq_true fun hdot => h (hdot ▸ hc)
  simp only [splitName, hreversed, List.takeWhile_append_of_pos hbefore,
    List.dropWhile_append_of_pos hbefore]
  simp

/-- A file name with an extension is its stem, which is not empty, and after
    its last dot the extension. -/
theorem eq_of_splitName {name stem extension : String}
    (h : splitName name = (stem, some extension)) :
    name = stem ++ "." ++ extension ∧ stem ≠ "" ∧ '.' ∉ extension.toList := by
  by_cases hdot : '.' ∈ name.toList.reverse
  · obtain ⟨after, before, hcut, hafter⟩ := List.eq_append_cons_of_mem hdot
    have hname : name = String.ofList before.reverse ++ "." ++ String.ofList after.reverse := by
      apply String.toList_injective
      rw [← List.reverse_inj, hcut]
      simp
    have hext : '.' ∉ (String.ofList after.reverse).toList := by simpa using hafter
    rw [hname, splitName_append hext] at h
    split at h
    next => cases h
    next hstem =>
      cases h
      exact ⟨hname, hstem, hext⟩
  · rw [List.mem_reverse] at hdot
    rw [splitName_of_not_mem hdot] at h
    cases h

theorem isName_append {stem extension : String} (hstem : '/' ∉ stem.toList)
    (hslash : '/' ∉ extension.toList) (hdot : '.' ∉ extension.toList) (hext : extension ≠ "") :
    IsName (stem ++ "." ++ extension) := by
  have hlist : (stem ++ "." ++ extension).toList = stem.toList ++ '.' :: extension.toList := by
    simp
  have hnonempty : extension.toList ≠ [] := by simpa using hext
  -- What follows the dot ends in another character than a dot.
  have hend : ∀ cs, stem.toList ++ '.' :: extension.toList = cs → cs.getLast? ≠ some '.' := by
    rintro _ rfl hlast
    rw [List.getLast?_append_of_ne_nil _ (List.cons_ne_nil _ _),
      List.getLast?_cons_of_ne_nil hnonempty] at hlast
    exact hdot (List.mem_of_getLast? hlast)
  constructor
  · simp [hstem, hslash]
  · simp
  · intro h
    exact hend ['.'] (hlist.symm.trans h) rfl
  · intro h
    exact hend ['.', '.'] (hlist.symm.trans h) rfl

end PascalOutline.Path
