import PascalOutline.FileTree
import PascalOutline.Proofs.Path

/-! # What changes in a file tree

  Making folders changes no file, and afterwards the path leads to a folder.
  Writing a file into a folder changes what is at one place: no folder comes or
  goes, and a path that ends in another name finds what it found before.
-/

namespace PascalOutline.FileTree

variable {t u v : FileTree}

/-! ### Folders -/

theorem isInside_iff {inner outer : Place} :
    isInside inner outer = true ↔ outer <+: inner ∧ outer.length < inner.length := by
  simp [isInside]

theorem isInside_above {inner outer p : Place} (h : p <+: outer)
    (hinside : isInside inner outer = true) : isInside inner p = true := by
  rw [isInside_iff] at hinside ⊢
  exact ⟨h.trans hinside.1, Nat.lt_of_le_of_lt h.length_le hinside.2⟩

theorem isInside_append {p : Place} (name : String) : isInside (p ++ [name]) p = true := by
  rw [isInside_iff]
  exact ⟨List.prefix_append _ _, by simp⟩

theorem prefix_of_isInside_append {p place : Place} {name : String}
    (h : isInside (place ++ [name]) p = true) : p <+: place := by
  obtain ⟨hbegins, hlength⟩ := isInside_iff.mp h
  obtain heq | hbegins := List.prefix_concat_iff.mp hbegins
  · rw [heq] at hlength
    omega
  · exact hbegins

theorem mem_named : ∀ {p : Place}, p ∈ t.named ↔
    (∃ content, (p, content) ∈ t.files) ∨ p ∈ t.folders ∨ p = t.home := by
  intro p
  simp [named]

/-- There is a folder at the root, at the working folder, where one is listed,
    and where something lies inside. -/
theorem hasFolder_iff {p : Place} : t.hasFolder p = true ↔
    p = [] ∨ p = t.home ∨ p ∈ t.folders ∨ ∃ q ∈ t.named, isInside q p = true := by
  simp [hasFolder, or_assoc]

@[simp] theorem hasFolder_nil (t : FileTree) : t.hasFolder [] = true :=
  hasFolder_iff.mpr (Or.inl rfl)

@[simp] theorem hasFolder_home (t : FileTree) : t.hasFolder t.home = true :=
  hasFolder_iff.mpr (Or.inr (Or.inl rfl))

@[simp] theorem hasFolder_origin (t : FileTree) (path : String) :
    t.hasFolder (t.origin path) = true := by
  unfold origin
  split <;> simp

theorem hasFolder_of_isInside {p q : Place} (hq : q ∈ t.named) (h : isInside q p = true) :
    t.hasFolder p = true :=
  hasFolder_iff.mpr (Or.inr (Or.inr (Or.inr ⟨q, hq, h⟩)))

/-- What a folder lies in is a folder. -/
theorem hasFolder_above {p q : Place} (h : t.hasFolder q = true) (hbegins : p <+: q) :
    t.hasFolder p = true := by
  by_cases heq : p = q
  · rwa [heq]
  have hinside : isInside q p = true := by
    rw [isInside_iff]
    refine ⟨hbegins, Nat.lt_of_le_of_ne hbegins.length_le ?_⟩
    intro hlength
    exact heq (hbegins.eq_of_length hlength)
  obtain rfl | rfl | hlisted | ⟨r, hr, hrq⟩ := hasFolder_iff.mp h
  · rw [List.prefix_nil.mp hbegins]
    exact hasFolder_nil t
  · exact hasFolder_of_isInside (mem_named.mpr (Or.inr (Or.inr rfl))) hinside
  · exact hasFolder_of_isInside (mem_named.mpr (Or.inr (Or.inl hlisted))) hinside
  · exact hasFolder_of_isInside hr (isInside_above hbegins hrq)

theorem hasFolder_dropLast {p : Place} (h : t.hasFolder p = true) :
    t.hasFolder p.dropLast = true :=
  hasFolder_above h <| List.dropLast_prefix p

/-! ### Following a path -/

/-- The place that a component of a path leads to. -/
def follow (place : Place) : Option PathPart → Place
  | some .above => place.dropLast
  | some (.name name) => place ++ [name]
  | _ => place

theorem locateFrom_nil (t : FileTree) (place : Place) :
    t.locateFrom place [] =
      if t.hasFolder place = true ∨ (t.contentAt? place).isSome = true then some place
      else none := by
  simp [locateFrom]

theorem locateFrom_cons (t : FileTree) (place : Place) (piece : List Char)
    (pieces : List (List Char)) :
    t.locateFrom place (piece :: pieces) =
      if t.hasFolder place = true then
        t.locateFrom (follow place (Path.partOf? false piece)) pieces
      else none := by
  rw [locateFrom]
  cases t.hasFolder place with
  | false => rfl
  | true =>
    unfold Path.partOf?
    by_cases hempty : piece = []
    · simp [hempty, follow]
    · by_cases hhere : piece = ['.']
      · simp [hhere, follow]
      · by_cases habove : piece = ['.', '.'] <;> simp [hempty, hhere, habove, follow]

section Locate

variable {place q : Place} {pieces : List (List Char)}

theorem eq_of_locateFrom (h : t.locateFrom place pieces = some q)
    (hpieces : pieces.filterMap (Path.partOf? false) = []) : q = place := by
  induction pieces with
  | nil =>
    rw [locateFrom_nil] at h
    split at h
    · exact (Option.some.inj h).symm
    · cases h
  | cons piece pieces ih =>
    rw [List.filterMap_cons] at hpieces
    split at hpieces
    next hpart =>
      rw [locateFrom_cons, hpart] at h
      split at h
      · exact ih h hpieces
      · cases h
    next => cases hpieces

/-- A path leads to a place with its file name. -/
theorem getLast?_of_locateFrom {name : String} (h : t.locateFrom place pieces = some q)
    (hname : (pieces.filterMap (Path.partOf? false)).getLast? = some (.name name)) :
    q.getLast? = some name := by
  induction pieces generalizing place with
  | nil => cases hname
  | cons piece pieces ih =>
    rw [locateFrom_cons] at h
    split at h
    next =>
      rw [List.filterMap_cons] at hname
      split at hname
      next => exact ih h hname
      next part hpart =>
        cases hrest : pieces.filterMap (Path.partOf? false) with
        | nil =>
          rw [hrest, List.getLast?_singleton, Option.some.injEq] at hname
          rw [eq_of_locateFrom h hrest, hpart, hname, follow, List.getLast?_concat]
        | cons p ps =>
          rw [hrest, List.getLast?_cons_cons, ← hrest] at hname
          exact ih h hname
    next => cases h

/-- A path is followed to where its beginning leads, and on from there. -/
theorem locateFrom_append (t : FileTree) (place : Place) (pieces : List (List Char))
    (piece : List Char) (more : List (List Char)) :
    t.locateFrom place (pieces ++ piece :: more) =
      (t.locateFrom place pieces).bind fun q => t.locateFrom q (piece :: more) := by
  induction pieces generalizing place with
  | nil =>
    rw [List.nil_append, locateFrom_nil, locateFrom_cons]
    by_cases hfolder : t.hasFolder place = true
    · simp [hfolder, locateFrom_cons]
    · by_cases hfile : (t.contentAt? place).isSome = true <;>
        simp [hfolder, hfile, locateFrom_cons]
  | cons first pieces ih =>
    rw [List.cons_append, locateFrom_cons, locateFrom_cons]
    split
    · exact ih _
    · rfl

/-- Two trees with the same folders lead to the same places, where both or
    neither have a file. -/
theorem locateFrom_eq_some_iff (hfolders : ∀ p, u.hasFolder p = t.hasFolder p)
    (hq : u.contentAt? q = t.contentAt? q) :
    u.locateFrom place pieces = some q ↔ t.locateFrom place pieces = some q := by
  induction pieces generalizing place with
  | nil =>
    rw [locateFrom_nil, locateFrom_nil, hfolders]
    by_cases heq : place = q
    · rw [heq, hq]
    · constructor <;> intro h <;> split at h <;> simp_all
  | cons piece pieces ih =>
    rw [locateFrom_cons, locateFrom_cons, hfolders]
    split
    · exact ih
    · simp

end Locate

theorem locate?_eq {path : String} (h : path ≠ "") :
    t.locate? path = t.locateFrom (t.origin path) (Path.splitSlashes path.toList) :=
  if_neg h

theorem isFolder_iff {path : String} :
    t.isFolder path = true ↔ ∃ place, t.locate? path = some place ∧ t.hasFolder place = true := by
  unfold isFolder
  cases t.locate? path <;> simp

/-- A name that is joined to the path of a folder leads into that folder. -/
theorem read?_join {folder name : String} {place : Place} (hlocate : t.locate? folder = some place)
    (hfolder : t.hasFolder place = true) (hname : Path.IsName name) :
    t.read? (Path.join folder name) = t.contentAt? (place ++ [name]) := by
  have hne : folder ≠ "" := by
    rintro rfl
    cases hlocate
  have hhead := Path.head?_join hne name
  have hjoin : Path.join folder name ≠ "" := by
    intro hempty
    rw [hempty] at hhead
    exact hne (String.toList_eq_nil_iff.mp (List.head?_eq_none_iff.mp hhead.symm))
  have horigin : t.origin (Path.join folder name) = t.origin folder := by
    unfold origin
    rw [hhead]
  obtain ⟨pieces, hjoined, hpieces⟩ := Path.exists_pieces_join hne hname
  have hplace : t.locateFrom (t.origin folder) pieces = some place := by
    rw [locate?_eq hne] at hlocate
    obtain hpieces | hpieces := hpieces
    · rwa [hpieces] at hlocate
    · rw [hpieces, locateFrom_append, Option.bind_eq_some_iff] at hlocate
      obtain ⟨q, hq, hlast⟩ := hlocate
      rw [hq, eq_of_locateFrom hlast rfl]
  have hpart : Path.partOf? false name.toList = some (.name name) := by
    simp [Path.partOf?, hname.nonempty, hname.notHere, hname.notAbove]
  rw [read?, locate?_eq hjoin, horigin, hjoined, locateFrom_append, hplace, Option.bind_some,
    locateFrom_cons, if_pos hfolder, hpart, follow, locateFrom_nil]
  split
  next => rfl
  next h =>
    rw [not_or] at h
    exact (Option.not_isSome_iff_eq_none.mp h.2).symm

/-! ### Making folders -/

/-- A tree has the files of another one and at least its folders. -/
structure Grows (t u : FileTree) : Prop where
  files : u.files = t.files
  home : u.home = t.home
  hasFolder : ∀ {p}, t.hasFolder p = true → u.hasFolder p = true

namespace Grows

theorem refl (t : FileTree) : t.Grows t :=
  ⟨rfl, rfl, id⟩

theorem trans (h : t.Grows u) (h' : u.Grows v) : t.Grows v :=
  ⟨h'.files.trans h.files, h'.home.trans h.home, fun hp => h'.hasFolder (h.hasFolder hp)⟩

theorem contentAt?_eq (h : t.Grows u) (p : Place) : u.contentAt? p = t.contentAt? p := by
  rw [contentAt?, contentAt?, h.files]

end Grows

/-- A new folder may be listed in place of the one that it lies in. -/
theorem grows_listed (t : FileTree) (place : Place) (name : String) :
    t.Grows { t with folders := t.folders.erase place ++ [place ++ [name]] } := by
  have hkept : ∀ {q}, q ∈ t.folders → q = place ∨ q ∈ t.folders.erase place := by
    intro q hq
    by_cases heq : q = place
    · exact Or.inl heq
    · exact Or.inr ((List.mem_erase_of_ne heq).mpr hq)
  have hnew : place ++ [name] ∈
      ({ t with folders := t.folders.erase place ++ [place ++ [name]] } : FileTree).named :=
    mem_named.mpr (Or.inr (Or.inl (by simp)))
  refine ⟨rfl, rfl, ?_⟩
  intro p hp
  obtain rfl | rfl | hlisted | ⟨q, hq, hqp⟩ := hasFolder_iff.mp hp
  · exact hasFolder_nil _
  · exact hasFolder_home _
  · obtain rfl | hlisted := hkept hlisted
    · exact hasFolder_of_isInside hnew (isInside_append name)
    · exact hasFolder_iff.mpr (Or.inr (Or.inr (Or.inl (List.mem_append_left _ hlisted))))
  · obtain hfile | hlisted | hhome := mem_named.mp hq
    · exact hasFolder_of_isInside (mem_named.mpr (Or.inl hfile)) hqp
    · obtain rfl | hlisted := hkept hlisted
      · apply hasFolder_of_isInside hnew
        exact isInside_above (isInside_iff.mp hqp).1 (isInside_append name)
      · exact hasFolder_of_isInside
          (mem_named.mpr (Or.inr (Or.inl (List.mem_append_left _ hlisted)))) hqp
    · exact hasFolder_of_isInside (mem_named.mpr (Or.inr (Or.inr hhome))) hqp

/-- Folders are made along the way on which a path is followed. -/
theorem makeFoldersFrom_cons {place : Place} {piece : List Char} {pieces : List (List Char)}
    (h : t.makeFoldersFrom place (piece :: pieces) = some u) :
    ∃ v, t.Grows v ∧ v.makeFoldersFrom (follow place (Path.partOf? false piece)) pieces = some u ∧
      (t.hasFolder place = true →
        v.hasFolder (follow place (Path.partOf? false piece)) = true) := by
  rw [makeFoldersFrom] at h
  by_cases hskip : piece = [] ∨ piece = ['.']
  · have hpart : Path.partOf? false piece = none := by
      obtain rfl | rfl := hskip <;> rfl
    rw [if_pos hskip] at h
    rw [hpart]
    exact ⟨t, .refl t, h, id⟩
  rw [if_neg hskip] at h
  rw [not_or] at hskip
  by_cases habove : piece = ['.', '.']
  · have hpart : Path.partOf? false piece = some .above := by
      rw [habove]
      rfl
    rw [if_pos habove] at h
    rw [hpart]
    exact ⟨t, .refl t, h, hasFolder_dropLast⟩
  · have hpart : Path.partOf? false piece = some (.name (String.ofList piece)) := by
      simp [Path.partOf?, hskip, habove]
    simp only [if_neg habove] at h
    split at h
    next => cases h
    next =>
      rw [hpart]
      refine ⟨_, grows_listed t place (String.ofList piece), h, fun _ => ?_⟩
      exact hasFolder_iff.mpr (Or.inr (Or.inr (Or.inl (by simp [follow]))))

theorem grows_makeFoldersFrom {place : Place} {pieces : List (List Char)}
    (h : t.makeFoldersFrom place pieces = some u) : t.Grows u := by
  induction pieces generalizing t place with
  | nil =>
    cases h
    exact .refl _
  | cons piece pieces ih =>
    obtain ⟨v, hgrows, hrest, -⟩ := makeFoldersFrom_cons h
    exact hgrows.trans (ih hrest)

theorem locateFrom_makeFoldersFrom {place : Place} {pieces : List (List Char)}
    (h : t.makeFoldersFrom place pieces = some u) (hplace : t.hasFolder place = true) :
    ∃ q, u.locateFrom place pieces = some q ∧ u.hasFolder q = true := by
  have hgrows := grows_makeFoldersFrom h
  induction pieces generalizing t place with
  | nil => exact ⟨place, by simp [locateFrom_nil, hgrows.hasFolder hplace], hgrows.hasFolder hplace⟩
  | cons piece pieces ih =>
    obtain ⟨v, -, hrest, hfolder⟩ := makeFoldersFrom_cons h
    rw [locateFrom_cons, if_pos (hgrows.hasFolder hplace)]
    exact ih hrest (hfolder hplace) (grows_makeFoldersFrom hrest)

/-- Afterwards the path leads to a folder. -/
theorem makeFolders?_spec {path : String} (h : t.makeFolders? path = some u) (hpath : path ≠ "") :
    t.Grows u ∧ u.isFolder path = true := by
  simp only [makeFolders?] at h
  split at h
  next =>
    have hgrows := grows_makeFoldersFrom h
    obtain ⟨place, hplace, hfolder⟩ := locateFrom_makeFoldersFrom h (hasFolder_origin t path)
    have horigin : u.origin path = t.origin path := by
      unfold origin
      rw [hgrows.home]
    refine ⟨hgrows, isFolder_iff.mpr ⟨place, ?_, hfolder⟩⟩
    rw [locate?_eq hpath, horigin, hplace]
  next =>
    obtain ⟨hmade, hfolder⟩ := Option.filter_eq_some_iff.mp h
    exact ⟨grows_makeFoldersFrom hmade, hfolder⟩

/-! ### Writing files -/

theorem lookup_filter_ne (files : List (Place × ByteArray)) (place p : Place) :
    (files.filter fun f => f.1 ≠ place).lookup p = if p = place then none else files.lookup p := by
  induction files with
  | nil => simp
  | cons f files ih =>
    obtain ⟨q, content⟩ := f
    by_cases hq : q = place
    · rw [List.filter_cons_of_neg (by simp [hq]), ih]
      by_cases hp : p = place
      · rw [if_pos hp, if_pos hp]
      · have hne : (p == q) = false := by simpa [hq] using hp
        rw [if_neg hp, if_neg hp, List.lookup_cons, hne]
    · rw [List.filter_cons_of_pos (by simp [hq]), List.lookup_cons, List.lookup_cons, ih]
      cases heq : p == q with
      | true => simp [eq_of_beq heq, hq]
      | false => rfl

theorem contentAt?_setFile (t : FileTree) (place p : Place) (content : ByteArray) :
    (t.setFile place content).contentAt? p =
      if p = place then some content else t.contentAt? p := by
  rw [contentAt?, setFile, List.lookup_append, lookup_filter_ne]
  by_cases hp : p = place
  · simp [hp]
  · have hne : (p == place) = false := by simpa using hp
    simp [hp, contentAt?, List.lookup_cons, hne]

theorem mem_named_setFile {place p : Place} {content : ByteArray} :
    p ∈ (t.setFile place content).named ↔ p = place ∨ p ∈ t.named := by
  simp only [mem_named, setFile, List.mem_append, List.mem_filter, List.mem_singleton]
  by_cases hp : p = place <;> simp [hp]

/-- A file in a folder makes no other place a folder. -/
theorem hasFolder_setFile {place : Place} (h : t.hasFolder place = true) (name : String)
    (content : ByteArray) (p : Place) :
    (t.setFile (place ++ [name]) content).hasFolder p = t.hasFolder p := by
  rw [Bool.eq_iff_iff]
  constructor
  · intro hp
    obtain rfl | hhome | hlisted | ⟨q, hq, hqp⟩ := hasFolder_iff.mp hp
    · exact hasFolder_nil t
    · exact hasFolder_iff.mpr (Or.inr (Or.inl hhome))
    · exact hasFolder_iff.mpr (Or.inr (Or.inr (Or.inl hlisted)))
    · obtain rfl | hq := mem_named_setFile.mp hq
      · exact hasFolder_above h (prefix_of_isInside_append hqp)
      · exact hasFolder_of_isInside hq hqp
  · intro hp
    obtain rfl | hhome | hlisted | ⟨q, hq, hqp⟩ := hasFolder_iff.mp hp
    · exact hasFolder_nil _
    · exact hasFolder_iff.mpr (Or.inr (Or.inl hhome))
    · exact hasFolder_iff.mpr (Or.inr (Or.inr (Or.inl hlisted)))
    · exact hasFolder_of_isInside (mem_named_setFile.mpr (Or.inr hq)) hqp

theorem write?_eq_some {folder name content : String}
    (h : t.write? folder name content = some u) :
    ∃ place, t.locate? folder = some place ∧ t.hasFolder place = true ∧
      u = t.setFile (place ++ [name]) content.toUTF8 := by
  unfold write? at h
  split at h
  next => cases h
  next place hplace =>
    obtain ⟨hlocate, hfolder⟩ := Option.filter_eq_some_iff.mp hplace
    split at h
    next => cases h
    next => exact ⟨place, hlocate, hfolder, (Option.some.inj h).symm⟩

/-! ### What writing leaves alone -/

/-- Two trees have the same folders, and the same files but at some places. -/
structure AgreesOutside (touched : Place → Prop) (t u : FileTree) : Prop where
  home : u.home = t.home
  hasFolder : ∀ p, u.hasFolder p = t.hasFolder p
  contentAt?_eq : ∀ {p}, ¬ touched p → u.contentAt? p = t.contentAt? p

namespace AgreesOutside

variable {touched : Place → Prop}

theorem refl (touched : Place → Prop) (t : FileTree) : t.AgreesOutside touched t :=
  ⟨rfl, fun _ => rfl, fun _ => rfl⟩

theorem trans (h : t.AgreesOutside touched u) (h' : u.AgreesOutside touched v) :
    t.AgreesOutside touched v :=
  ⟨h'.home.trans h.home, fun p => (h'.hasFolder p).trans (h.hasFolder p),
    fun hp => (h'.contentAt?_eq hp).trans (h.contentAt?_eq hp)⟩

theorem mono {touched' : Place → Prop} (h : t.AgreesOutside touched u)
    (himp : ∀ p, touched p → touched' p) : t.AgreesOutside touched' u :=
  ⟨h.home, h.hasFolder, fun hp => h.contentAt?_eq fun htouched => hp (himp _ htouched)⟩

theorem setFile {place : Place} (h : t.hasFolder place = true) {name : String}
    (htouched : touched (place ++ [name])) (content : ByteArray) :
    t.AgreesOutside touched (t.setFile (place ++ [name]) content) := by
  refine ⟨rfl, hasFolder_setFile h name content, ?_⟩
  intro p hp
  rw [contentAt?_setFile, if_neg]
  rintro rfl
  exact hp htouched

theorem locate?_eq_some_iff (h : t.AgreesOutside touched u) {path : String} {q : Place}
    (hq : ¬ touched q) : u.locate? path = some q ↔ t.locate? path = some q := by
  have horigin : u.origin path = t.origin path := by
    unfold origin
    rw [h.home]
  unfold locate?
  split
  · rfl
  · rw [horigin]
    exact locateFrom_eq_some_iff h.hasFolder (h.contentAt?_eq hq)

/-- A path with a file name that no touched place ends in finds what it found. -/
theorem read?_eq (h : t.AgreesOutside touched u) {path name : String}
    (hpath : Path.fileName? path = some name)
    (htouched : ∀ p, touched p → p.getLast? ≠ some name) : u.read? path = t.read? path := by
  have hplace : ∀ {v : FileTree} {q}, v.locate? path = some q → ¬ touched q := by
    intro v q hq htouch
    unfold locate? at hq
    split at hq
    · cases hq
    · exact htouched q htouch (getLast?_of_locateFrom hq (Path.getLast?_pieces_of_fileName? hpath))
  have hlocate : u.locate? path = t.locate? path := by
    apply Option.ext
    intro q
    constructor
    · intro hq
      exact (h.locate?_eq_some_iff (hplace hq)).mp hq
    · intro hq
      exact (h.locate?_eq_some_iff (hplace hq)).mpr hq
  unfold read?
  rw [hlocate]
  cases hq : t.locate? path with
  | none => rfl
  | some q => exact h.contentAt?_eq (hplace hq)

end AgreesOutside

end PascalOutline.FileTree
