import PascalOutline.Proofs.Outline.Grows

/-! # What entries are called

  The title of an entry says what it declares, under which name, and where it
  begins. A title is fixed when the entry is made: a builder only adds titles
  at the end, and when it is finished only the root begins elsewhere, at the
  beginning of the text.
-/

namespace PascalOutline

/-- What an entry declares, under which name, and where it begins. -/
structure Title where
  /-- What it declares. -/
  kind : EntryKind
  /-- Its name, which may be missing. -/
  name : String
  /-- The place before its first token. -/
  start : Location
deriving DecidableEq

/-- Whether a name is missing. What stands for a source without a module header
    is no declaration, and needs none. -/
def Title.isNameless (t : Title) : Bool :=
  t.name = "" ∧ t.kind ≠ .other

/-- A title, moved to the beginning of the text. -/
def Title.fromStart (t : Title) : Title :=
  { t with start := .start }

/-- The title of an entry. -/
def Entry.title (e : Entry) : Title :=
  { kind := e.kind, name := e.name, start := e.start }

theorem Entry.title_addDoc (e : Entry) (text : String) : (e.addDoc text).title = e.title := by
  unfold addDoc
  split
  · rfl
  · split <;> rfl

theorem Entry.Keeps.title_eq {e e' : Entry} (h : e.Keeps e') : e'.title = e.title := by
  rw [title, title, h.kind, h.name, h.start]

theorem Title.isNameless_eq_false {t : Title} (h : t.name ≠ "") : t.isNameless = false :=
  decide_eq_false fun hnameless => h hnameless.1

/-- The titles of the entries of an outline. -/
def Outline.titles (o : Outline) : List Title :=
  o.entries.toList.map Entry.title

namespace Builder

/-- The titles of the entries that were made. -/
def titles (b : Builder) : List Title :=
  b.entries.toList.map Entry.title

theorem getElem?_titles (b : Builder) (i : EntryId) :
    b.titles[i]? = (b.entry? i).map Entry.title := by
  rw [titles, List.getElem?_map, Array.getElem?_toList]
  rfl

theorem titles_modify (b : Builder) (id : EntryId) {f : Entry → Entry}
    (hf : ∀ e, (f e).title = e.title) : (b.modify id f).titles = b.titles := by
  apply List.ext_getElem?
  intro i
  rw [getElem?_titles, getElem?_titles, entry?_modify]
  split
  · rw [Option.map_map]
    exact Option.map_congr fun e _ => hf e
  · rfl

@[simp] theorem titles_close (b : Builder) (id : EntryId) (stop : Location) :
    (b.close id stop).titles = b.titles :=
  b.titles_modify id fun _ => rfl

@[simp] theorem titles_pop (b : Builder) (stop : Location) : (b.pop stop).titles = b.titles := by
  unfold pop
  split
  · exact b.titles_close ..
  · rfl

@[simp] theorem titles_popTimes (b : Builder) (stop : Location) (n : Nat) :
    (b.popTimes stop n).titles = b.titles := by
  induction n generalizing b with
  | zero => rfl
  | succ n ih => rw [popTimes, ih, titles_pop]

theorem Documents.titles_eq {b b' : Builder} (h : b.Documents b') : b'.titles = b.titles := by
  induction h with
  | refl => rfl
  | tail _ hstep ih =>
    obtain ⟨id, text, rfl⟩ := hstep
    exact (titles_modify _ id fun e => e.title_addDoc text).trans ih

@[simp] theorem titles_insert (b : Builder) (e : Entry) :
    (b.insert e).titles = b.titles ++ [e.title] := by
  unfold insert
  dsimp only
  rw [titles, Array.toList_push, List.map_append]
  congr 1
  split
  · exact b.titles_modify _ fun _ => rfl
  · rfl

@[simp] theorem titles_push (b : Builder) (e : Entry) :
    (b.push e).titles = b.titles ++ [e.title] :=
  b.titles_insert e

@[simp] theorem titles_addLeaf (b : Builder) (e : Entry) :
    (b.addLeaf e).titles = b.titles ++ [e.title] := by
  unfold addLeaf
  dsimp only
  split
  · rw [titles_close, titles_insert]
  · exact b.titles_push e

/-- The finished outline has the titles of the builder, but its root begins
    with the text. -/
theorem titles_finish {b : Builder} (hroot : b.hasRoot = true) (eof : Location) :
    (b.finish eof).titles = b.titles.modify 0 Title.fromStart := by
  have hclosed := b.titles_popTimes eof b.unclosed
  simp only [finish, withRoot, if_pos hroot, Outline.titles, Array.toList_modify]
  rw [← hclosed, titles]
  apply List.ext_getElem?
  intro i
  rw [List.getElem?_map, List.getElem?_modify, List.getElem?_modify, List.getElem?_map]
  by_cases hi : 0 = i
  · simp only [hi, if_true, Option.map_eq_map, Option.map_map]
    rfl
  · simp [hi]

/-! ### Missing names -/

/-- The titles of the entries whose name is missing. -/
def nameless (b : Builder) : List Title :=
  b.titles.filter Title.isNameless

theorem nameless_congr {b b' : Builder} (h : b'.titles = b.titles) : b'.nameless = b.nameless := by
  rw [nameless, nameless, h]

theorem nameless_append {b b' : Builder} {t : Title} (h : b'.titles = b.titles ++ [t])
    (hname : t.isNameless = false) : b'.nameless = b.nameless := by
  rw [nameless, nameless, h, List.filter_append, List.filter_cons_of_neg (by simp [hname])]
  exact List.append_nil _

theorem nameless_push (b : Builder) {e : Entry} (h : e.name ≠ "") :
    (b.push e).nameless = b.nameless :=
  nameless_append (b.titles_push e) (Title.isNameless_eq_false h)

theorem nameless_addLeaf (b : Builder) {e : Entry} (h : e.name ≠ "") :
    (b.addLeaf e).nameless = b.nameless :=
  nameless_append (b.titles_addLeaf e) (Title.isNameless_eq_false h)

theorem nameless_foldl_addLeaf (b : Builder) {entries : List Entry}
    (h : ∀ e ∈ entries, e.name ≠ "") :
    (entries.foldl Builder.addLeaf b).nameless = b.nameless := by
  induction entries generalizing b with
  | nil => rfl
  | cons e es ih =>
    obtain ⟨hfirst, hothers⟩ := List.forall_mem_cons.mp h
    rw [List.foldl_cons, ih _ hothers, nameless_addLeaf _ hfirst]

end Builder

end PascalOutline
