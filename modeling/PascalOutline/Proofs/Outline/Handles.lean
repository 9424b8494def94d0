import PascalOutline.Proofs.Documentation
import PascalOutline.Proofs.Outline.Preorder

/-! # Handles

  The handle of an entry is its place among the entries. A builder gives it to
  an entry when it makes it, and nothing that is done to the entry later
  changes it (`Builder.Numbered`). So in the outline of a source the handles
  can be trusted: what an entry lists as its children are the entries that name
  it as their parent, in order (`Outline.Linked`).
-/

namespace PascalOutline

namespace Builder

/-! ### Builders -/

/-- Every entry knows its own place. -/
def Numbered (b : Builder) : Prop :=
  ∀ i e, b.entry? i = some e → e.id = i

namespace Numbered

variable {b b' : Builder}

theorem modify (h : b.Numbered) (id : EntryId) {f : Entry → Entry}
    (hid : ∀ e, (f e).id = e.id) : (b.modify id f).Numbered := by
  intro i e he
  rw [entry?_modify] at he
  by_cases hi : i = id
  · rw [if_pos hi] at he
    obtain ⟨old, hold, rfl⟩ := Option.map_eq_some_iff.mp he
    rw [hid]
    exact h i old hold
  · rw [if_neg hi] at he
    exact h i e he

theorem addDoc (h : b.Numbered) (id : EntryId) (text : String) : (b.addDoc id text).Numbered := by
  apply h.modify id
  intro e
  unfold Entry.addDoc
  split
  · rfl
  · split <;> rfl

theorem of_documents (h : b.Numbered) (hdocs : b.Documents b') : b'.Numbered := by
  induction hdocs with
  | refl => exact h
  | tail _ hstep ih =>
    obtain ⟨id, text, rfl⟩ := hstep
    exact ih.addDoc id text

theorem close (h : b.Numbered) (id : EntryId) (stop : Location) : (b.close id stop).Numbered :=
  h.modify id fun _ => rfl

theorem pop (h : b.Numbered) (stop : Location) : (b.pop stop).Numbered := by
  unfold Builder.pop
  split
  · exact h.close _ stop
  · exact h

theorem popTimes (h : b.Numbered) (stop : Location) (n : Nat) : (b.popTimes stop n).Numbered := by
  induction n generalizing b with
  | zero => exact h
  | succ n ih => exact ih (h.pop stop)

theorem insert (h : b.Numbered) (e : Entry) : (b.insert e).Numbered := by
  intro i x hx
  rw [entry?_insert] at hx
  by_cases hi : i = b.nextId
  · rw [if_pos hi] at hx
    rw [← Option.some.inj hx, hi]
  · rw [if_neg hi] at hx
    by_cases htop : b.top? = some i
    · rw [if_pos htop] at hx
      obtain ⟨old, hold, rfl⟩ := Option.map_eq_some_iff.mp hx
      exact h i old hold
    · rw [if_neg htop] at hx
      exact h i x hx

theorem push (h : b.Numbered) (e : Entry) : (b.push e).Numbered :=
  h.insert e

theorem addLeaf (h : b.Numbered) (e : Entry) : (b.addLeaf e).Numbered := by
  unfold Builder.addLeaf
  by_cases hroot : b.hasRoot = true
  · rw [if_pos hroot]
    exact (h.insert e).close _ _
  · rw [if_neg hroot]
    exact h.push e

theorem foldl_addLeaf (h : b.Numbered) (entries : List Entry) :
    (entries.foldl Builder.addLeaf b).Numbered := by
  induction entries generalizing b with
  | nil => exact h
  | cons e es ih => exact ih (h.addLeaf e)

end Numbered

end Builder

/-! ### Deeds -/

/-- No deed changes a handle, and a new entry gets its own. -/
theorem Deed.numbered {p q : Site} {g : Draft → Draft} {d : Draft} (h : Deed p g q)
    (hd : d.builder.Numbered) : (g d).builder.Numbered := by
  have hled := hd.of_documents (d.documents_takeLeading p.cursor)
  have hconclude : ∀ {d : Draft} (c : Cursor) (id : EntryId) {f : Entry → Entry},
      (∀ e, (f e).id = e.id) → d.builder.Numbered → (d.conclude c id f).builder.Numbered := by
    intro d c id f hid hd
    apply Builder.Numbered.of_documents _ (Draft.documents_itemDone _ c [id])
    exact (hd.modify id hid).pop c.prevStop
  cases h with
  | move _ | log _ => exact hd
  | sync _ => exact hd.of_documents (d.documents_sync _)
  | skip _ => exact hd.of_documents (d.documents_skipTransparent _)
  | lead _ _ => exact hled
  | @use id _ units => exact hd.modify id fun _ => rfl
  | @declare c entries =>
    apply Builder.Numbered.of_documents _ (Draft.documents_itemDone _ c _)
    exact hled.foldl_addLeaf _
  | @enter c e =>
    apply Builder.Numbered.of_documents _ (Draft.documents_itemDone _ c _)
    exact hled.push _
  | conclude _ _ _ _ _ _ _ hid => exact hconclude _ _ hid hd
  | shut _ _ _ _ _ _ _ _ hid =>
    exact hconclude _ _ hid (hd.of_documents (d.documents_sync _))
  | abandon _ _ => exact hd.pop _

theorem Config.Steps.numbered {x y : Config} (h : x.Steps y) (hx : x.first.builder.Numbered) :
    y.first.builder.Numbered := by
  induction h with
  | refl => exact hx
  | tail _ hstep ih =>
    obtain ⟨hdeed, d, d'⟩ := hstep
    exact hdeed.numbered ih

namespace State

variable (options : Options) (file : String) (lexemes : List Lexeme)

theorem numbered_root : (root options file lexemes).draft.builder.Numbered := by
  have hempty : (initial options file lexemes).draft.builder.Numbered := by
    intro i e he
    cases he
  rcases root_cases options file lexemes with
    ⟨t, e, hin, _, _, _, hdraft⟩ | ⟨e, _, _, _, _, hdraft⟩
  · have hdocs := (initial options file lexemes).draft.documents_takeLeading
      (initial options file lexemes).cursor
    rw [hin.led] at hdocs
    rw [hdraft]
    apply Builder.Numbered.of_documents _ (Draft.documents_itemDone _ _ _)
    exact (hempty.of_documents hdocs).push e
  · rw [hdraft]
    exact hempty.push e

/-- Everything that was declared, up to the end of the source. -/
theorem numbered_ofSource : (ofSource options file lexemes).draft.builder.Numbered := by
  have htracks := tracks_run options options file lexemes
  have hrun := htracks.steps.numbered (numbered_root options file lexemes)
  exact hrun.of_documents (documents_finish _)

end State

/-! ### Outlines -/

/-- The entries of an outline know their places, and parents and children know
    each other. -/
structure Outline.Linked (o : Outline) : Prop where
  /-- An entry knows its own place. -/
  own : ∀ i e, o.get? i = some e → e.id = i
  /-- An entry lists those that name it as their parent. -/
  child : ∀ i e k, o.get? i = some e →
    (k ∈ e.children.toList ↔ ∃ child, o.get? k = some child ∧ child.parent = some i)
  /-- It lists them in order. -/
  sorted : ∀ i e, o.get? i = some e → e.children.toList.Pairwise (· < ·)

/-- A builder whose entries know their places hands over such an outline. -/
theorem Builder.Numbered.finish {b : Builder} (h : b.Numbered) (harena : b.Arena)
    (eof : Location) : (b.finish eof).Linked := by
  have hroot := harena.hasRoot
  have hclosed := harena.popTimes eof b.unclosed
  -- To stretch the root changes neither its handle nor its links.
  have hold : ∀ i e, (b.finish eof).get? i = some e →
      ∃ old, entry? (b.popTimes eof b.unclosed) i = some old ∧ e.id = old.id ∧
        e.links = old.links := by
    intro i e he
    rw [get?_finish hroot] at he
    by_cases hi : i = 0
    · rw [if_pos hi] at he
      obtain ⟨old, hold, rfl⟩ := Option.map_eq_some_iff.mp he
      exact ⟨old, hold, rfl, rfl⟩
    · rw [if_neg hi] at he
      exact ⟨e, he, rfl, rfl⟩
  have hkept : ∀ i old, entry? (b.popTimes eof b.unclosed) i = some old →
      ∃ e, (b.finish eof).get? i = some e ∧ e.links = old.links := by
    intro i old hi
    rw [get?_finish hroot, hi]
    by_cases hzero : i = 0
    · rw [if_pos hzero]
      exact ⟨_, rfl, rfl⟩
    · rw [if_neg hzero]
      exact ⟨old, rfl, rfl⟩
  constructor
  case own =>
    intro i e he
    obtain ⟨old, hentry, hid, _⟩ := hold i e he
    rw [hid]
    exact h.popTimes eof b.unclosed i old hentry
  case child =>
    intro i e k he
    obtain ⟨old, hentry, _, hlinks⟩ := hold i e he
    have hchildren : e.children = old.children := congrArg Links.children hlinks
    rw [hchildren, Array.mem_toList_iff, hclosed.mem_children_iff hentry]
    constructor
    · rintro ⟨child, hchild, hparent⟩
      obtain ⟨x, hx, hlinks⟩ := hkept k child hchild
      exact ⟨x, hx, (congrArg Links.parent hlinks).trans hparent⟩
    · rintro ⟨child, hchild, hparent⟩
      obtain ⟨x, hx, _, hlinks⟩ := hold k child hchild
      exact ⟨x, hx, (congrArg Links.parent hlinks).symm.trans hparent⟩
  case sorted =>
    intro i e he
    obtain ⟨old, hentry, _, hlinks⟩ := hold i e he
    have hchildren : e.children = old.children := congrArg Links.children hlinks
    rw [hchildren]
    exact hclosed.sorted i _ (links?_of_entry hentry)

/-- The outline of every source is linked. -/
theorem linked_scan (options : Options) (file source : String) :
    (scan options file source).outline.Linked := by
  have hnumbered := State.numbered_ofSource options file (Lexer.lex options.nestedComments source)
  have hreachable := State.reachable_run options file (Lexer.lex options.nestedComments source)
  have harena := hreachable.agrees.arena.of_sameFrame (State.documents_finish _).sameFrame
  exact hnumbered.finish harena _

end PascalOutline
