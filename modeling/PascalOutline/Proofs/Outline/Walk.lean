import PascalOutline.Proofs.Outline.Handles
import PascalOutline.Proofs.Outline.Operations
import PascalOutline.Proofs.Scan

/-! # Walking over the outline of a source

  A walk over the outline of a source visits its entries in the order of the
  array, each one at its depth. What a builder in preorder is like is known;
  but the recognizer also edits texts and adds documentation, and places do not
  matter here. So the builder of a reachable state is compared with one in
  preorder that has the same links (`Builder.SameLinks`): whatever is done to
  the one can be done to the other.
-/

namespace PascalOutline

namespace Builder

/-! ### The same links -/

/-- Two builders differ at most in the texts and the ends of their entries. -/
structure SameLinks (b b' : Builder) : Prop where
  /-- They have equally many entries. -/
  size : b'.entries.size = b.entries.size
  /-- The same entries are open. -/
  stack : b'.stack = b.stack
  /-- The links are the same. -/
  links : ∀ id, b'.links? id = b.links? id

theorem SameFrame.sameLinks {b b' : Builder} (h : b.SameFrame b') : b.SameLinks b' :=
  ⟨h.size, h.stack, h.links⟩

namespace SameLinks

variable {b b' b'' : Builder}

theorem trans (h : b.SameLinks b') (h' : b'.SameLinks b'') : b.SameLinks b'' := by
  constructor
  · rw [h'.size, h.size]
  · rw [h'.stack, h.stack]
  · intro id
    rw [h'.links, h.links]

theorem arena (h : b.SameLinks b') (hb : b.Arena) : b'.Arena := by
  refine hb.of_suffix h.size h.links (h.stack ▸ List.suffix_rfl) ?_
  rw [h.stack]
  exact hb.root_open

theorem consecutive (h : b.SameLinks b') (hb : Consecutive b.entries) : Consecutive b'.entries :=
  consecutive_of_links? h.links hb

theorem top?_eq (h : b.SameLinks b') : b'.top? = b.top? := by
  rw [top?, top?, h.stack]

theorem push (h : b.SameLinks b') (e e' : Entry) : (b.push e).SameLinks (b'.push e') := by
  have hid : b'.nextId = b.nextId := h.size
  constructor
  · show (b'.insert e').entries.size = (b.insert e).entries.size
    rw [size_insert, size_insert, h.size]
  · show b'.nextId :: b'.stack = b.nextId :: b.stack
    rw [hid, h.stack]
  · intro i
    show (b'.insert e').links? i = (b.insert e).links? i
    rw [links?_insert, links?_insert, hid, h.top?_eq, h.links]

theorem pop (h : b.SameLinks b') (stop stop' : Location) :
    (b.pop stop).SameLinks (b'.pop stop') := by
  have hclosable : b'.closable? = b.closable? := by rw [closable?, closable?, h.stack]
  unfold Builder.pop
  rw [hclosable, h.stack]
  split
  next id _ =>
    constructor
    · show (b'.close id stop').entries.size = (b.close id stop).entries.size
      rw [size_entries_close, size_entries_close, h.size]
    · rfl
    · intro i
      show (b'.close id stop').links? i = (b.close id stop).links? i
      rw [links?_close, links?_close, h.links]
  next => exact h

theorem popTimes (h : b.SameLinks b') (stop stop' : Location) (n : Nat) :
    (b.popTimes stop n).SameLinks (b'.popTimes stop' n) := by
  induction n generalizing b b' with
  | zero => exact h
  | succ n ih => exact ih (h.pop stop stop')

end SameLinks

/-! ### Builders that are linked in preorder -/

/-- A builder has the links of one in preorder. -/
def Threaded (b : Builder) : Prop :=
  ∃ model : Builder, model.InPreorder ∧ model.SameLinks b

namespace Threaded

variable {b b' : Builder}

theorem arena (h : b.Threaded) : b.Arena := by
  obtain ⟨model, hmodel, hsame⟩ := h
  exact hsame.arena hmodel.arena

theorem consecutive (h : b.Threaded) : Consecutive b.entries := by
  obtain ⟨model, hmodel, hsame⟩ := h
  exact hsame.consecutive hmodel.next

theorem of_sameLinks (h : b.Threaded) (hsame : b.SameLinks b') : b'.Threaded := by
  obtain ⟨model, hmodel, hlinks⟩ := h
  exact ⟨model, hmodel, hlinks.trans hsame⟩

theorem push (h : b.Threaded) (e : Entry) : (b.push e).Threaded := by
  obtain ⟨model, hmodel, hsame⟩ := h
  exact ⟨model.push e, hmodel.push e, hsame.push e e⟩

theorem pop (h : b.Threaded) (stop : Location) : (b.pop stop).Threaded := by
  obtain ⟨model, hmodel, hsame⟩ := h
  exact ⟨model.pop stop, hmodel.pop stop, hsame.pop stop stop⟩

theorem addLeaf (h : b.Threaded) (e : Entry) : (b.addLeaf e).Threaded := by
  rw [h.arena.addLeaf_eq_pop_push]
  exact (h.push e).pop e.stop

theorem popTimes (h : b.Threaded) (stop : Location) (n : Nat) : (b.popTimes stop n).Threaded := by
  obtain ⟨model, hmodel, hsame⟩ := h
  exact ⟨model.popTimes stop n, hmodel.popTimes stop n, hsame.popTimes stop stop n⟩

theorem of_build {x y : Cursor × Builder} (h : x.2.Threaded) (hstep : Build x y) :
    y.2.Threaded := by
  cases hstep with
  | move _ => exact h
  | edit hframe => exact h.of_sameLinks hframe.sameLinks
  | leaf _ _ _ => exact h.addLeaf _
  | push _ _ => exact h.push _
  | pop => exact h.pop _

theorem of_builds {x y : Cursor × Builder} (h : x.2.Threaded) (hbuilds : Builds x y) :
    y.2.Threaded := by
  induction hbuilds with
  | refl => exact h
  | tail _ hstep ih => exact ih.of_build hstep

end Threaded

end Builder

/-! ### Outlines -/

/-- A walk over an outline visits its entries in the order of the array, and
    the depth is the number of entries above. -/
structure Outline.WalksInOrder (o : Outline) : Prop where
  /-- The entries are visited in order. -/
  order : o.walk.map Prod.snd = o.entries.toList
  /-- The depth is the number of entries above. -/
  depth : ∀ depth e, (depth, e) ∈ o.walk →
    ∃ above, Above o.entries e.id above ∧ above.length = depth

theorem Builder.Threaded.walksInOrder {b : Builder} {o : Outline} (h : b.Threaded)
    (hentries : o.entries = b.entries) (hown : ∀ i e, o.get? i = some e → e.id = i) :
    o.WalksInOrder := by
  have hlimit : 0 + o.size = b.entries.size := by
    rw [Nat.zero_add, Outline.size, hentries]
  obtain ⟨hwalk, hdepth⟩ :=
    walkFrom_of_waiting h.arena h.consecutive hentries hlimit (.start h.arena)
  constructor
  case order => rwa [List.drop_zero] at hwalk
  case depth =>
    intro depth e hmem
    obtain ⟨k, above, hk, habove, hlength⟩ := hdepth depth e hmem
    have hget : o.get? k = some e := by
      rw [Outline.get?, hentries]
      exact hk
    rw [hown k e hget]
    exact ⟨above, habove, hlength⟩

theorem Builder.Threaded.finish {b : Builder} (h : b.Threaded) (eof : Location)
    (hown : ∀ i e, (b.finish eof).get? i = some e → e.id = i) : (b.finish eof).WalksInOrder := by
  have hroot : b.withRoot = b := by
    unfold withRoot
    rw [if_pos h.arena.hasRoot]
  -- What the root is stretched over is no link.
  have hstretched : ∀ closed : Builder, closed.SameLinks (closed.stretchRoot (max eof .start)) :=
    fun closed => ⟨Array.size_modify, rfl, closed.links?_stretchRoot _⟩
  refine walksInOrder ((h.popTimes eof b.unclosed).of_sameLinks (hstretched _)) ?_ hown
  unfold Builder.finish
  dsimp only
  rw [hroot]
  rfl

/-! ### Scans -/

theorem State.Reachable.threaded {options : Options} {file : String} {lexemes : List Lexeme}
    {s : State} (h : Reachable options file lexemes s) : s.draft.builder.Threaded := by
  refine h.induct (motive := fun s => s.draft.builder.Threaded) ?_ ?_
  · obtain ⟨empty, e, hsize, hstack, hframe⟩ := onlyRoot_root options file lexemes
    exact ⟨_, Builder.inPreorder_push_of_empty hsize hstack e, hframe.sameLinks⟩
  · intro s t heffect hs
    exact hs.of_builds heffect.builds

/-- The entries of every source are visited in the order of the array. -/
theorem walksInOrder_scan (options : Options) (file source : String) :
    (scan options file source).outline.WalksInOrder := by
  have hreachable := State.reachable_run options file (Lexer.lex options.nestedComments source)
  have hfinished := hreachable.threaded.of_sameLinks (State.documents_finish _).sameFrame.sameLinks
  exact hfinished.finish _ (linked_scan options file source).own

end PascalOutline
