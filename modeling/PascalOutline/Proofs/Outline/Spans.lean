import Mathlib.Logic.Relation
import PascalOutline.Proofs.Cursor.Order
import PascalOutline.Proofs.Outline.Arena

/-! # The ranges of entries

  While a builder grows, everything in it lies before one place: the end of
  the last token that was passed. `Builder.Spans` says so, and that the
  entries begin in the order in which they were made, that a closed entry ends
  after its children, and that an entry begins after its elder siblings end.

  A builder grows in five ways, listed by `Build`: the cursor moves on, texts
  are edited, and entries are added, opened and closed. Each of them keeps the
  ranges, hence so does every sequence of them (`Spans.of_builds`).
-/

namespace PascalOutline

namespace Builder

/-! ### Everything before a place -/

/-- Everything in a builder lies before a place. -/
structure LiesBefore (b : Builder) (p : Location) : Prop where
  /-- Entries begin before it. -/
  begun : ∀ i x, b.ends? i = some x → i ≠ 0 → x.1.Precedes p ∧ x.1.offset < p.offset
  /-- Closed entries end there or before. -/
  ended : ∀ i x, b.ends? i = some x → i ∉ b.stack → x.2.Precedes p

theorem Arena.stack_addLeaf {b : Builder} (h : b.Arena) (e : Entry) :
    (b.addLeaf e).stack = b.stack := by
  rw [h.addLeaf_eq]
  rfl

/-- A complete entry ends where it says. -/
theorem Arena.ends?_addLeaf {b : Builder} (h : b.Arena) {e : Entry}
    (hspan : e.start.Precedes e.stop) (i : EntryId) :
    (b.addLeaf e).ends? i = if i = b.nextId then some (e.start, e.stop) else b.ends? i := by
  rw [h.addLeaf_eq, ends?_close, ends?_insert]
  · by_cases hi : i = b.nextId
    · rw [if_pos hi, if_pos hi, if_pos hi]
      rfl
    · rw [if_neg hi, if_neg hi, if_neg hi]
  · intro x hx
    rw [ends?_insert, if_pos rfl] at hx
    rw [← Option.some.inj hx]
    exact hspan.order
  · intro l k x hl hk
    rw [links?_insert_nextId] at hl
    rw [← Option.some.inj hl] at hk
    exact absurd hk (Array.not_mem_empty k)

namespace LiesBefore

variable {b b' : Builder} {p q : Location} {id : EntryId} {rest : List EntryId}

theorem mono (h : b.LiesBefore p) (hpq : p.Precedes q) : b.LiesBefore q := by
  constructor
  · intro i x hx hi
    obtain ⟨hp, hlt⟩ := h.begun i x hx hi
    exact ⟨hp.trans hpq, Nat.lt_of_lt_of_le hlt hpq.offset⟩
  · intro i x hx hi
    exact (h.ended i x hx hi).trans hpq

theorem of_sameFrame (h : b.LiesBefore p) (hframe : b.SameFrame b') : b'.LiesBefore p := by
  constructor
  · simpa only [hframe.ends] using h.begun
  · simpa only [hframe.ends, hframe.stack] using h.ended

/-- An entry is begun before the place. -/
theorem push (h : b.LiesBefore p) {e : Entry} (hp : e.start.Precedes p)
    (hlt : e.start.offset < p.offset) : (b.push e).LiesBefore p := by
  have hends : ∀ i, (b.push e).ends? i = if i = b.nextId then some e.ends else b.ends? i :=
    b.ends?_insert e
  constructor
  · intro i x hx hi
    rw [hends] at hx
    split at hx
    · obtain rfl := Option.some.inj hx
      exact ⟨hp, hlt⟩
    · exact h.begun i x hx hi
  · intro i x hx hi
    rw [hends] at hx
    split at hx
    · next hnew => exact absurd (hnew ▸ List.mem_cons_self) hi
    · exact h.ended i x hx fun hopen => hi (List.mem_cons_of_mem _ hopen)

/-- A complete entry lies before the place. -/
theorem addLeaf (h : b.LiesBefore p) (harena : b.Arena) {e : Entry}
    (hspan : e.start.Precedes e.stop) (hlt : e.start.offset < e.stop.offset)
    (hp : e.stop.Precedes p) : (b.addLeaf e).LiesBefore p := by
  constructor
  · intro i x hx hi
    rw [harena.ends?_addLeaf hspan] at hx
    split at hx
    · obtain rfl := Option.some.inj hx
      exact ⟨hspan.trans hp, Nat.lt_of_lt_of_le hlt hp.offset⟩
    · exact h.begun i x hx hi
  · intro i x hx hi
    rw [harena.ends?_addLeaf hspan] at hx
    rw [harena.stack_addLeaf] at hi
    split at hx
    · obtain rfl := Option.some.inj hx
      exact hp
    · exact h.ended i x hx hi

theorem foldl_addLeaf (h : b.LiesBefore p) (harena : b.Arena) {entries : List Entry}
    (hspan : ∀ e ∈ entries, e.start.Precedes e.stop ∧ e.start.offset < e.stop.offset ∧
      e.stop.Precedes p) : (entries.foldl Builder.addLeaf b).LiesBefore p := by
  induction entries generalizing b with
  | nil => exact h
  | cons e es ih =>
    obtain ⟨⟨hfirst, hlt, hp⟩, hothers⟩ := List.forall_mem_cons.mp hspan
    exact ih (h.addLeaf harena hfirst hlt hp) (harena.addLeaf e) hothers

/-- What the innermost open entry holds came after it, so it is closed. -/
theorem child_precedes (h : b.LiesBefore p) (harena : b.Arena) (hstack : b.stack = id :: rest)
    {l : Links} {k : EntryId} {x : Location × Location} (hl : b.links? id = some l)
    (hk : k ∈ l.children) (hx : b.ends? k = some x) : x.2.Precedes p := by
  have hsorted := harena.stack_sorted
  have hlt := (harena.child id l k hl hk).1
  refine h.ended k x hx fun hmem => ?_
  rw [hstack] at hsorted hmem
  rcases List.mem_cons.mp hmem with rfl | hmem
  · exact Nat.lt_irrefl _ hlt
  · exact Nat.lt_asymm hlt ((List.pairwise_cons.mp hsorted).1 k hmem)

/-- An entry that is closed at the place ends there. -/
theorem ends?_pop (h : b.LiesBefore p) (harena : b.Arena) (hstack : b.stack = id :: rest)
    (hrest : rest ≠ []) (i : EntryId) :
    (b.pop p).ends? i = if i = id then (b.ends? i).map fun x => (x.1, p) else b.ends? i := by
  rcases harena.pop_cases p with ⟨honly, _⟩ | ⟨id', rest', hstack', hid, _, _, hpop⟩
  · rw [hstack] at honly
    exact absurd (List.cons.inj honly).2 hrest
  obtain ⟨rfl, rfl⟩ := List.cons.inj (hstack.symm.trans hstack')
  rw [hpop]
  refine ends?_close ?_ ?_ i
  · intro x hx
    exact (h.begun id x hx hid).1.order
  · intro l k x hl hk hx
    exact (h.child_precedes harena hstack hl hk hx).order

theorem pop (h : b.LiesBefore p) (harena : b.Arena) (hstack : b.stack = id :: rest)
    (hrest : rest ≠ []) : (b.pop p).LiesBefore p := by
  have hends := h.ends?_pop harena hstack hrest
  constructor
  · intro i x hx hi
    rw [hends] at hx
    split at hx
    · obtain ⟨y, hy, rfl⟩ := Option.map_eq_some_iff.mp hx
      exact h.begun i y hy hi
    · exact h.begun i x hx hi
  · intro i x hx hi
    rw [hends] at hx
    rw [stack_pop hstack hrest] at hi
    split at hx
    · obtain ⟨y, _, rfl⟩ := Option.map_eq_some_iff.mp hx
      exact .refl p
    · next hne =>
      refine h.ended i x hx fun hopen => ?_
      rw [hstack] at hopen
      exact hi ((List.mem_cons.mp hopen).resolve_left hne)

end LiesBefore

/-! ### Ranges before a place -/

/-- The entries of a builder lie before a place, and beside or inside of each
    other. -/
structure Spans (source : String) (b : Builder) (p : Location) : Prop where
  /-- The links fit together. -/
  arena : b.Arena
  /-- The place is one of the text. -/
  after_start : Location.start.Precedes p
  /-- Entries begin in the text before the place. -/
  begun : ∀ i x, b.ends? i = some x → i ≠ 0 →
    Location.start.Precedes x.1 ∧ x.1.Precedes p ∧ x.1.offset < p.offset ∧
      IsBoundary source x.1.offset
  /-- Entries begin in the order in which they were made. -/
  rising : ∀ i j x y, b.ends? i = some x → b.ends? j = some y → i ≠ 0 → i < j →
    x.1.Precedes y.1 ∧ x.1.offset < y.1.offset
  /-- A closed entry ends between its start and the place. -/
  ended : ∀ i x, b.ends? i = some x → i ∉ b.stack →
    x.1.Precedes x.2 ∧ x.2.Precedes p ∧ IsBoundary source x.2.offset
  /-- A closed entry ends after those that it holds. -/
  inside : ∀ i l k x y, b.links? i = some l → k ∈ l.children → b.ends? i = some x →
    b.ends? k = some y → i ∉ b.stack → y.2.Precedes x.2
  /-- An entry ends before its younger siblings begin. -/
  apart : ∀ i l j k x y, b.links? i = some l → j ∈ l.children → k ∈ l.children →
    b.ends? j = some x → b.ends? k = some y → j < k → x.2.Precedes y.1

namespace Spans

variable {source : String} {b b' : Builder} {p q : Location}

theorem liesBefore (h : b.Spans source p) : b.LiesBefore p := by
  constructor
  · intro i x hx hi
    obtain ⟨_, hp, hlt, _⟩ := h.begun i x hx hi
    exact ⟨hp, hlt⟩
  · intro i x hx hi
    exact (h.ended i x hx hi).2.1

theorem mono (h : b.Spans source p) (hpq : p.Precedes q) : b.Spans source q := by
  -- Entries are compared with each other as before; only `begun` and `ended`
  -- compare them with the place.
  constructor
  case arena => exact h.arena
  case after_start => exact h.after_start.trans hpq
  case begun =>
    intro i x hx hi
    obtain ⟨hstart, hp, hlt, hboundary⟩ := h.begun i x hx hi
    exact ⟨hstart, hp.trans hpq, Nat.lt_of_lt_of_le hlt hpq.offset, hboundary⟩
  case rising => exact h.rising
  case ended =>
    intro i x hx hi
    obtain ⟨hx12, hp, hboundary⟩ := h.ended i x hx hi
    exact ⟨hx12, hp.trans hpq, hboundary⟩
  case inside => exact h.inside
  case apart => exact h.apart

theorem of_sameFrame (h : b.Spans source p) (hframe : b.SameFrame b') : b'.Spans source p := by
  have hends := hframe.ends
  have hlinks := hframe.links
  have hstack := hframe.stack
  constructor
  case arena => exact h.arena.of_sameFrame hframe
  case after_start => exact h.after_start
  case begun => simpa only [hends] using h.begun
  case rising => simpa only [hends] using h.rising
  case ended => simpa only [hends, hstack] using h.ended
  case inside => simpa only [hends, hlinks, hstack] using h.inside
  case apart => simpa only [hends, hlinks] using h.apart

/-! ### A new entry -/

/-- A new entry that begins at or after the place, and before the next place.
    If it is not left open, it also ends between the two. -/
theorem of_insert (h : b.Spans source p) {e : Entry} {start stop : Location}
    (harena : b'.Arena) (hlinks : ∀ i, b'.links? i = (b.insert e).links? i)
    (hends : ∀ i, b'.ends? i = if i = b.nextId then some (start, stop) else b.ends? i)
    (hkeep : ∀ i ∈ b.stack, i ∈ b'.stack)
    (hstart : p.Precedes start) (hboundary : IsBoundary source start.offset)
    (hq : start.Precedes q) (hlt : start.offset < q.offset)
    (hstop : b.nextId ∉ b'.stack →
      start.Precedes stop ∧ stop.Precedes q ∧ IsBoundary source stop.offset) :
    b'.Spans source q := by
  have hpq := hstart.trans hq
  -- An entry is the new one, or it was there before.
  have hcases : ∀ i x, b'.ends? i = some x →
      (i = b.nextId ∧ x = (start, stop)) ∨ (i < b.nextId ∧ b.ends? i = some x) := by
    intro i x hx
    rw [hends] at hx
    by_cases hi : i = b.nextId
    · rw [if_pos hi] at hx
      exact Or.inl ⟨hi, (Option.some.inj hx).symm⟩
    · rw [if_neg hi] at hx
      exact Or.inr ⟨lt_of_ends? hx, hx⟩
  have hold : ∀ i, i < b.nextId → b'.ends? i = b.ends? i := by
    intro i hi
    rw [hends, if_neg (Nat.ne_of_lt hi)]
  constructor
  case arena => exact harena
  case after_start => exact h.after_start.trans hpq
  case begun =>
    intro i x hx hi
    rcases hcases i x hx with ⟨_, rfl⟩ | ⟨_, hx⟩
    · exact ⟨h.after_start.trans hstart, hq, hlt, hboundary⟩
    · exact (h.mono hpq).begun i x hx hi
  case rising =>
    intro i j x y hx hy hi hij
    rcases hcases j y hy with ⟨rfl, rfl⟩ | ⟨hj, hy⟩
    · -- The new entry begins at the place or after it, all others before it.
      rw [hold i hij] at hx
      obtain ⟨_, hp, hlt, _⟩ := h.begun i x hx hi
      exact ⟨hp.trans hstart, Nat.lt_of_lt_of_le hlt hstart.offset⟩
    · rw [hold i (Nat.lt_trans hij hj)] at hx
      exact h.rising i j x y hx hy hi hij
  case ended =>
    intro i x hx hi
    rcases hcases i x hx with ⟨rfl, rfl⟩ | ⟨_, hx⟩
    · exact hstop hi
    · exact (h.mono hpq).ended i x hx fun hopen => hi (hkeep i hopen)
  case inside =>
    intro i l k x y hl hk hx hy hi
    rw [hlinks] at hl
    rcases links?_insert_cases hl with ⟨_, rfl⟩ | ⟨_, htop, _⟩ | ⟨_, hm⟩
    · exact absurd hk (Array.not_mem_empty k)
    · -- The new entry went into an open one.
      exact absurd (hkeep i (List.mem_of_mem_head? htop)) hi
    · rw [hold i (lt_of_links? hm)] at hx
      rw [hold k (h.arena.child_lt hm hk)] at hy
      exact h.inside i l k x y hm hk hx hy fun hopen => hi (hkeep i hopen)
  case apart =>
    intro i l j k x y hl hj hk hx hy hjk
    rw [hlinks] at hl
    have hbefore : ∀ m, b.links? i = some m → j ∈ m.children → k ∈ m.children →
        x.2.Precedes y.1 := by
      intro m hm hj hk
      rw [hold j (h.arena.child_lt hm hj)] at hx
      rw [hold k (h.arena.child_lt hm hk)] at hy
      exact h.apart i m j k x y hm hj hk hx hy hjk
    rcases links?_insert_cases hl with ⟨_, rfl⟩ | ⟨_, _, m, hm, rfl⟩ | ⟨_, hm⟩
    · exact absurd hk (Array.not_mem_empty k)
    · rcases Array.mem_push.mp hk with hk' | rfl
      · have hjlt := Nat.lt_trans hjk (h.arena.child_lt hm hk')
        have hj := (Array.mem_push.mp hj).resolve_right (Nat.ne_of_lt hjlt)
        exact hbefore m hm hj hk'
      · -- The elder siblings of the new entry are closed, so they end before the place.
        have hclosed : j ∉ b.stack := fun hopen =>
          harena.settled i _ j b.nextId ((hlinks i).trans hl) hj hk hjk (hkeep j hopen)
        have hx := (hold j hjk) ▸ hx
        have hy : y = (start, stop) := by
          rcases hcases _ y hy with ⟨_, hy⟩ | ⟨hirrefl, _⟩
          · exact hy
          · exact absurd hirrefl (Nat.lt_irrefl _)
        rw [hy]
        exact (h.ended j x hx hclosed).2.1.trans hstart
    · exact hbefore l hm hj hk

theorem push (h : b.Spans source p) {e : Entry} (hstart : p.Precedes e.start)
    (hboundary : IsBoundary source e.start.offset) (hq : e.start.Precedes q)
    (hlt : e.start.offset < q.offset) : (b.push e).Spans source q := by
  refine h.of_insert (h.arena.push e) (fun _ => rfl) (b.ends?_insert e) ?_ hstart hboundary
    hq hlt ?_
  · intro i hi
    exact List.mem_cons_of_mem _ hi
  · intro hclosed
    exact absurd List.mem_cons_self hclosed

theorem addLeaf (h : b.Spans source p) {e : Entry} (hstart : p.Precedes e.start)
    (hboundary : IsBoundary source e.start.offset) (hspan : e.start.Precedes e.stop)
    (hlt : e.start.offset < e.stop.offset) (hstop : IsBoundary source e.stop.offset) :
    (b.addLeaf e).Spans source e.stop := by
  have hends := h.arena.ends?_addLeaf hspan
  have hstack := h.arena.stack_addLeaf e
  refine h.of_insert (e := e) (h.arena.addLeaf e) ?_ hends ?_ hstart hboundary hspan hlt ?_
  · intro i
    rw [h.arena.addLeaf_eq]
    exact links?_close ..
  · intro i hi
    rwa [hstack]
  · intro _
    exact ⟨hspan, .refl _, hstop⟩

/-! ### Closing entries -/

theorem pop (h : b.Spans source p) (hboundary : IsBoundary source p.offset) :
    (b.pop p).Spans source p := by
  rcases h.arena.pop_cases p with ⟨_, hpop⟩ | ⟨id, rest, hstack, hid, hroot, hrest, hpop⟩
  · rw [hpop]
    exact h
  have hopen : id ∈ b.stack := by
    rw [hstack]
    exact List.mem_cons_self
  have hclosed : ∀ i, i ∉ (b.pop p).stack → i ≠ id → i ∉ b.stack := by
    intro i hi hne hmem
    rw [hstack] at hmem
    rw [hpop] at hi
    exact hi ((List.mem_cons.mp hmem).resolve_left hne)
  have hends := h.liesBefore.ends?_pop h.arena hstack (List.ne_nil_of_mem hroot)
  have hlinks : ∀ i, (b.pop p).links? i = b.links? i := by
    intro i
    rw [hpop]
    exact links?_close ..
  -- The entry that closes keeps its start, and every other one keeps both ends.
  have hcases : ∀ i x, (b.pop p).ends? i = some x →
      ∃ y, b.ends? i = some y ∧ x.1 = y.1 ∧ (i = id ∧ x.2 = p ∨ i ≠ id ∧ x.2 = y.2) := by
    intro i x hx
    rw [hends] at hx
    by_cases hi : i = id
    · rw [if_pos hi] at hx
      obtain ⟨y, hy, rfl⟩ := Option.map_eq_some_iff.mp hx
      exact ⟨y, hy, rfl, Or.inl ⟨hi, rfl⟩⟩
    · rw [if_neg hi] at hx
      exact ⟨x, hx, rfl, Or.inr ⟨hi, rfl⟩⟩
  constructor
  case arena => exact h.arena.pop p
  case after_start => exact h.after_start
  case begun =>
    intro i x hx hi
    obtain ⟨y, hy, hxy, _⟩ := hcases i x hx
    rw [hxy]
    exact h.begun i y hy hi
  case rising =>
    intro i j x y hx hy hi hij
    obtain ⟨x', hx', hxx, _⟩ := hcases i x hx
    obtain ⟨y', hy', hyy, _⟩ := hcases j y hy
    rw [hxx, hyy]
    exact h.rising i j x' y' hx' hy' hi hij
  case ended =>
    intro i x hx hi
    obtain ⟨y, hy, hxy, ⟨rfl, hstop⟩ | ⟨hne, hstop⟩⟩ := hcases i x hx
    · rw [hxy, hstop]
      exact ⟨(h.begun i y hy hid).2.1, .refl p, hboundary⟩
    · rw [hxy, hstop]
      exact h.ended i y hy (hclosed i hi hne)
  case inside =>
    intro i l k x y hl hk hx hy hi
    rw [hlinks] at hl
    obtain ⟨y', hy', _, ⟨rfl, _⟩ | ⟨_, hstopk⟩⟩ := hcases k y hy
    · -- What holds the closing entry is open.
      have hup := h.arena.stack_up i l k hl hk hopen
      have hne : i ≠ k := Nat.ne_of_lt (h.arena.child i l k hl hk).1
      exact absurd hup (hclosed i hi hne)
    · obtain ⟨x', hx', _, ⟨rfl, hstop⟩ | ⟨hne, hstop⟩⟩ := hcases i x hx
      · -- The entry that closes ends at the place, after all that it holds.
        rw [hstopk, hstop]
        exact h.liesBefore.child_precedes h.arena hstack hl hk hy'
      · rw [hstopk, hstop]
        exact h.inside i l k x' y' hl hk hx' hy' (hclosed i hi hne)
  case apart =>
    intro i l j k x y hl hj hk hx hy hjk
    rw [hlinks] at hl
    obtain ⟨y', hy', hyy, _⟩ := hcases k y hy
    obtain ⟨x', hx', _, ⟨rfl, _⟩ | ⟨_, hstop⟩⟩ := hcases j x hx
    · -- An entry with a younger sibling is closed already.
      exact absurd hopen (h.arena.settled i l j k hl hj hk hjk)
    · rw [hstop, hyy]
      exact h.apart i l j k x' y' hl hj hk hx' hy' hjk

theorem popTimes (h : b.Spans source p) (hboundary : IsBoundary source p.offset) (n : Nat) :
    (b.popTimes p n).Spans source p := by
  induction n generalizing b with
  | zero => exact h
  | succ n ih => exact ih (h.pop hboundary)

end Spans

/-- An open root holds nothing yet. -/
theorem spans_push_of_empty {b : Builder} {source : String} {p : Location}
    (hsize : b.entries.size = 0) (hstack : b.stack = []) (e : Entry)
    (hp : Location.start.Precedes p) : (b.push e).Spans source p := by
  have harena := arena_push_of_empty hsize hstack e
  -- The root is the only entry and open, and nothing is said of such a root.
  have hroot : ∀ i x, (b.push e).ends? i = some x → i = 0 := by
    intro i x hx
    have hlt := lt_of_ends? hx
    have hone : (b.push e).entries.size = 1 := by
      show (b.insert e).entries.size = 1
      rw [size_insert, hsize]
    rw [hone] at hlt
    exact Nat.lt_one_iff.mp hlt
  constructor
  case arena => exact harena
  case after_start => exact hp
  case begun =>
    intro i x hx hi
    exact absurd (hroot i x hx) hi
  case rising =>
    intro i j x y hx _ hi
    exact absurd (hroot i x hx) hi
  case ended =>
    intro i x hx hi
    rw [hroot i x hx] at hi
    exact absurd harena.root_open hi
  case inside =>
    intro i l k x y _ _ hx _ hi
    rw [hroot i x hx] at hi
    exact absurd harena.root_open hi
  case apart =>
    intro i l j k x y _ _ _ hx hy hjk
    rw [hroot j x hx, hroot k y hy] at hjk
    exact absurd hjk (Nat.lt_irrefl 0)

end Builder

/-! ### How an outline is built -/

/-- One way in which a cursor and a builder change together. -/
inductive Build : Cursor × Builder → Cursor × Builder → Prop where
  /-- The cursor moves on. -/
  | move {c d : Cursor} {b : Builder} (hcd : c.Reaches d) : Build (c, b) (d, b)
  /-- Texts of entries change. -/
  | edit {c : Cursor} {b b' : Builder} (hframe : b.SameFrame b') : Build (c, b) (c, b')
  /-- The tokens that the cursor passes become an entry. -/
  | leaf {c d : Cursor} {b : Builder} {e : Entry} (hcd : c.Passes d)
      (hstart : e.start = c.location) (hstop : e.stop = d.prevStop) :
      Build (c, b) (d, b.addLeaf e)
  /-- The tokens that the cursor passes begin an entry. -/
  | push {c d : Cursor} {b : Builder} {e : Entry} (hcd : c.Passes d)
      (hstart : e.start = c.location) : Build (c, b) (d, b.push e)
  /-- The innermost open entry ends with the last token that was passed. -/
  | pop {c : Cursor} {b : Builder} : Build (c, b) (c, b.pop c.prevStop)

/-- Any number of such changes. -/
abbrev Builds : Cursor × Builder → Cursor × Builder → Prop :=
  Relation.ReflTransGen Build

theorem Build.reaches {x y : Cursor × Builder} (h : Build x y) : x.1.Reaches y.1 := by
  cases h with
  | move hcd => exact hcd
  | edit _ => exact .refl _
  | leaf hcd _ _ => exact hcd.reaches
  | push hcd _ => exact hcd.reaches
  | pop => exact .refl _

theorem Builds.reaches {x y : Cursor × Builder} (h : Builds x y) : x.1.Reaches y.1 := by
  induction h with
  | refl => exact .refl _
  | tail _ hstep ih => exact ih.trans hstep.reaches

theorem Builder.Arena.of_build {x y : Cursor × Builder} (h : x.2.Arena) (hstep : Build x y) :
    y.2.Arena := by
  cases hstep with
  | move _ => exact h
  | edit hframe => exact h.of_sameFrame hframe
  | leaf _ _ _ => exact h.addLeaf _
  | push _ _ => exact h.push _
  | pop => exact h.pop _

theorem Builder.Arena.of_builds {x y : Cursor × Builder} (h : x.2.Arena) (hbuilds : Builds x y) :
    y.2.Arena := by
  induction hbuilds with
  | refl => exact h
  | tail _ hstep ih => exact ih.of_build hstep

namespace Builder.Spans

theorem of_build {source : String} {x y : Cursor × Builder} (hstep : Build x y)
    (hx : x.1.Ordered source) (h : x.2.Spans source x.1.prevStop) :
    y.2.Spans source y.1.prevStop := by
  cases hstep with
  | move hcd => exact h.mono (hx.prevStop_precedes hcd)
  | edit hframe => exact h.of_sameFrame hframe
  | @leaf c d b e hcd hstart hstop =>
    -- The entry begins with the next token, which is not before the last one,
    -- and the place moves to its end.
    obtain ⟨hspan, hlt⟩ := hx.location_precedes_prevStop hcd
    have hd : d.Ordered source := hx.of_reaches hcd.reaches
    show (b.addLeaf e).Spans source d.prevStop
    rw [← hstop] at hspan hlt ⊢
    rw [← hstart] at hspan hlt
    refine h.addLeaf ?_ ?_ hspan hlt ?_
    · rw [hstart]
      exact hx.prevStop_precedes_location
    · rw [hstart]
      exact hx.isBoundary_location
    · rw [hstop]
      exact hd.isBoundary_prevStop
  | @push c d b e hcd hstart =>
    -- Tokens of the entry were passed, so the place lies behind its start.
    obtain ⟨hspan, hlt⟩ := hx.location_precedes_prevStop hcd
    show (b.push e).Spans source d.prevStop
    rw [← hstart] at hspan hlt
    refine h.push ?_ ?_ hspan hlt
    · rw [hstart]
      exact hx.prevStop_precedes_location
    · rw [hstart]
      exact hx.isBoundary_location
  | pop => exact h.pop hx.isBoundary_prevStop

/-- Whatever is built from a builder whose entries lie before the cursor, its
    entries lie before the cursor. -/
theorem of_builds {source : String} {x y : Cursor × Builder} (hbuilds : Builds x y)
    (hx : x.1.Ordered source) (h : x.2.Spans source x.1.prevStop) :
    y.2.Spans source y.1.prevStop := by
  induction hbuilds with
  | refl => exact h
  | tail hbefore hstep ih => exact ih.of_build hstep (hx.of_reaches (Builds.reaches hbefore))

end Builder.Spans

end PascalOutline
