import PascalOutline.Proofs.Outline.Preorder

/-! # Operations on a builder

  Whatever is done to a builder, in whatever order and with whatever
  locations, the finished outline is a tree in preorder.

  The reason is the path of open entries. It always leads from the root to the
  innermost open entry, and the newest entry lies below all of them. So the
  entry that is made next is held by the newest one or by an entry above it.
  Every operation keeps this (`Builder.InPreorder`); a complete entry is one
  that is opened and closed at once.
-/

namespace PascalOutline

namespace Builder

/-! ### What every operation keeps -/

/-- An entry is not shorter than it has to be: it does not end before it
    begins, nor before its last child ends. -/
def Covers (b : Builder) (e : Entry) : Prop :=
  e.start ≤ e.stop ∧
    ∀ k last, e.children.back? = some k → b.entry? k = some last → last.stop ≤ e.stop

/-- A builder with a root lays its entries out in preorder. -/
structure InPreorder (b : Builder) : Prop where
  /-- The links fit together. -/
  arena : b.Arena
  /-- An entry knows its place and its file. -/
  own : ∀ i e, b.entry? i = some e → e.id = i ∧ e.file = b.file
  /-- The open entries are the innermost one and those above it. -/
  path : ∃ top above, b.stack = top :: above ∧ Above b.entries top above
  /-- The newest entry is not outside of any open one. -/
  newest : ∀ i ∈ b.stack, Within b.entries i (b.entries.size - 1)
  /-- Each entry follows one that it is below of, or a sibling's subtree. -/
  next : Consecutive b.entries
  /-- Closed entries are long enough. -/
  closed : ∀ i e, b.entry? i = some e → i ∉ b.stack → b.Covers e

theorem keepsParents_of_links? {b b' : Builder}
    (hlinks : ∀ i, b'.links? i = b.links? i) : KeepsParents b.entries b'.entries := by
  intro i e he
  have hl : b'.links? i = some e.links := (hlinks i).trans (links?_of_entry he)
  obtain ⟨e', he', hsame⟩ := entry?_of_links? hl
  exact ⟨e', he', congrArg Links.parent hsame⟩

theorem keepsParents_insert (b : Builder) (e : Entry) :
    KeepsParents b.entries (b.insert e).entries := by
  intro i old hold
  obtain ⟨l, hl, hparent, _⟩ := exists_links?_insert e (links?_of_entry hold)
  obtain ⟨e', he', rfl⟩ := entry?_of_links? hl
  exact ⟨e', he', hparent⟩

theorem consecutive_of_links? {b b' : Builder} (hlinks : ∀ i, b'.links? i = b.links? i)
    (h : Consecutive b.entries) : Consecutive b'.entries := by
  intro i p e he hparent
  have hl : b.links? (i + 1) = some e.links := (hlinks _).symm.trans (links?_of_entry he)
  obtain ⟨old, hold, hsame⟩ := entry?_of_links? hl
  have hparent' : old.parent = some p := (congrArg Links.parent hsame).trans hparent
  exact (h i p old hold hparent').of_keepsParents (keepsParents_of_links? hlinks)

/-- A complete entry is opened and closed again. -/
theorem Arena.addLeaf_eq_pop_push {b : Builder} (h : b.Arena) (e : Entry) :
    b.addLeaf e = (b.push e).pop e.stop := by
  obtain ⟨top, rest, hstack⟩ := List.exists_cons_of_ne_nil h.stack_ne_nil
  have hclosable : (b.push e).closable? = some b.nextId := by
    rw [closable?, Builder.push, hstack]
  rw [h.addLeaf_eq, Builder.pop, hclosable]
  rfl

namespace InPreorder

variable {b : Builder}

/-- A change of an entry's texts changes nothing here. -/
theorem modify (h : b.InPreorder) (id : EntryId) {f : Entry → Entry}
    (hown : ∀ e, (f e).id = e.id ∧ (f e).file = e.file)
    (hlinks : ∀ e, (f e).links = e.links) (hends : ∀ e, (f e).ends = e.ends) :
    (b.modify id f).InPreorder := by
  have hframe : b.SameFrame (b.modify id f) := b.sameFrame_modify id hlinks hends
  have hkeeps : KeepsParents b.entries (b.modify id f).entries :=
    keepsParents_of_links? hframe.links
  -- An entry of the new builder is one of the old, up to its texts.
  have hold : ∀ i e', entry? (b.modify id f) i = some e' → ∃ e, b.entry? i = some e ∧
      e'.id = e.id ∧ e'.file = e.file ∧ e'.links = e.links ∧ e'.ends = e.ends := by
    intro i e' he'
    rw [entry?_modify] at he'
    by_cases hi : i = id
    · rw [if_pos hi] at he'
      obtain ⟨e, he, rfl⟩ := Option.map_eq_some_iff.mp he'
      exact ⟨e, he, (hown e).1, (hown e).2, hlinks e, hends e⟩
    · rw [if_neg hi] at he'
      exact ⟨e', he', rfl, rfl, rfl, rfl⟩
  constructor
  case arena => exact h.arena.of_sameFrame hframe
  case own =>
    intro i e' he'
    obtain ⟨e, he, hid, hfile, _⟩ := hold i e' he'
    rw [hid, hfile]
    exact h.own i e he
  case path =>
    obtain ⟨top, above, hstack, habove⟩ := h.path
    exact ⟨top, above, hstack, habove.of_keepsParents hkeeps⟩
  case newest =>
    intro i hi
    rw [hframe.size]
    exact (h.newest i hi).of_keepsParents hkeeps
  case next => exact consecutive_of_links? hframe.links h.next
  case closed =>
    intro i e' he' hi
    obtain ⟨e, he, _, _, hl, hx⟩ := hold i e' he'
    obtain ⟨hspan, hlast⟩ := h.closed i e he hi
    have hstart : e'.start = e.start := congrArg Prod.fst hx
    have hstop : e'.stop = e.stop := congrArg Prod.snd hx
    have hchildren : e'.children = e.children := congrArg Links.children hl
    refine ⟨by rwa [hstart, hstop], ?_⟩
    intro k last' hk hlast'
    obtain ⟨last, hentry, _, _, _, hy⟩ := hold k last' hlast'
    have hend : last'.stop = last.stop := congrArg Prod.snd hy
    rw [hstop, hend]
    rw [hchildren] at hk
    exact hlast k last hk hentry

/-- An entry that was closed before a new one was made is as long as it has to
    be. -/
theorem covers_insert (h : b.InPreorder) {e x : Entry} {i : EntryId}
    (hx : entry? (b.insert e) i = some x) (hnew : i ≠ b.nextId) (hclosed : i ∉ b.stack) :
    (b.insert e).Covers x := by
  -- Only the top has changed, and it is open.
  have hold : b.entry? i = some x := by
    rcases entry?_insert_cases hx with ⟨hi, _⟩ | ⟨_, old, hold, rfl | ⟨htop, _⟩⟩
    · exact absurd hi hnew
    · exact hold
    · exact absurd (List.mem_of_mem_head? htop) hclosed
  obtain ⟨hspan, hlast⟩ := h.closed i x hold hclosed
  refine ⟨hspan, ?_⟩
  intro k last hk hentry
  rcases entry?_insert_cases hentry with ⟨hi, _⟩ | ⟨_, old, hold', rfl | ⟨_, rfl⟩⟩
  · have hlt := h.arena.child_lt (links?_of_entry hold) (Array.mem_of_back? hk)
    exact absurd hi (Nat.ne_of_lt hlt)
  · exact hlast k last hk hold'
  · exact hlast k old hk hold'

theorem push (h : b.InPreorder) (e : Entry) : (b.push e).InPreorder := by
  obtain ⟨top, above, hstack, habove⟩ := h.path
  have htop : b.top? = some top := by
    rw [top?, hstack]
    rfl
  have hkeeps : KeepsParents b.entries (b.push e).entries := b.keepsParents_insert e
  have hsize : (b.push e).entries.size = b.entries.size + 1 := b.size_insert e
  have hnew : entry? (b.push e) b.nextId
      = some { e with id := b.nextId, file := b.file, parent := some top, children := #[] } := by
    show entry? (b.insert e) b.nextId = _
    rw [entry?_insert, if_pos rfl, htop]
  constructor
  case arena => exact h.arena.push e
  case own =>
    intro i x hx
    rcases entry?_insert_cases hx with ⟨rfl, rfl⟩ | ⟨_, old, hold, rfl | ⟨_, rfl⟩⟩
    · exact ⟨rfl, rfl⟩
    · exact h.own i x hold
    · exact h.own i old hold
  case path =>
    refine ⟨b.nextId, b.stack, rfl, ?_⟩
    rw [hstack]
    exact .held hnew rfl (habove.of_keepsParents hkeeps)
  case newest =>
    intro i hi
    rw [hsize, Nat.add_sub_cancel]
    rcases List.mem_cons.mp hi with rfl | hi
    · exact .self
    · rw [hstack] at hi
      exact .held hnew rfl ((habove.within i hi).of_keepsParents hkeeps)
  case next =>
    intro i p x hx hparent
    rcases entry?_insert_cases hx with ⟨hi, rfl⟩ | ⟨_, old, hold, rfl | ⟨_, rfl⟩⟩
    · -- The new entry is held by the top, and the newest one was within it.
      have hp : p = top := Option.some.inj (hparent.symm.trans htop)
      have htopOpen : top ∈ b.stack := by
        rw [hstack]
        exact List.mem_cons_self
      rw [hp, show i = b.entries.size - 1 from Nat.eq_sub_of_add_eq hi]
      exact (h.newest top htopOpen).of_keepsParents hkeeps
    · exact (h.next i p x hold hparent).of_keepsParents hkeeps
    · exact (h.next i p old hold hparent).of_keepsParents hkeeps
  case closed =>
    intro i x hx hclosed
    exact h.covers_insert hx (List.ne_of_not_mem_cons hclosed)
      (List.not_mem_of_not_mem_cons hclosed)

end InPreorder

/-- A closed entry is long enough. -/
theorem covers_close {b : Builder} (h : b.Arena) {id : EntryId} {e : Entry} {stop : Location}
    (he : entry? (b.close id stop) id = some e) : (b.close id stop).Covers e := by
  rw [close, entry?_modify, if_pos rfl] at he
  obtain ⟨old, hold, hnew⟩ := Option.map_eq_some_iff.mp he
  have hchild : ∀ k, old.children.back? = some k → k ≠ id ∧ b.lastChild? id = some k := by
    intro k hk
    refine ⟨?_, by rw [lastChild?, hold]; exact hk⟩
    exact Nat.ne_of_gt (h.child id _ k (links?_of_entry hold) (Array.mem_of_back? hk)).1
  have hstart : e.start = old.start := by rw [← hnew]
  have hchildren : e.children = old.children := by rw [← hnew]
  have hstop : e.stop = ((b.lastChild? id).bind fun child => (b.entry? child).map Entry.stop).elim
      (max stop old.start) (max (max stop old.start)) := by rw [← hnew]
  refine ⟨?_, ?_⟩
  · rw [hstart, hstop]
    cases (b.lastChild? id).bind fun child => (b.entry? child).map Entry.stop with
    | none => exact Location.le_max_right _ _
    | some place =>
      exact Location.le_trans (Location.le_max_right _ _) (Location.le_max_left _ _)
  · intro k last hk hlast
    rw [hchildren] at hk
    obtain ⟨hne, hlastChild⟩ := hchild k hk
    rw [close, entry?_modify, if_neg hne] at hlast
    rw [hstop, hlastChild, Option.bind_some, hlast]
    exact Location.le_max_right _ _

namespace InPreorder

variable {b : Builder}

theorem pop (h : b.InPreorder) (stop : Location) : (b.pop stop).InPreorder := by
  rcases h.arena.pop_cases stop with ⟨_, hpop⟩ | ⟨id, rest, hstack, _, hroot, hnot, hpop⟩
  · rw [hpop]
    exact h
  · have harena : (b.pop stop).Arena := h.arena.pop stop
    rw [hpop] at harena ⊢
    have hlinks : ∀ i, (b.close id stop).links? i = b.links? i :=
      fun i => b.links?_close id i stop
    have hkeeps : KeepsParents b.entries (b.close id stop).entries :=
      keepsParents_of_links? hlinks
    -- Nothing but the end of the closed entry has changed.
    have hother : ∀ i, i ≠ id → entry? (b.close id stop) i = b.entry? i := by
      intro i hi
      rw [close, entry?_modify, if_neg hi]
    constructor
    case arena => exact harena
    case own =>
      intro i e he
      change entry? (b.close id stop) i = some e at he
      rw [close, entry?_modify] at he
      by_cases hi : i = id
      · rw [if_pos hi] at he
        obtain ⟨old, hold, rfl⟩ := Option.map_eq_some_iff.mp he
        exact h.own i old hold
      · rw [if_neg hi] at he
        exact h.own i e he
    case path =>
      obtain ⟨top, above, hpath, habove⟩ := h.path
      obtain ⟨rfl, rfl⟩ := List.cons.inj (hstack.symm.trans hpath)
      cases habove with
      | root => cases hroot
      | held _ _ hup => exact ⟨_, _, rfl, hup.of_keepsParents hkeeps⟩
    case newest =>
      intro i hi
      have hmem : i ∈ b.stack := by
        rw [hstack]
        exact List.mem_cons_of_mem _ hi
      show Within (b.close id stop).entries i ((b.close id stop).entries.size - 1)
      rw [size_entries_close]
      exact (h.newest i hmem).of_keepsParents hkeeps
    case next => exact consecutive_of_links? hlinks h.next
    case closed =>
      intro i e he hopen
      change entry? (b.close id stop) i = some e at he
      show (b.close id stop).Covers e
      by_cases hi : i = id
      · rw [hi] at he
        exact covers_close h.arena he
      · rw [hother i hi] at he
        have hclosed : i ∉ b.stack := by
          rw [hstack]
          intro hmem
          exact hopen ((List.mem_cons.mp hmem).resolve_left hi)
        obtain ⟨hspan, hlast⟩ := h.closed i e he hclosed
        refine ⟨hspan, ?_⟩
        intro k last hk hentry
        -- The entry that is closed now is held by an open one.
        have hne : k ≠ id := by
          intro hkid
          have hmem : k ∈ b.stack := by
            rw [hstack, hkid]
            exact List.mem_cons_self
          exact hclosed (h.arena.stack_up i _ k (links?_of_entry he) (Array.mem_of_back? hk) hmem)
        rw [hother k hne] at hentry
        exact hlast k last hk hentry

theorem addLeaf (h : b.InPreorder) (e : Entry) : (b.addLeaf e).InPreorder := by
  rw [h.arena.addLeaf_eq_pop_push]
  exact (h.push e).pop e.stop

theorem popTimes (h : b.InPreorder) (stop : Location) (n : Nat) :
    (b.popTimes stop n).InPreorder := by
  induction n generalizing b with
  | zero => exact h
  | succ n ih => exact ih (h.pop stop)

end InPreorder

/-- The first entry is a tree of its own. -/
theorem inPreorder_push_of_empty {b : Builder} (hsize : b.entries.size = 0) (hstack : b.stack = [])
    (e : Entry) : (b.push e).InPreorder := by
  have harena : (b.push e).Arena := arena_push_of_empty hsize hstack e
  have htop : b.top? = none := by
    rw [top?, hstack]
    rfl
  have hopen : (b.push e).stack = [0] := by
    show b.nextId :: b.stack = [0]
    rw [hstack, nextId, hsize]
  have hone : (b.push e).entries.size = 1 := by
    show (b.insert e).entries.size = 1
    rw [size_insert, hsize]
  have hzero : ∀ (i : Nat) x, entry? (b.push e) i = some x → i = 0 := by
    intro i x hx
    have hlt := (entry?_isSome_iff _ i).mp (Option.isSome_iff_exists.mpr ⟨x, hx⟩)
    rw [hone] at hlt
    exact Nat.lt_one_iff.mp hlt
  have hnew : entry? (b.push e) 0
      = some { e with id := b.nextId, file := b.file, parent := none, children := #[] } := by
    show entry? (b.insert e) 0 = _
    rw [entry?_insert, if_pos (show 0 = b.nextId from hsize.symm), htop]
  constructor
  case arena => exact harena
  case own =>
    intro i x hx
    obtain rfl := hzero i x hx
    rw [hnew] at hx
    rw [← Option.some.inj hx]
    exact ⟨hsize, rfl⟩
  case path =>
    rw [hopen]
    exact ⟨0, [], rfl, .root hnew rfl⟩
  case newest =>
    intro i hi
    rw [hopen] at hi
    rw [List.mem_singleton.mp hi, hone]
    exact .self
  case next =>
    intro i p x hx
    exact absurd (hzero (i + 1) x hx) (Nat.succ_ne_zero i)
  case closed =>
    intro i x hx hclosed
    rw [hopen, hzero i x hx] at hclosed
    exact absurd (List.mem_singleton.mpr rfl) hclosed

/-! ### Sequences of operations -/

/-- What can be done to a builder. -/
inductive Operation where
  /-- An entry is made and left open. -/
  | push (e : Entry)
  /-- A complete entry is made. -/
  | addLeaf (e : Entry)
  /-- The innermost open entry is closed. -/
  | pop (stop : Location)
  /-- An entry gets one more paragraph. -/
  | addDoc (id : EntryId) (text : String)
  /-- An entry gets another name. -/
  | rename (id : EntryId) (name : String)

/-- A builder after an operation. -/
def apply (b : Builder) : Operation → Builder
  | .push e => b.push e
  | .addLeaf e => b.addLeaf e
  | .pop stop => b.pop stop
  | .addDoc id text => b.addDoc id text
  | .rename id name => b.modify id fun e => { e with name }

/-- The builder of a file after some operations. -/
def ofOperations (file : String) (ops : List Operation) : Builder :=
  ops.foldl apply { file }

/-- The open entries are the path from the root to the innermost one; there is
    none only as long as there are no entries. -/
def OpenPath (b : Builder) : Prop :=
  (b.entries = #[] ∧ b.stack = []) ∨
    ∃ top above, b.top? = some top ∧ b.stack = top :: above ∧ Above b.entries top above ∧
      b.stack.getLast? = some 0

/-- Nothing was made yet, or what was made is in preorder. -/
def Sound (b : Builder) : Prop :=
  (b.entries = #[] ∧ b.stack = []) ∨ b.InPreorder

theorem InPreorder.openPath {b : Builder} (h : b.InPreorder) : b.OpenPath := by
  obtain ⟨top, above, hstack, habove⟩ := h.path
  refine Or.inr ⟨top, above, by rw [top?, hstack]; rfl, hstack, habove, ?_⟩
  -- The path goes down from entry to entry, so that the root is its last one.
  obtain ⟨before, after, hsplit⟩ := List.append_of_mem h.arena.root_open
  have hsorted := h.arena.stack_sorted
  rw [hsplit] at hsorted ⊢
  have hafter : after = [] := by
    apply List.eq_nil_iff_forall_not_mem.mpr
    intro i hi
    have hlt := (List.pairwise_cons.mp (List.pairwise_append.mp hsorted).2.1).1 i hi
    exact Nat.not_lt_zero i hlt
  rw [hafter, List.getLast?_append]
  rfl

theorem Sound.openPath {b : Builder} (h : b.Sound) : b.OpenPath := by
  rcases h with hempty | h
  · exact Or.inl hempty
  · exact h.openPath

theorem Sound.apply {b : Builder} (h : b.Sound) (op : Operation) : (b.apply op).Sound := by
  rcases h with ⟨hentries, hstack⟩ | h
  · -- Without entries there is nothing to close or to change.
    have hsize : b.entries.size = 0 := by
      rw [hentries]
      rfl
    have hmodify : ∀ id f, b.modify id f = b := by
      intro id f
      rw [Builder.modify, hentries]
      cases b
      simp_all
    cases op with
    | push e => exact Or.inr (inPreorder_push_of_empty hsize hstack e)
    | addLeaf e =>
      have hroot : ¬ b.hasRoot = true := by
        rw [hasRoot, hentries]
        decide
      show (b.addLeaf e).Sound
      rw [Builder.addLeaf, if_neg hroot]
      exact Or.inr (inPreorder_push_of_empty hsize hstack e)
    | pop stop =>
      have hpop : b.pop stop = b := by rw [Builder.pop, closable?, hstack]
      show (b.pop stop).Sound
      rw [hpop]
      exact Or.inl ⟨hentries, hstack⟩
    | addDoc id text =>
      show (b.modify id _).Sound
      rw [hmodify]
      exact Or.inl ⟨hentries, hstack⟩
    | rename id name =>
      show (b.modify id _).Sound
      rw [hmodify]
      exact Or.inl ⟨hentries, hstack⟩
  · apply Or.inr
    cases op with
    | push e => exact h.push e
    | addLeaf e => exact h.addLeaf e
    | pop stop => exact h.pop stop
    | addDoc id text =>
      refine h.modify id ?_ (fun e => e.links_addDoc text) (fun e => e.ends_addDoc text)
      intro e
      unfold Entry.addDoc
      split
      · exact ⟨rfl, rfl⟩
      · split <;> exact ⟨rfl, rfl⟩
    | rename id name =>
      exact h.modify id (fun _ => ⟨rfl, rfl⟩) (fun _ => rfl) (fun _ => rfl)

theorem sound_ofOperations (file : String) (ops : List Operation) :
    (ofOperations file ops).Sound := by
  have hrun : ∀ (b : Builder), b.Sound → (ops.foldl apply b).Sound := by
    induction ops with
    | nil => exact fun b hb => hb
    | cons op ops ih => exact fun b hb => ih _ (hb.apply op)
  exact hrun _ (Or.inl ⟨rfl, rfl⟩)

theorem Sound.withRoot {b : Builder} (h : b.Sound) : b.withRoot.InPreorder := by
  unfold Builder.withRoot
  rcases h with ⟨hentries, hstack⟩ | h
  · rw [if_neg (by rw [hasRoot, hentries]; decide)]
    exact inPreorder_push_of_empty (by rw [hentries]; rfl) hstack {}
  · rw [if_pos h.arena.hasRoot]
    exact h

theorem file_pop (b : Builder) (stop : Location) : (b.pop stop).file = b.file := by
  unfold pop
  split <;> rfl

theorem file_popTimes (b : Builder) (stop : Location) (n : Nat) :
    (b.popTimes stop n).file = b.file := by
  induction n generalizing b with
  | zero => rfl
  | succ n ih => rw [popTimes, ih, file_pop]

theorem file_apply (b : Builder) (op : Operation) : (b.apply op).file = b.file := by
  cases op with
  | addLeaf e =>
    show (b.addLeaf e).file = b.file
    unfold addLeaf
    split <;> rfl
  | pop stop => exact b.file_pop stop
  | _ => rfl

theorem file_ofOperations (file : String) (ops : List Operation) :
    (ofOperations file ops).file = file := by
  have hrun : ∀ (b : Builder), (ops.foldl apply b).file = b.file := by
    induction ops with
    | nil => exact fun _ => rfl
    | cons op ops ih => exact fun b => (ih _).trans (b.file_apply op)
  exact hrun _

theorem file_finish (b : Builder) (eof : Location) : (b.finish eof).file = b.file := by
  show (b.withRoot.popTimes eof b.withRoot.unclosed).file = b.file
  rw [file_popTimes, withRoot]
  split <;> rfl

/-! ### The finished outline -/

/-- An entry is listed once. -/
theorem Arena.count_children {b : Builder} (h : b.Arena) {p i : EntryId} {l : Links}
    (hl : b.links? p = some l) (hi : i ∈ l.children) : l.children.toList.count i = 1 := by
  -- The list is in order, so that nothing stands in it twice.
  have hnodup : l.children.toList.Nodup := (h.sorted p l hl).imp fun hlt => Nat.ne_of_lt hlt
  rw [hnodup.count, if_pos (Array.mem_toList_iff.mpr hi)]

/-- When nothing but the root is open, the outline of the entries is in
    preorder, whatever text the root is stretched over. -/
theorem InPreorder.preorder {b : Builder} {o : Outline} (h : b.InPreorder) (hstack : b.stack = [0])
    {eof : Location} (hspan : .start ≤ eof) (hfile : o.file = b.file)
    (hentries : o.entries = (b.stretchRoot eof).entries) : o.Preorder := by
  have hsame : ∀ i, o.get? i = Builder.entry? (b.stretchRoot eof) i := by
    intro i
    rw [Outline.get?, hentries]
    rfl
  have hlinks : ∀ i, (b.stretchRoot eof).links? i = b.links? i := b.links?_stretchRoot eof
  have harena : (b.stretchRoot eof).Arena :=
    h.arena.of_suffix Array.size_modify hlinks List.suffix_rfl h.arena.root_open
  have hnext : Consecutive (b.stretchRoot eof).entries := consecutive_of_links? hlinks h.next
  have hlimit : 0 + o.size = (b.stretchRoot eof).entries.size := by
    rw [Nat.zero_add, Outline.size, hentries]
  have hclosed : ∀ i, i ≠ 0 → i ∉ b.stack := by
    intro i hi hmem
    rw [hstack] at hmem
    exact hi (List.mem_singleton.mp hmem)
  obtain ⟨hwalk, hdepth⟩ := walkFrom_of_waiting harena hnext hentries hlimit (.start harena)
  constructor
  case nonempty => exact o.nonempty
  case own =>
    intro i e he
    obtain ⟨old, hold, hid, hown, _⟩ := exists_entry?_of_stretchRoot ((hsame i).symm.trans he)
    rw [hid, hown, hfile]
    exact h.own i old hold
  case root =>
    intro e he
    rw [hsame] at he
    exact harena.root _ (links?_of_entry he)
  case parent =>
    intro i e he hi
    rw [hsame] at he
    obtain ⟨p, m, hp, hlt, hm, hmem⟩ := harena.parent i _ (links?_of_entry he) hi
    have hcount := harena.count_children hm hmem
    obtain ⟨holder, hholder, rfl⟩ := entry?_of_links? hm
    exact ⟨p, holder, hp, hlt, (hsame p).trans hholder, hcount⟩
  case child =>
    intro p holder i hholder hi
    rw [hsame] at hholder
    obtain ⟨e, he, hparent⟩ := (harena.mem_children_iff hholder).mp hi
    exact ⟨e, (hsame i).trans he, hparent⟩
  case sorted =>
    intro i e he
    rw [hsame] at he
    exact harena.sorted i _ (links?_of_entry he)
  case walk => rwa [List.drop_zero] at hwalk
  case depth =>
    intro depth e hmem
    obtain ⟨k, above, hk, habove, hlength⟩ := hdepth depth e hmem
    obtain ⟨old, hold, hid, _⟩ := exists_entry?_of_stretchRoot hk
    rw [hid, (h.own k old hold).1]
    exact ⟨above, habove, hlength⟩
  case ordered =>
    intro i e he
    obtain ⟨old, hold, _, _, hroot, hother⟩ :=
      exists_entry?_of_stretchRoot ((hsame i).symm.trans he)
    by_cases hi : i = 0
    · obtain ⟨hstart, hstop⟩ := hroot hi
      rwa [hstart, hstop]
    · rw [hother hi]
      exact (h.closed i old hold (hclosed i hi)).1
  case covers =>
    intro i e k last he hi hk hlast
    obtain ⟨old, hold, _, _, _, hother⟩ := exists_entry?_of_stretchRoot ((hsame i).symm.trans he)
    obtain rfl := hother hi
    obtain ⟨oldLast, hentry, _, _, _, hsameLast⟩ :=
      exists_entry?_of_stretchRoot ((hsame k).symm.trans hlast)
    have hik : i < k := (h.arena.child i _ k (links?_of_entry hold) (Array.mem_of_back? hk)).1
    rw [hsameLast (Nat.ne_zero_of_lt hik)]
    exact (h.closed i e hold (hclosed i hi)).2 k oldLast hk hentry

theorem Sound.preorder_finish {b : Builder} (h : b.Sound) (eof : Location) :
    (b.finish eof).Preorder := by
  have hrooted : b.withRoot.InPreorder := h.withRoot
  have hlength : b.withRoot.stack.length = b.withRoot.unclosed + 1 := by
    have hpos := List.length_pos_iff.mpr hrooted.arena.stack_ne_nil
    unfold unclosed
    omega
  have hclosed := hrooted.popTimes eof b.withRoot.unclosed
  have hstack := stack_popTimes hrooted.arena eof hlength
  exact hclosed.preorder hstack (Location.le_max_right eof .start) rfl rfl

/-- Whatever was done to a builder, the open entries are the path from the
    root to the innermost one, and finishing it gives an outline in preorder of
    the builder's file. -/
theorem preorder_finish_ofOperations (file : String) (ops : List Operation) (eof : Location) :
    (ofOperations file ops).OpenPath ∧ ((ofOperations file ops).finish eof).file = file ∧
      ((ofOperations file ops).finish eof).Preorder := by
  have hsound := sound_ofOperations file ops
  refine ⟨hsound.openPath, ?_, hsound.preorder_finish eof⟩
  rw [file_finish, file_ofOperations]

end Builder

end PascalOutline
