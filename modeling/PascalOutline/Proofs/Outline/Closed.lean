import PascalOutline.Proofs.Outline.Profile
import PascalOutline.Proofs.Outline.Spans

/-! # Closed entries

  What is known of an entry that is not open any more (`Builder.closed?`) does
  not change: its links and its end are those that it had when it was closed.
  So the closed entries of a builder become more in two ways only, by a complete
  entry and by one that is closed.

  Items are the closed entries that hold no declarations. The last value of a
  complete enumeration is told apart from the other items: what trails it goes
  to the enumeration (`Builder.Recipient`).
-/

namespace PascalOutline

/-- Whether entries of a kind hold no declarations. The values of an
    enumeration are part of its type. -/
def EntryKind.isItem : EntryKind → Bool
  | .enumValue | .field | .var | .const | .property | .type_ => true
  | _ => false

/-- An entry is complete with its own tokens. -/
def Profile.IsItem (p : Profile) : Prop :=
  p.forward = true ∨ p.kind.isItem = true

instance (p : Profile) : Decidable p.IsItem :=
  inferInstanceAs (Decidable (_ ∨ _))

/-- What is known of a closed entry. -/
structure Closed where
  /-- What sort of entry it is. -/
  profile : Profile
  /-- Its links. -/
  links : Links
  /-- Where it begins and ends. -/
  ends : Location × Location

namespace Builder

/-- The entry with a handle, if it is closed. -/
def closed? (b : Builder) (i : EntryId) : Option Closed :=
  if i ∈ b.stack then none else (b.entry? i).map fun e => ⟨e.profile, e.links, e.ends⟩

/-- An entry is a complete item that ends at a location. -/
def ItemEnds (b : Builder) (i : EntryId) (stop : Location) : Prop :=
  ∃ x, b.closed? i = some x ∧ x.profile.IsItem ∧ x.ends.2 = stop

/-- An entry is the last value of a complete enumeration. -/
def LastValue (b : Builder) (i t : EntryId) : Prop :=
  ∃ x, b.closed? t = some x ∧ x.profile.kind = .type_ ∧ x.links.children.back? = some i

/-- Documentation that trails an item belongs to this entry: to the
    enumeration if the item is its last value, else to the item. -/
def Recipient (b : Builder) (i o : EntryId) : Prop :=
  b.LastValue i o ∨ (o = i ∧ ∀ t, ¬ b.LastValue i t)

section Closed

variable {b b' : Builder} {i o t id : EntryId} {stop : Location} {x : Closed}

theorem not_open_of_closed? (h : b.closed? i = some x) : i ∉ b.stack := by
  intro hopen
  rw [closed?, if_pos hopen] at h
  cases h

theorem views_of_closed? (h : b.closed? i = some x) :
    b.profile? i = some x.profile ∧ b.links? i = some x.links ∧ b.ends? i = some x.ends := by
  rw [closed?, if_neg (not_open_of_closed? h)] at h
  obtain ⟨e, he, rfl⟩ := Option.map_eq_some_iff.mp h
  simp [profile?, links?, ends?, he]

theorem closed?_of_views {p : Profile} {l : Links} {y : Location × Location} (hopen : i ∉ b.stack)
    (hp : b.profile? i = some p) (hl : b.links? i = some l) (hy : b.ends? i = some y) :
    b.closed? i = some ⟨p, l, y⟩ := by
  obtain ⟨e, he, rfl⟩ := Option.map_eq_some_iff.mp hp
  simp only [links?, ends?, he, Option.map_some, Option.some.injEq] at hl hy
  simp [closed?, hopen, he, hl, hy]

/-- Two closed entries are alike if they look alike from each side. -/
theorem closed?_congr (hopen : i ∈ b'.stack ↔ i ∈ b.stack) (hp : b'.profile? i = b.profile? i)
    (hl : b'.links? i = b.links? i) (hy : b'.ends? i = b.ends? i) : b'.closed? i = b.closed? i := by
  by_cases hi : i ∈ b.stack
  · rw [closed?, closed?, if_pos hi, if_pos (hopen.mpr hi)]
  · cases he : b.entry? i with
    | none =>
      have hnone : b'.entry? i = none := by simpa [profile?, he] using hp
      simp [closed?, he, hnone]
    | some e =>
      have hclosed : b.closed? i = some ⟨e.profile, e.links, e.ends⟩ := by simp [closed?, hi, he]
      rw [hclosed]
      refine closed?_of_views (fun h => hi (hopen.mp h)) ?_ ?_ ?_
      · rw [hp, profile?, he]
        rfl
      · rw [hl, links?, he]
        rfl
      · rw [hy, ends?, he]
        rfl

theorem ItemEnds.lt_size (h : b.ItemEnds i stop) : i < b.entries.size := by
  obtain ⟨x, hx, _⟩ := h
  exact lt_size_of_profile? (views_of_closed? hx).1

theorem LastValue.lt_size (h : b.LastValue i t) : t < b.entries.size := by
  obtain ⟨x, hx, _⟩ := h
  exact lt_size_of_profile? (views_of_closed? hx).1

/-- A last value stands after its enumeration, and is not open. -/
theorem LastValue.closed (h : b.LastValue i t) (harena : b.Arena) :
    i < b.entries.size ∧ i ∉ b.stack := by
  obtain ⟨x, hx, _, hback⟩ := h
  have hlinks := (views_of_closed? hx).2.1
  have hmem := Array.mem_of_back? hback
  exact ⟨harena.child_lt hlinks hmem,
    fun hopen => not_open_of_closed? hx (harena.stack_up t x.links i hlinks hmem hopen)⟩

theorem Recipient.lt_size (h : b.Recipient i o) (hi : b.ItemEnds i stop) : o < b.entries.size := by
  rcases h with hlast | ⟨rfl, _⟩
  · exact hlast.lt_size
  · exact hi.lt_size

/-! ### How entries become closed -/

theorem closed?_of_documents (h : b.Documents b') (i : EntryId) : b'.closed? i = b.closed? i := by
  have hframe := h.sameFrame
  exact closed?_congr (by rw [hframe.stack]) (h.profile?_eq i) (hframe.links i) (hframe.ends i)

/-- What changes neither sort nor frame of an entry, or changes an open one. -/
theorem closed?_modify (b : Builder) {f : Entry → Entry} (hlinks : ∀ e, (f e).links = e.links)
    (hends : ∀ e, (f e).ends = e.ends)
    (hprofile : id ∈ b.stack ∨ ∀ e, (f e).profile = e.profile) (i : EntryId) :
    (b.modify id f).closed? i = b.closed? i := by
  have hframe := b.sameFrame_modify id hlinks hends
  by_cases hi : i ∈ b.stack
  · have hi' : i ∈ (b.modify id f).stack := hi
    rw [closed?, closed?, if_pos hi, if_pos hi']
  · refine closed?_congr (by rw [hframe.stack]) ?_ (hframe.links i) (hframe.ends i)
    rcases hprofile with hopen | hsame
    · have hne : i ≠ id := fun heq => hi (heq ▸ hopen)
      rw [profile?, profile?, entry?_modify, if_neg hne]
    · exact b.profile?_modify_of_eq id i hsame

/-- A new entry changes no closed one: it belongs to an open entry. -/
theorem closed?_insert (harena : b.Arena) (e : Entry) (hne : i ≠ b.nextId)
    (hstack : i ∈ b'.stack ↔ i ∈ b.stack) (hentries : b'.entry? i = entry? (b.insert e) i) :
    b'.closed? i = b.closed? i := by
  by_cases hi : i ∈ b.stack
  · rw [closed?, closed?, if_pos hi, if_pos (hstack.mpr hi)]
  · have htop : b.top? ≠ some i := by
      obtain ⟨top, htop, hopen, _⟩ := harena.exists_top
      rw [htop]
      exact fun heq => hi (Option.some.inj heq ▸ hopen)
    rw [closed?, closed?, if_neg hi, if_neg (fun h => hi (hstack.mp h)), hentries, entry?_insert,
      if_neg hne, if_neg htop]

theorem closed?_push (harena : b.Arena) (e : Entry) (i : EntryId) :
    (b.push e).closed? i = b.closed? i := by
  by_cases hnew : i = b.nextId
  · have hopen : i ∈ (b.push e).stack := hnew ▸ List.mem_cons_self
    have hnone : b.entry? i = none := by
      rw [hnew]
      exact Array.getElem?_eq_none (Nat.le_refl _)
    simp [closed?, hopen, hnone]
  · refine closed?_insert harena e hnew ?_ rfl
    show i ∈ b.nextId :: b.stack ↔ _
    simp [hnew]

/-- A complete entry is closed when it is made. -/
theorem closed?_addLeaf (harena : b.Arena) {e : Entry} (hspan : e.start.Precedes e.stop)
    (i : EntryId) :
    (b.addLeaf e).closed? i
      = if i = b.nextId then
          some ⟨{ e.profile with parent := b.top? }, ⟨b.top?, #[]⟩, (e.start, e.stop)⟩
        else b.closed? i := by
  have hstack := harena.stack_addLeaf e
  split
  · next hnew =>
    refine closed?_of_views ?_ ?_ ?_ ?_
    · rw [hstack, hnew]
      exact fun hopen => Nat.lt_irrefl _ (harena.stack_lt _ hopen)
    · rw [harena.profile?_addLeaf, if_pos hnew]
    · rw [harena.addLeaf_eq, links?_close, links?_insert, if_pos hnew]
    · rw [harena.ends?_addLeaf hspan, if_pos hnew]
  · next hne =>
    refine closed?_insert harena e hne (by rw [hstack]) ?_
    rw [harena.addLeaf_eq, close, entry?_modify, if_neg hne]

/-- The innermost open entry is closed and ends at the place. -/
theorem closed?_pop {p : Location} (harena : b.Arena) (hbefore : b.LiesBefore p)
    {rest : List EntryId} (hstack : b.stack = id :: rest) (hrest : rest ≠ []) (i : EntryId) :
    (b.pop p).closed? i
      = if i = id then (b.entry? i).map fun e => ⟨e.profile, e.links, (e.start, p)⟩
        else b.closed? i := by
  have hpopped := stack_pop hstack hrest p
  have hends := hbefore.ends?_pop harena hstack hrest
  have hlinks : (b.pop p).links? i = b.links? i := by
    unfold pop
    split
    · exact links?_close ..
    · rfl
  split
  · next heq =>
    subst heq
    have hclosed : i ∉ (b.pop p).stack := by
      have hsorted := harena.stack_sorted
      rw [hstack] at hsorted
      rw [hpopped]
      exact fun hmem => Nat.lt_irrefl i ((List.pairwise_cons.mp hsorted).1 i hmem)
    obtain ⟨e, he⟩ := exists_entry? (harena.stack_lt i (by rw [hstack]; exact List.mem_cons_self))
    rw [he]
    refine closed?_of_views hclosed ?_ ?_ ?_
    · rw [profile?_pop, profile?, he]
      rfl
    · rw [hlinks, links?, he]
      rfl
    · rw [hends, if_pos rfl, ends?, he]
      rfl
  · next hne =>
    refine closed?_congr ?_ (b.profile?_pop p i) hlinks (by rw [hends, if_neg hne])
    rw [hpopped, hstack]
    simp [hne]

/-- A closed entry stays as it is when others are closed. -/
theorem entry?_pop (harena : b.Arena) (hi : i ∉ b.stack) (stop : Location) :
    entry? (b.pop stop) i = b.entry? i ∧ i ∉ (b.pop stop).stack := by
  rcases harena.pop_cases stop with ⟨_, hpop⟩ | ⟨id, rest, hstack, _, _, _, hpop⟩
  · rw [hpop]
    exact ⟨rfl, hi⟩
  · rw [hstack] at hi
    obtain ⟨hne, hrest⟩ := not_or.mp (List.mem_cons.not.mp hi)
    rw [hpop]
    refine ⟨?_, hrest⟩
    show entry? (b.close id stop) i = _
    rw [close, entry?_modify, if_neg hne]

theorem entry?_popTimes (harena : b.Arena) (hi : i ∉ b.stack) (stop : Location) (n : Nat) :
    entry? (b.popTimes stop n) i = b.entry? i := by
  induction n generalizing b with
  | zero => rfl
  | succ n ih =>
    obtain ⟨hsame, hclosed⟩ := entry?_pop harena hi stop
    exact (ih (harena.pop stop) hclosed).trans hsame

/-! ### Items -/

/-- Two builders have the same items, and the same of them are last values. -/
structure SameItems (b b' : Builder) : Prop where
  /-- The same entries are items, and they end where they did. -/
  ends : ∀ i stop, b'.ItemEnds i stop ↔ b.ItemEnds i stop
  /-- The same entries are last values. -/
  last : ∀ i t, b'.LastValue i t ↔ b.LastValue i t

theorem SameItems.trans {b'' : Builder} (h : b.SameItems b') (h' : b'.SameItems b'') :
    b.SameItems b'' :=
  ⟨fun i stop => (h'.ends i stop).trans (h.ends i stop),
    fun i t => (h'.last i t).trans (h.last i t)⟩

theorem SameItems.recipient_iff (h : b.SameItems b') (i o : EntryId) :
    b'.Recipient i o ↔ b.Recipient i o := by
  simp only [Recipient, h.last]

theorem sameItems_of_closed (h : ∀ i, b'.closed? i = b.closed? i) : b.SameItems b' := by
  constructor
  · simp only [ItemEnds, h, implies_true]
  · simp only [LastValue, h, implies_true]

/-- To close what is no item leaves the items as they are. -/
theorem sameItems_pop {p : Location} (harena : b.Arena) (hbefore : b.LiesBefore p)
    {rest : List EntryId} (hstack : b.stack = id :: rest) (hrest : rest ≠ [])
    (hno : ∀ q, b.profile? id = some q → ¬ q.IsItem) : b.SameItems (b.pop p) := by
  have hclosed := closed?_pop harena hbefore hstack hrest
  have hnone : b.closed? id = none := if_pos (by rw [hstack]; exact List.mem_cons_self)
  -- What was closed just now is no item, hence no enumeration either.
  have hpopped : ∀ x, (b.pop p).closed? id = some x → ¬ x.profile.IsItem := by
    intro x hx
    refine hno x.profile ?_
    rw [← b.profile?_pop p]
    exact (views_of_closed? hx).1
  have hsame : ∀ i x, x.profile.IsItem → ((b.pop p).closed? i = some x ↔ b.closed? i = some x) := by
    intro i x hitem
    by_cases hi : i = id
    · subst hi
      exact iff_of_false (fun hx => hpopped x hx hitem) (by simp [hnone])
    · rw [hclosed, if_neg hi]
  constructor
  · intro i stop
    exact exists_congr fun x => and_congr_left fun h => hsame i x h.1
  · intro i t
    refine exists_congr fun x => and_congr_left fun h => hsame t x (.inr ?_)
    rw [h.1]
    rfl

section AddLeaf

variable (harena : b.Arena) {e : Entry} (hspan : e.start.Precedes e.stop)
include harena hspan

theorem itemEnds_addLeaf (h : (b.addLeaf e).ItemEnds i stop) :
    b.ItemEnds i stop ∨ (i = b.nextId ∧ e.stop = stop) := by
  obtain ⟨x, hx, hitem, hstop⟩ := h
  rw [closed?_addLeaf harena hspan] at hx
  split at hx
  · next hnew =>
    obtain rfl := Option.some.inj hx
    exact .inr ⟨hnew, hstop⟩
  · exact .inl ⟨x, hx, hitem, hstop⟩

/-- A new entry holds nothing, and what holds it is open. -/
theorem lastValue_addLeaf (i t : EntryId) :
    (b.addLeaf e).LastValue i t ↔ b.LastValue i t := by
  unfold LastValue
  rw [closed?_addLeaf harena hspan]
  split
  · next hnew =>
    have hnone : b.closed? t = none := by
      have hentry : b.entry? t = none := hnew ▸ Array.getElem?_eq_none (Nat.le_refl _)
      simp [closed?, hentry]
    simp [hnone]
  · rfl

omit hspan in
/-- The new entry is the last one of the innermost open entry. -/
theorem lastChild?_addLeaf (htop : b.top? = some t) :
    (b.addLeaf e).lastChild? t = some b.nextId := by
  have hlt := harena.stack_lt t (List.mem_of_mem_head? htop)
  have hne : t ≠ b.nextId := Nat.ne_of_lt hlt
  obtain ⟨l, hl⟩ := exists_links? hlt
  rw [lastChild?_eq_links?, harena.addLeaf_eq, links?_close, links?_insert, if_neg hne,
    if_pos htop, hl]
  simp

end AddLeaf

/-! Several complete entries, one after the other. -/

section Foldl

variable {entries : List Entry} (harena : b.Arena) (hspan : ∀ e ∈ entries, e.start.Precedes e.stop)
include harena hspan

theorem itemEnds_foldl_addLeaf (h : (entries.foldl addLeaf b).ItemEnds i stop) :
    b.ItemEnds i stop ∨
      (i ∈ List.range' b.nextId entries.length ∧ ∃ e ∈ entries, e.stop = stop) := by
  induction entries generalizing b with
  | nil => exact .inl h
  | cons e es ih =>
    obtain ⟨hfirst, hothers⟩ := List.forall_mem_cons.mp hspan
    have hnext : (b.addLeaf e).nextId = b.nextId + 1 := b.size_addLeaf e
    rw [List.length_cons, List.range'_succ]
    rcases ih (harena.addLeaf e) hothers h with hold | ⟨hmem, e', he', hstop⟩
    · rcases itemEnds_addLeaf harena hfirst hold with hbefore | ⟨rfl, hstop⟩
      · exact .inl hbefore
      · exact .inr ⟨List.mem_cons_self, e, List.mem_cons_self, hstop⟩
    · rw [hnext] at hmem
      exact .inr ⟨List.mem_cons_of_mem _ hmem, e', List.mem_cons_of_mem _ he', hstop⟩

theorem lastValue_foldl_addLeaf (i t : EntryId) :
    (entries.foldl addLeaf b).LastValue i t ↔ b.LastValue i t := by
  induction entries generalizing b with
  | nil => exact .rfl
  | cons e es ih =>
    obtain ⟨hfirst, hothers⟩ := List.forall_mem_cons.mp hspan
    exact (ih (harena.addLeaf e) hothers).trans (lastValue_addLeaf harena hfirst i t)

end Foldl

section Conclude

variable {p : Location} (harena : b.Arena) (hbefore : b.LiesBefore p) {rest : List EntryId}
  (hstack : b.stack = id :: rest) (hrest : rest ≠ [])
include harena hbefore hstack hrest

theorem itemEnds_pop (h : (b.pop p).ItemEnds i stop) : b.ItemEnds i stop ∨ (i = id ∧ p = stop) := by
  obtain ⟨x, hx, hitem, hstop⟩ := h
  rw [closed?_pop harena hbefore hstack hrest] at hx
  split at hx
  · next hid =>
    obtain ⟨e, _, rfl⟩ := Option.map_eq_some_iff.mp hx
    exact .inr ⟨hid, hstop⟩
  · exact .inl ⟨x, hx, hitem, hstop⟩

/-- If an enumeration is closed, its last child becomes the last value. -/
theorem lastValue_pop (hkind : ∃ q, b.profile? id = some q ∧ q.kind = .type_) (i t : EntryId) :
    (b.pop p).LastValue i t ↔ b.LastValue i t ∨ (t = id ∧ b.lastChild? id = some i) := by
  have hclosed := closed?_pop harena hbefore hstack hrest t
  obtain ⟨q, hq, hkind⟩ := hkind
  obtain ⟨e, he, rfl⟩ := Option.map_eq_some_iff.mp hq
  unfold LastValue
  rw [hclosed]
  split
  · next hid =>
    subst hid
    have hnone : b.closed? t = none := if_pos (by rw [hstack]; exact List.mem_cons_self)
    have htype : e.profile.kind = .type_ := hkind
    simp [he, hnone, htype, lastChild?, Entry.links]
  · next hne => simp [hne]

end Conclude

end Closed

end Builder

end PascalOutline
