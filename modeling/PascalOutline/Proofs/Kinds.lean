import PascalOutline.Proofs.Documentation
import PascalOutline.Proofs.Outline.Preorder

/-! # What stands where

  The outline of every source is well kinded: which kinds of entries an entry
  holds, which of them have a visibility or an owner, and which are only
  announced. What is declared and what is open are two parts of a state; a
  deed declares what its holder admits (`Holder.Admits`), and no deed changes
  what an entry is, so the law holds of every entry and its parent.
-/

namespace PascalOutline

/-! ### The law of an outline -/

/-- The kinds of the entries of an outline fit together. -/
structure Outline.WellKinded (o : Outline) : Prop where
  /-- The members of class-like types have a visibility, and only they. -/
  visibility : ∀ i e, o.get? i = some e →
    (e.visibility.isSome = true ↔ ∃ q, o.parent? i = some q ∧ q.kind.isContainer = true)
  /-- Fields and properties are members of class-like types. -/
  member : ∀ i e, o.get? i = some e → e.kind = .field ∨ e.kind = .property →
    ∃ q, o.parent? i = some q ∧ q.kind.isContainer = true
  /-- The values of enumerations are what a plain type holds. -/
  enumValue : ∀ i e, o.get? i = some e →
    (e.kind = .enumValue ↔ ∃ q, o.parent? i = some q ∧ q.kind = .type_)
  /-- Sections stand directly in the module. -/
  section_ : ∀ i e, o.get? i = some e → e.kind = .section_ → e.parent = some 0
  /-- Variables stand in the module or in a routine. -/
  var : ∀ i e, o.get? i = some e → e.kind = .var →
    e.parent = some 0 ∨ ∃ q, o.parent? i = some q ∧ q.kind.isRoutine = true
  /-- The routines of a class-like type are defined elsewhere. -/
  routine : ∀ i e q, o.get? i = some e → e.kind.isRoutine = true → o.parent? i = some q →
    q.kind.isContainer = true → e.forward = true
  /-- What is defined elsewhere holds nothing. -/
  forward : ∀ i e, o.get? i = some e → e.forward = true →
    e.children = #[] ∧ ∀ k child, o.get? k = some child → child.parent ≠ some i
  /-- Only routines have an owner. -/
  qualifier : ∀ i e, o.get? i = some e → e.qualifier.isSome = true → e.kind.isRoutine = true
  /-- Only the root uses units. -/
  uses : ∀ i e, o.get? i = some e → e.uses ≠ [] → i = 0
  /-- Modules, and what stands for a source without a header, are roots. -/
  root : ∀ i e, o.get? i = some e → e.kind.isModule = true ∨ e.kind = .other → i = 0

/-! ### Holders and kinds -/

namespace Holder

variable {holder : Holder} {kind : EntryKind} {p : Profile}

theorem Is.container_iff (h : holder.Is kind) : holder = .container ↔ kind.isContainer = true := by
  cases holder with
  | container => exact iff_of_true rfl h
  | module => cases kind <;> simp_all [Is, EntryKind.isModule, EntryKind.isContainer]
  | routine => cases kind <;> simp_all [Is, EntryKind.isRoutine, EntryKind.isContainer]
  | section_ => cases kind <;> simp_all [Is, EntryKind.isContainer]
  | enumeration => cases kind <;> simp_all [Is, EntryKind.isContainer]

theorem Is.enumeration_iff (h : holder.Is kind) : holder = .enumeration ↔ kind = .type_ := by
  cases holder with
  | enumeration => exact iff_of_true rfl h
  | module => cases kind <;> simp_all [Is, EntryKind.isModule]
  | container => cases kind <;> simp_all [Is, EntryKind.isContainer]
  | routine => cases kind <;> simp_all [Is, EntryKind.isRoutine]
  | section_ => cases kind <;> simp_all [Is]

theorem declares_enumValue_iff (h : holder.declares kind = true) :
    kind = .enumValue ↔ holder = .enumeration := by
  cases holder <;> cases kind <;> simp_all [declares, EntryKind.isContainer, EntryKind.isRoutine]

/-- No holder holds a module. -/
theorem not_isModule_of_declares (h : holder.declares kind = true) :
    ¬ (kind.isModule = true ∨ kind = .other) := by
  cases holder <;> cases kind <;>
    simp_all [declares, EntryKind.isContainer, EntryKind.isRoutine, EntryKind.isModule]

theorem eq_container_of_declares_member (h : holder.declares kind = true)
    (hkind : kind = .field ∨ kind = .property) : holder = .container := by
  rcases hkind with rfl | rfl
  · cases holder <;> first | rfl | cases h
  · cases holder <;> first | rfl | cases h

theorem eq_module_of_declares_section (h : holder.declares .section_ = true) :
    holder = .module := by
  cases holder <;> first | rfl | cases h

theorem eq_of_declares_var (h : holder.declares .var = true) :
    holder = .module ∨ holder = .routine := by
  cases holder with
  | module => exact .inl rfl
  | routine => exact .inr rfl
  | _ => cases h

theorem Admits.withParent (h : holder.Admits p) (parent : Option EntryId) :
    holder.Admits { p with parent } :=
  ⟨h.kind, h.visibility, h.forward, h.qualifier, h.uses⟩

end Holder

/-! ### Every deed keeps the law -/

/-- Every entry but the root stands in one that holds it and is defined where
    it is declared. -/
structure Builder.Kinded (b : Builder) : Prop where
  /-- The root is a module, or stands for one. -/
  root : ∀ p, b.profile? 0 = some p → p.IsRoot
  /-- Any other entry has a parent that admits it. -/
  held : ∀ i p, b.profile? i = some p → i ≠ 0 →
    ∃ id q holder, p.parent = some id ∧ b.profile? id = some q ∧ Holder.Is holder q.kind ∧
      q.forward = false ∧ holder.Admits p

namespace Builder.Kinded

variable {b b' : Builder}

theorem congr (h : b.Kinded) (hprofile : ∀ i, b'.profile? i = b.profile? i) : b'.Kinded := by
  constructor
  · simpa only [hprofile] using h.root
  · simpa only [hprofile] using h.held

/-- An entry is made that the innermost open one admits. -/
theorem make (h : b.Kinded) {p q : Profile} {id : EntryId} {holder : Holder}
    (hprofile : ∀ i, b'.profile? i
      = if i = b.nextId then some { p with parent := b.top? } else b.profile? i)
    (htop : b.top? = some id) (hq : b.profile? id = some q) (hkind : holder.Is q.kind)
    (hforward : q.forward = false) (hadmits : holder.Admits p) : b'.Kinded := by
  -- The entries that were there are what they were.
  have hold : ∀ k q, b.profile? k = some q → b'.profile? k = some q := by
    intro k q hk
    have hne : k ≠ b.nextId := Nat.ne_of_lt (lt_size_of_profile? hk)
    rw [hprofile, if_neg hne]
    exact hk
  have hpos : 0 < b.nextId := Nat.zero_lt_of_lt (lt_size_of_profile? hq)
  constructor
  case root =>
    intro r hr
    rw [hprofile, if_neg (Nat.ne_of_lt hpos)] at hr
    exact h.root r hr
  case held =>
    intro i r hr hi
    rw [hprofile] at hr
    by_cases hnew : i = b.nextId
    · rw [if_pos hnew] at hr
      obtain rfl := Option.some.inj hr
      exact ⟨id, q, holder, htop, hold id q hq, hkind, hforward, hadmits.withParent _⟩
    · rw [if_neg hnew] at hr
      obtain ⟨k, s, holder', hparent, hs, hrest⟩ := h.held i r hr hi
      exact ⟨k, s, holder', hparent, hold k s hs, hrest⟩

end Builder.Kinded

section Deeds

variable {p q : Site} {d : Draft}

theorem Draft.StandsAt.top? (hd : d.StandsAt p) {id : EntryId} {holder : Holder}
    {rest : List (EntryId × Holder)} (hopened : p.opened = (id, holder) :: rest) :
    d.builder.top? = some id := by
  rw [Builder.top?, hd.stack, hopened]
  rfl

theorem kinded_foldl_addLeaf (hd : d.StandsAt p) (hk : d.builder.Kinded) {id : EntryId}
    {holder : Holder} {rest : List (EntryId × Holder)} (hopened : p.opened = (id, holder) :: rest)
    {entries : List Entry} (hadmits : ∀ e ∈ entries, holder.Admits e.profile) :
    (entries.foldl Builder.addLeaf d.builder).Kinded := by
  induction entries generalizing d p with
  | nil => exact hk
  | cons e es ih =>
    have htop : (id, holder) ∈ p.opened := by
      rw [hopened]
      exact List.mem_cons_self
    obtain ⟨q, hq, hkind, hforward⟩ := hd.opened (id, holder) htop
    have hmade := hk.make (hd.arena.profile?_addLeaf e) (hd.top? hopened) hq hkind hforward
      (hadmits e List.mem_cons_self)
    exact ih (hd.addLeaf e) hmade hopened fun e he => hadmits e (List.mem_cons_of_mem _ he)

/-- The root, which is the only open entry, uses some units. -/
theorem kinded_use (hd : d.StandsAt p) (hk : d.builder.Kinded) {id : EntryId} {holder : Holder}
    (hopened : p.opened = [(id, holder)]) (units : List String) :
    (d.use id units).builder.Kinded := by
  have hroot : id = 0 := by
    have hmem := hd.arena.root_open
    rw [hd.stack, hopened] at hmem
    exact (List.mem_singleton.mp hmem).symm
  have hprofile : ∀ i, (d.use id units).builder.profile? i
      = if i = 0 then (d.builder.profile? i).map fun q => { q with uses := q.uses ++ units }
        else d.builder.profile? i := by
    intro i
    rw [← hroot]
    exact d.builder.profile?_modify _ _ _ (fun q => { q with uses := q.uses ++ units }) fun _ => rfl
  constructor
  case root =>
    intro r hr
    rw [hprofile, if_pos rfl] at hr
    obtain ⟨r, hold, rfl⟩ := Option.map_eq_some_iff.mp hr
    have hroot := hk.root r hold
    exact ⟨hroot.kind, hroot.visibility, hroot.qualifier, hroot.forward, hroot.parent⟩
  case held =>
    intro i r hr hi
    rw [hprofile, if_neg hi] at hr
    obtain ⟨k, s, holder, hparent, hs, hkind, hforward, hadmits⟩ := hk.held i r hr hi
    have hsame : ∃ s', (d.use id units).builder.profile? k = some s' ∧ s'.kind = s.kind ∧
        s'.forward = s.forward := by
      rw [hprofile, hs]
      split <;> exact ⟨_, rfl, rfl, rfl⟩
    obtain ⟨s', hs', hkind', hforward'⟩ := hsame
    refine ⟨k, s', holder, hparent, hs', ?_, hforward'.trans hforward, hadmits⟩
    rw [hkind']
    exact hkind

/-- What no deed breaks. -/
theorem Deed.kinded {g : Draft → Draft} (h : Deed p g q) (hd : d.StandsAt p)
    (hk : d.builder.Kinded) : (g d).builder.Kinded := by
  have hdocs : ∀ {d d' : Draft}, d.Documents d' → d.builder.Kinded → d'.builder.Kinded :=
    fun hdocs hk => hk.congr hdocs.profile?_eq
  have hconclude : ∀ {d : Draft} (c : Cursor) (id : EntryId) {f : Entry → Entry},
      (∀ e, (f e).profile = e.profile) → d.builder.Kinded → (d.conclude c id f).builder.Kinded := by
    intro d c id f hf hk
    refine hdocs (Draft.documents_itemDone _ c [id]) (hk.congr ?_)
    intro i
    show ((d.builder.modify id f).pop c.prevStop).profile? i = _
    rw [Builder.profile?_pop, Builder.profile?_modify_of_eq _ _ _ hf]
  cases h with
  | move _ | log _ => exact hk
  | sync _ => exact hdocs (d.documents_sync _) hk
  | skip _ => exact hdocs (d.documents_skipTransparent _) hk
  | lead _ _ => exact hdocs (d.documents_takeLeading _) hk
  | use hopened units => exact kinded_use hd hk hopened units
  | @declare c entries id holder rest hopened _ _ _ _ hadmits _ =>
    have hled := hd.of_documents (d.documents_takeLeading p.cursor)
    refine hdocs (Draft.documents_itemDone _ c _) (kinded_foldl_addLeaf hled ?_ hopened ?_)
    · exact hdocs (d.documents_takeLeading p.cursor) hk
    · intro e he
      obtain ⟨bare, hbare, rfl⟩ := List.mem_map.mp he
      exact hadmits bare hbare
  | @enter c e id outer rest holder hopened _ _ _ _ hadmits _ _ =>
    have hled := hd.of_documents (d.documents_takeLeading p.cursor)
    obtain ⟨q, hq, hkind, hforward⟩ :=
      hled.opened (id, outer) (by rw [hopened]; exact List.mem_cons_self)
    refine hdocs (Draft.documents_itemDone _ c _) ?_
    exact (hdocs (d.documents_takeLeading p.cursor) hk).make (Builder.profile?_push _ _)
      (hled.top? hopened) hq hkind hforward hadmits
  | conclude _ _ _ hprofile _ _ _ _ => exact hconclude _ _ hprofile hk
  | shut _ _ _ _ hprofile _ _ _ _ => exact hconclude _ _ hprofile (hdocs (d.documents_sync _) hk)
  | abandon _ _ => exact hk.congr fun i => Builder.profile?_pop _ _ i

end Deeds

theorem Config.Steps.kinded {x y : Config} (h : x.Steps y) (hx : x.Stands)
    (hk : x.first.builder.Kinded) : y.first.builder.Kinded := by
  induction h with
  | refl => exact hk
  | tail hsteps hstep ih =>
    have hstands := Config.Steps.stands hsteps hx
    obtain ⟨hdeed, d, d'⟩ := hstep
    exact hdeed.kinded hstands.first ih

/-! ### The finished outline -/

/-- What is known of every entry of a finished outline and its parent. -/
structure Outline.Kinded (o : Outline) : Prop where
  /-- The root is a module, or stands for one. -/
  root : ∀ e, o.get? 0 = some e → e.profile.IsRoot
  /-- Any other entry has a parent that admits it. -/
  held : ∀ i e, o.get? i = some e → i ≠ 0 →
    ∃ id q holder, e.parent = some id ∧ o.get? id = some q ∧ Holder.Is holder q.kind ∧
      q.forward = false ∧ holder.Admits e.profile
  /-- An entry lists entries that it holds. -/
  listed : ∀ i e k, o.get? i = some e → k ∈ e.children →
    ∃ child, o.get? k = some child ∧ child.parent = some i

namespace Outline.Kinded

variable {o : Outline} {i : EntryId} {e : Entry}

theorem parent?_root (h : o.Kinded) : o.parent? 0 = none := by
  cases he : o.get? 0 with
  | none => rw [parent?, he]; rfl
  | some e =>
    have hparent : e.parent = none := (h.root e he).parent
    rw [parent?, he]
    show e.parent.bind o.get? = none
    rw [hparent]
    rfl

/-- An entry is the root, or its parent admits it. -/
theorem cases (h : o.Kinded) (he : o.get? i = some e) :
    (i = 0 ∧ o.parent? i = none ∧ e.profile.IsRoot) ∨
      ∃ id q holder, e.parent = some id ∧ o.get? id = some q ∧ o.parent? i = some q ∧
        Holder.Is holder q.kind ∧ q.forward = false ∧ holder.Admits e.profile := by
  by_cases hi : i = 0
  · subst hi
    exact .inl ⟨rfl, h.parent?_root, h.root e he⟩
  · obtain ⟨id, q, holder, hparent, hq, hrest⟩ := h.held i e he hi
    refine .inr ⟨id, q, holder, hparent, hq, ?_, hrest⟩
    rw [parent?, he]
    show e.parent.bind o.get? = some q
    rw [hparent]
    exact hq

/-- What is no module has a parent that admits it. -/
theorem admitted (h : o.Kinded) (he : o.get? i = some e)
    (hkind : ¬ (e.kind.isModule = true ∨ e.kind = .other)) :
    ∃ id q holder, e.parent = some id ∧ o.get? id = some q ∧ o.parent? i = some q ∧
      Holder.Is holder q.kind ∧ q.forward = false ∧ holder.Admits e.profile := by
  rcases h.cases he with ⟨_, _, hroot⟩ | hheld
  · exact absurd hroot.kind hkind
  · exact hheld

/-- Only the root is of a kind that holds the module. -/
theorem eq_zero_of_isModule (h : o.Kinded) (he : o.get? i = some e)
    (hkind : e.kind.isModule = true ∨ e.kind = .other) : i = 0 := by
  rcases h.cases he with ⟨hi, _⟩ | ⟨_, _, _, _, _, _, _, _, hadmits⟩
  · exact hi
  · exact absurd hkind (Holder.not_isModule_of_declares hadmits.kind)

/-- What holds an entry is defined where it is declared. -/
theorem parent_ne_of_forward (h : o.Kinded) (he : o.get? i = some e) (hforward : e.forward = true)
    {k : EntryId} {child : Entry} (hchild : o.get? k = some child) : child.parent ≠ some i := by
  intro hparent
  rcases h.cases hchild with ⟨_, _, hroot⟩ | ⟨id, q, _, hid, hq, _, _, hdefined, _⟩
  · have hnone : child.parent = none := hroot.parent
    rw [hparent] at hnone
    cases hnone
  · rw [hparent] at hid
    obtain rfl := Option.some.inj hid
    obtain rfl := Option.some.inj (he.symm.trans hq)
    rw [hforward] at hdefined
    cases hdefined

/-- The law, read off an entry and its parent. -/
theorem wellKinded (h : o.Kinded) : o.WellKinded := by
  constructor
  case visibility =>
    intro i e he
    rcases h.cases he with ⟨_, hparent, hroot⟩ | ⟨_, q, holder, _, _, hparent, hkind, _, hadmits⟩
    · have hnone : e.visibility = none := hroot.visibility
      rw [hparent, hnone]
      simp
    · have hvisible : e.visibility.isSome = decide (holder = .container) := hadmits.visibility
      rw [hparent, hvisible, decide_eq_true_iff, hkind.container_iff]
      simp
  case member =>
    intro i e he hmember
    have hplain : ¬ (e.kind.isModule = true ∨ e.kind = .other) := by
      rcases hmember with hfield | hproperty
      · rw [hfield]
        decide
      · rw [hproperty]
        decide
    obtain ⟨_, q, holder, _, _, hparent, hkind, _, hadmits⟩ := h.admitted he hplain
    have hholder := Holder.eq_container_of_declares_member hadmits.kind hmember
    exact ⟨q, hparent, hkind.container_iff.mp hholder⟩
  case enumValue =>
    intro i e he
    rcases h.cases he with ⟨_, hparent, hroot⟩ | ⟨_, q, holder, _, _, hparent, hkind, _, hadmits⟩
    · have hmodule : e.kind.isModule = true ∨ e.kind = .other := hroot.kind
      rw [hparent]
      constructor
      · intro hvalue
        rw [hvalue] at hmodule
        exact absurd hmodule (by decide)
      · rintro ⟨q, hq, _⟩
        cases hq
    · have hvalue : e.kind = .enumValue ↔ holder = .enumeration :=
        Holder.declares_enumValue_iff hadmits.kind
      rw [hparent, hvalue, hkind.enumeration_iff]
      simp
  case section_ =>
    intro i e he hsection
    have hplain : ¬ (e.kind.isModule = true ∨ e.kind = .other) := by
      rw [hsection]
      decide
    obtain ⟨id, q, holder, hparent, hq, _, hkind, _, hadmits⟩ := h.admitted he hplain
    have hdeclares : holder.declares e.kind = true := hadmits.kind
    rw [hsection] at hdeclares
    rw [Holder.eq_module_of_declares_section hdeclares] at hkind
    rw [hparent, h.eq_zero_of_isModule hq hkind]
  case var =>
    intro i e he hvar
    have hplain : ¬ (e.kind.isModule = true ∨ e.kind = .other) := by
      rw [hvar]
      decide
    obtain ⟨id, q, holder, hparent, hq, hholder, hkind, _, hadmits⟩ := h.admitted he hplain
    have hdeclares : holder.declares e.kind = true := hadmits.kind
    rw [hvar] at hdeclares
    rcases Holder.eq_of_declares_var hdeclares with rfl | rfl
    · exact .inl (by rw [hparent, h.eq_zero_of_isModule hq hkind])
    · exact .inr ⟨q, hholder, hkind⟩
  case routine =>
    intro i e q he hroutine hq hcontainer
    rcases h.cases he with ⟨_, hparent, _⟩ | ⟨_, q', holder, _, _, hparent, hkind, _, hadmits⟩
    · rw [hparent] at hq
      cases hq
    · obtain rfl := Option.some.inj (hparent.symm.trans hq)
      exact hadmits.forward (hkind.container_iff.mpr hcontainer) hroutine
  case forward =>
    intro i e he hforward
    refine ⟨Array.eq_empty_iff_forall_not_mem.mpr ?_,
      fun k child hchild => h.parent_ne_of_forward he hforward hchild⟩
    intro k hk
    obtain ⟨child, hchild, hparent⟩ := h.listed i e k he hk
    exact h.parent_ne_of_forward he hforward hchild hparent
  case qualifier =>
    intro i e he hqualifier
    rcases h.cases he with ⟨_, _, hroot⟩ | ⟨_, _, _, _, _, _, _, _, hadmits⟩
    · have hnone : e.qualifier = none := hroot.qualifier
      rw [hnone] at hqualifier
      cases hqualifier
    · exact hadmits.qualifier hqualifier
  case uses =>
    intro i e he huses
    rcases h.cases he with ⟨hi, _⟩ | ⟨_, _, _, _, _, _, _, _, hadmits⟩
    · exact hi
    · exact absurd hadmits.uses huses
  case root => exact fun i e he hkind => h.eq_zero_of_isModule he hkind

end Outline.Kinded

theorem Builder.profile?_of_get?_finish {b : Builder} (hroot : b.hasRoot = true) (eof : Location)
    (i : EntryId) : ((b.finish eof).get? i).map Entry.profile = b.profile? i := by
  rw [get?_finish hroot, ← b.profile?_popTimes eof b.unclosed i]
  split
  · rw [Option.map_map]
    rfl
  · rfl

/-- A builder whose entries stand where they may hands over such an outline. -/
theorem Builder.Kinded.finish {b : Builder} (h : b.Kinded) (harena : b.Arena) (eof : Location) :
    (b.finish eof).Kinded := by
  have hroot := harena.hasRoot
  have hprofile := b.profile?_of_get?_finish hroot eof
  have hof : ∀ {i e}, (b.finish eof).get? i = some e → b.profile? i = some e.profile := by
    intro i e he
    rw [← hprofile, he]
    rfl
  constructor
  case root => exact fun e he => h.root _ (hof he)
  case held =>
    intro i e he hi
    obtain ⟨id, q, holder, hparent, hq, hkind, hforward, hadmits⟩ := h.held i _ (hof he) hi
    rw [← hprofile] at hq
    obtain ⟨e', he', rfl⟩ := Option.map_eq_some_iff.mp hq
    exact ⟨id, e', holder, hparent, he', hkind, hforward, hadmits⟩
  case listed =>
    intro i e k he hk
    -- To stretch the root changes no links.
    have hclosed := harena.popTimes eof b.unclosed
    have hold : ∃ e₀, entry? (b.popTimes eof b.unclosed) i = some e₀ ∧
        e₀.children = e.children := by
      rw [get?_finish hroot] at he
      split at he
      · obtain ⟨e₀, he₀, rfl⟩ := Option.map_eq_some_iff.mp he
        exact ⟨e₀, he₀, rfl⟩
      · exact ⟨e, he, rfl⟩
    obtain ⟨e₀, he₀, hchildren⟩ := hold
    rw [← hchildren] at hk
    obtain ⟨child, hchild, hparent⟩ := (hclosed.mem_children_iff he₀).mp hk
    have hne : k ≠ 0 := Nat.ne_of_gt (Nat.zero_lt_of_lt (hclosed.parent_lt hchild hparent))
    exact ⟨child, by rw [get?_finish hroot, if_neg hne, hchild], hparent⟩

namespace State

variable (options : Options) (file : String) (lexemes : List Lexeme)

theorem kinded_root : (root options file lexemes).draft.builder.Kinded := by
  obtain ⟨p, hp, hroot⟩ := exists_profile?_root options file lexemes
  have hnext := nextId_root options file lexemes
  constructor
  · intro r hr
    rw [hp] at hr
    exact Option.some.inj hr ▸ hroot
  · intro i r hr hi
    have hlt : i < (root options file lexemes).nextId := Builder.lt_size_of_profile? hr
    rw [hnext] at hlt
    exact absurd (Nat.lt_one_iff.mp hlt) hi

/-- Everything that was declared, up to the end of the source. -/
theorem kinded_ofSource : (ofSource options file lexemes).draft.builder.Kinded := by
  have htracks := tracks_run options options file lexemes
  have hrun := htracks.steps.kinded (tracks_root options options file lexemes).stands
    (kinded_root options file lexemes)
  exact hrun.congr (Builder.Documents.profile?_eq (documents_finish _))

end State

/-- The outline of every source is well kinded. -/
theorem wellKinded_scan (options : Options) (file source : String) :
    (scan options file source).outline.WellKinded := by
  have hkinded := State.kinded_ofSource options file (Lexer.lex options.nestedComments source)
  have hreachable := State.reachable_run options file (Lexer.lex options.nestedComments source)
  have harena := hreachable.agrees.arena.of_sameFrame (State.documents_finish _).sameFrame
  exact (hkinded.finish harena _).wellKinded

end PascalOutline
