import PascalOutline.Proofs.Outline.Bare

/-! # Outlines as trees

  The entries of an outline lie in an array and name the entries that they
  hold. Followed from the root downwards they are a tree, which `treeAt?`
  reads off. A tree laid out in an array has its nodes one after the other,
  each one before the nodes that it holds, and `Builder.Plants` says that a
  builder did just that below its innermost open entry. Trees that are planted
  one after the other, and one inside of the other, are read off again.
-/

namespace PascalOutline

/-! ### Labels and trees -/

/-- What an entry declares. -/
structure Label where
  /-- What kind of thing it is. -/
  kind : EntryKind
  /-- Its name. -/
  name : String
  /-- The declared type. -/
  typeText : String := ""
  /-- The visibility of a member. -/
  visibility : Option Visibility := none
  /-- Whether it is declared here and defined elsewhere. -/
  forward : Bool := false
deriving DecidableEq, Repr

/-- What an entry declares, without what it holds. -/
def Entry.label (e : Entry) : Label :=
  { kind := e.kind, name := e.name, typeText := e.typeText, visibility := e.visibility
    forward := e.forward }

/-- A tree of labels. -/
inductive Tree where
  /-- A label above some trees. -/
  | node (label : Label) (children : List Tree)

/-- The tree of an entry and all that it holds; nothing if it is deeper than
    `limit`, or if an entry is missing. -/
def Outline.treeAt? (o : Outline) : (limit : Nat) → EntryId → Option Tree
  | 0, _ => none
  | limit + 1, id =>
    (o.get? id).bind fun e => (e.children.toList.mapM (o.treeAt? limit)).map (.node e.label)

/-- The tree of an outline. -/
def Outline.tree? (o : Outline) : Option Tree :=
  o.treeAt? o.size 0

namespace Tree

mutual

/-- The number of nodes of a tree. -/
def size : Tree → Nat
  | .node _ children => 1 + sizes children

/-- The number of nodes of some trees. -/
def sizes : List Tree → Nat
  | [] => 0
  | t :: ts => t.size + sizes ts

end

/-! ### Trees in an array -/

/-- The places of the roots of trees that are laid out from a place on. -/
def roots (place : Nat) : List Tree → List EntryId
  | [] => []
  | t :: ts => place :: roots (place + t.size) ts

end Tree

/-- An entry of an array that a tree is laid out in. -/
structure Node where
  /-- What it declares. -/
  label : Label
  /-- The places of the entries that it holds. -/
  children : List EntryId

namespace Tree

mutual

/-- The nodes of a tree that is laid out from a place on. -/
def nodes (place : Nat) : Tree → List Node
  | .node label children => ⟨label, roots (place + 1) children⟩ :: forest (place + 1) children

/-- The nodes of trees that are laid out from a place on. -/
def forest (place : Nat) : List Tree → List Node
  | [] => []
  | t :: ts => t.nodes place ++ forest (place + t.size) ts

end

mutual

theorem length_nodes (place : Nat) : (t : Tree) → (t.nodes place).length = t.size
  | .node label children => by
    rw [nodes, size, List.length_cons, length_forest, Nat.add_comm]

theorem length_forest (place : Nat) : (ts : List Tree) → (forest place ts).length = sizes ts
  | [] => rfl
  | t :: ts => by
    rw [forest, sizes, List.length_append, length_nodes, length_forest]

end

theorem roots_append (place : Nat) (ts us : List Tree) :
    roots place (ts ++ us) = roots place ts ++ roots (place + sizes ts) us := by
  induction ts generalizing place with
  | nil => simp [roots, sizes]
  | cons t ts ih => simp [roots, sizes, ih, Nat.add_assoc]

theorem forest_append (place : Nat) (ts us : List Tree) :
    forest place (ts ++ us) = forest place ts ++ forest (place + sizes ts) us := by
  induction ts generalizing place with
  | nil => simp [forest, sizes]
  | cons t ts ih => simp [forest, sizes, ih, Nat.add_assoc]

end Tree

/-! ### Reading a tree off -/

/-- What an entry declares and holds. -/
def Entry.node (e : Entry) : Node :=
  ⟨e.label, e.children.toList⟩

namespace Outline

/-- What the entries of an outline declare and hold. -/
def nodes (o : Outline) : List Node :=
  o.entries.toList.map Entry.node

/-- What entries declare and hold does not depend on their layout. -/
theorem nodes_congr {o o' : Outline} (h : o.bareEntries = o'.bareEntries) : o.nodes = o'.nodes := by
  have hbare (o : Outline) : o.nodes = o.bareEntries.toList.map Entry.node := by
    rw [nodes, bareEntries, Array.toList_map, List.map_map]
    rfl
  rw [hbare o, hbare o', h]

mutual

/-- A tree that is laid out in an outline is read off again. -/
theorem treeAt?_of_prefix (o : Outline) {limit place : Nat} : (t : Tree) →
    t.nodes place <+: o.nodes.drop place → t.size ≤ limit → o.treeAt? limit place = some t
  | .node label children, hlaid, hlimit => by
    cases limit with
    | zero => simp [Tree.size] at hlimit
    | succ limit =>
      rw [Tree.nodes] at hlaid
      obtain ⟨rest, hrest⟩ := hlaid
      have hhead : o.nodes[place]? = some ⟨label, Tree.roots (place + 1) children⟩ := by
        rw [← List.head?_drop, ← hrest]
        rfl
      obtain ⟨e, he, hnode⟩ : ∃ e, o.get? place = some e ∧
          e.node = ⟨label, Tree.roots (place + 1) children⟩ := by
        simpa [nodes, get?] using hhead
      have hlabel : e.label = label := congrArg Node.label hnode
      have hchildren : e.children.toList = Tree.roots (place + 1) children :=
        congrArg Node.children hnode
      -- The nodes below the root follow it.
      have hbelow : Tree.forest (place + 1) children <+: o.nodes.drop (place + 1) := by
        rw [← List.tail_drop, ← hrest]
        exact ⟨rest, rfl⟩
      have hmap := o.mapM_treeAt?_of_prefix children hbelow
        (show Tree.sizes children ≤ limit by simp [Tree.size] at hlimit; omega)
      rw [treeAt?, he, Option.bind_some, hchildren, hmap, hlabel]
      rfl

theorem mapM_treeAt?_of_prefix (o : Outline) {limit place : Nat} : (ts : List Tree) →
    Tree.forest place ts <+: o.nodes.drop place → Tree.sizes ts ≤ limit →
      (Tree.roots place ts).mapM (o.treeAt? limit) = some ts
  | [], _, _ => rfl
  | t :: ts, hlaid, hlimit => by
    rw [Tree.sizes] at hlimit
    rw [Tree.forest] at hlaid
    obtain ⟨rest, hrest⟩ := hlaid
    rw [List.append_assoc] at hrest
    have hfirst : o.treeAt? limit place = some t :=
      o.treeAt?_of_prefix t ⟨_, hrest⟩ (by omega)
    have hothers : Tree.forest (place + t.size) ts <+: o.nodes.drop (place + t.size) := by
      rw [← List.drop_drop, ← hrest, ← t.length_nodes place, List.drop_left]
      exact ⟨rest, rfl⟩
    have hmap := o.mapM_treeAt?_of_prefix ts hothers (show Tree.sizes ts ≤ limit by omega)
    rw [Tree.roots, List.mapM_cons, hfirst, hmap]
    rfl

end

/-- An outline whose entries are the nodes of a tree is that tree. -/
theorem tree?_of_nodes {o : Outline} {t : Tree} (h : o.nodes = t.nodes 0) :
    o.tree? = some t ∧ o.size = t.size := by
  have hsize : o.size = t.size := by
    rw [← t.length_nodes 0, ← h]
    simp [nodes, size]
  refine ⟨o.treeAt?_of_prefix t ⟨[], ?_⟩ (Nat.le_of_eq hsize.symm), hsize⟩
  rw [List.append_nil, List.drop_zero, h]

end Outline

/-! ### Planting -/

theorem modify_append_left {α : Type} {l : List α} {i : Nat} (f : α → α) (h : i < l.length)
    (r : List α) : (l ++ r).modify i f = l.modify i f ++ r := by
  induction l generalizing i with
  | nil => cases h
  | cons x l ih =>
    cases i with
    | zero => rfl
    | succ i => exact congrArg (x :: ·) (ih (Nat.lt_of_succ_lt_succ h))

theorem modify_append_length {α : Type} (l : List α) (f : α → α) (x : α) (r : List α) :
    (l ++ x :: r).modify l.length f = l ++ f x :: r := by
  induction l with
  | nil => rfl
  | cons y l ih => exact congrArg (y :: ·) ih

/-- A node that holds more entries. -/
def Node.adopt (ids : List EntryId) (n : Node) : Node :=
  { n with children := n.children ++ ids }

namespace Builder

/-- What the entries of a builder declare and hold. -/
def nodes (b : Builder) : List Node :=
  b.entries.toList.map Entry.node

theorem length_nodes (b : Builder) : b.nodes.length = b.nextId := by
  simp [nodes, nextId]

theorem nodes_bare (b : Builder) : b.bare.nodes = b.nodes := by
  rw [nodes, nodes, bare, Array.toList_map, List.map_map]
  rfl

theorem nodes_congr {b b' : Builder} (h : b.bare = b'.bare) : b.nodes = b'.nodes := by
  rw [← b.nodes_bare, h, nodes_bare]

theorem nodes_modify {f : Entry → Entry} {g : Node → Node} (hf : ∀ e, (f e).node = g e.node)
    (b : Builder) (id : EntryId) : (b.modify id f).nodes = b.nodes.modify id g := by
  have hfg : Entry.node ∘ f = g ∘ Entry.node := funext hf
  apply List.ext_getElem?
  intro i
  rw [nodes, nodes, modify, Array.toList_modify, List.getElem?_modify, List.getElem?_map,
    List.getElem?_map, List.getElem?_modify]
  by_cases hi : id = i
  · simp only [hi, if_true, Option.map_eq_map, Option.map_map, hfg]
  · simp [hi]

/-- The finished outline, if nothing but the root is open. -/
theorem nodes_finish {b : Builder} (hroot : b.hasRoot = true) (hclosed : b.unclosed = 0)
    (eof : Location) : (b.finish eof).nodes = b.nodes := by
  have hwhole : (b.finish eof).entries = (b.modify 0 fun root =>
      { root with start := .start, stop := max eof .start }).entries := by
    simp only [finish, withRoot, if_pos hroot, hclosed, popTimes]
    rfl
  rw [Outline.nodes, hwhole]
  refine (b.nodes_modify (g := id) ?_ 0).trans (List.modify_id 0 b.nodes)
  intro e
  rfl

/-- New entries go under an entry that exists. -/
structure OpenAt (b : Builder) (p : EntryId) : Prop where
  /-- It is the innermost open one. -/
  top : b.top? = some p
  /-- It exists. -/
  lt : p < b.nextId

theorem OpenAt.hasRoot {b : Builder} {p : EntryId} (h : b.OpenAt p) : b.hasRoot = true := by
  have hlt : 0 < b.entries.size := Nat.zero_lt_of_lt h.lt
  simp only [Builder.hasRoot, Array.isEmpty, Bool.not_eq_true', decide_eq_false_iff_not]
  omega

theorem nodes_insert {b : Builder} {p : EntryId} (h : b.OpenAt p) (e : Entry) :
    (b.insert e).nodes = b.nodes.modify p (Node.adopt [b.nextId]) ++ [⟨e.label, []⟩] := by
  have hadopt : ∀ e : Entry, Entry.node { e with children := e.children.push b.nextId }
      = e.node.adopt [b.nextId] := by
    intro e
    simp [Entry.node, Node.adopt, Entry.label]
  rw [← b.nodes_modify hadopt p]
  simp only [insert, h.top, nodes, modify, Array.toList_push, List.map_append]
  rfl

theorem nextId_push {b : Builder} {p : EntryId} (hp : b.OpenAt p) (e : Entry) :
    (b.push e).nextId = b.nextId + 1 := by
  rw [← length_nodes, show (b.push e).nodes = _ from nodes_insert hp e]
  simp [length_nodes]

theorem openAt_push {b : Builder} {p : EntryId} (hp : b.OpenAt p) (e : Entry) :
    (b.push e).OpenAt b.nextId := by
  refine ⟨rfl, ?_⟩
  rw [nextId_push hp]
  exact Nat.lt_succ_self _

/-- `b'` is `b` with some trees below the entry `p`. -/
structure Plants (p : EntryId) (b : Builder) (trees : List Tree) (b' : Builder) : Prop where
  /-- The same entries are open. -/
  stack : b'.stack = b.stack
  /-- The new nodes stand at the end, and `p` holds their roots. -/
  nodes : b'.nodes = b.nodes.modify p (Node.adopt (Tree.roots b.nextId trees))
    ++ Tree.forest b.nextId trees

namespace Plants

variable {p : EntryId} {b b' b'' : Builder} {ts us : List Tree}

theorem nextId_eq (h : Plants p b ts b') : b'.nextId = b.nextId + Tree.sizes ts := by
  rw [← length_nodes, h.nodes, List.length_append, List.length_modify, length_nodes,
    Tree.length_forest]

theorem openAt (h : Plants p b ts b') (hp : b.OpenAt p) : b'.OpenAt p := by
  refine ⟨?_, ?_⟩
  · rw [top?, h.stack]
    exact hp.top
  · rw [h.nextId_eq]
    exact Nat.lt_add_right _ hp.lt

theorem nil (h : b.bare = b'.bare) : Plants p b [] b' := by
  refine ⟨(stack_congr h).symm, ?_⟩
  have hsame : Node.adopt [] = id := by
    funext n
    simp [Node.adopt]
  rw [Tree.roots, Tree.forest, hsame, List.modify_id, List.append_nil, nodes_congr h]

theorem append (hp : b.OpenAt p) (h : Plants p b ts b') (h' : Plants p b' us b'') :
    Plants p b (ts ++ us) b'' := by
  refine ⟨h'.stack.trans h.stack, ?_⟩
  have hlt : p < (b.nodes.modify p (Node.adopt (Tree.roots b.nextId ts))).length := by
    rw [List.length_modify, length_nodes]
    exact hp.lt
  have hadopt : Node.adopt (Tree.roots b.nextId (ts ++ us))
      = Node.adopt (Tree.roots b'.nextId us) ∘ Node.adopt (Tree.roots b.nextId ts) := by
    funext n
    simp [Node.adopt, Tree.roots_append, h.nextId_eq]
  rw [h'.nodes, h.nodes, modify_append_left _ hlt, List.modify_modify_eq, hadopt, h.nextId_eq,
    Tree.forest_append, List.append_assoc]

/-- A complete entry is a tree of its own. -/
theorem leaf (hp : b.OpenAt p) (e : Entry) : Plants p b [.node e.label []] (b.addLeaf e) := by
  have hleaf : b.addLeaf e = (b.insert e).close b.nextId e.stop := by
    rw [addLeaf, if_pos hp.hasRoot]
  refine ⟨by rw [hleaf]; rfl, ?_⟩
  rw [hleaf, nodes_congr (bare_close _ _ _), nodes_insert hp]
  rfl

/-- Complete entries are trees next to each other. -/
theorem leaves (hp : b.OpenAt p) {entries : List Entry} {labels : List Label}
    (h : entries.map Entry.label = labels) :
    Plants p b (labels.map fun label => .node label []) (entries.foldl addLeaf b) := by
  induction entries generalizing b labels with
  | nil =>
    obtain rfl := h
    exact .nil rfl
  | cons e entries ih =>
    obtain rfl := h
    have hleaf := leaf hp e
    exact hleaf.append hp (ih (hleaf.openAt hp) rfl)

/-- An entry that was opened, then trees inside of it, and then perhaps a
    change of the entry before it is closed. -/
theorem node (hp : b.OpenAt p) {e : Entry} (h : Plants b.nextId (b.push e) ts b')
    {f : Entry → Entry} {g : Label → Label}
    (hf : ∀ e, (f e).label = g e.label ∧ (f e).children = e.children) (stop : Location) :
    Plants p b [.node (g e.label) ts] ((b'.modify b.nextId f).pop stop) := by
  have hopen : b.stack ≠ [] := by
    intro hnil
    have htop := hp.top
    rw [top?, hnil] at htop
    cases htop
  obtain ⟨q, rest, hrest⟩ := List.exists_cons_of_ne_nil hopen
  have hstack : b'.stack = b.nextId :: q :: rest := by
    rw [h.stack, ← hrest]
    rfl
  have hpop : (b'.modify b.nextId f).pop stop
      = { (b'.modify b.nextId f).close b.nextId stop with stack := b.stack } := by
    simp [pop, closable?, modify, hstack, hrest]
  have hrelabel : ∀ e, (f e).node = (fun n : Node => { n with label := g n.label }) e.node := by
    intro e
    rw [Entry.node, (hf e).1, (hf e).2]
    rfl
  -- The new entry stands right after the old ones, and the trees after it.
  have hbefore : (b.nodes.modify p (Node.adopt [b.nextId])).length = b.nextId := by
    rw [List.length_modify, length_nodes]
  have hnodes : b'.nodes = b.nodes.modify p (Node.adopt [b.nextId])
      ++ ⟨e.label, Tree.roots (b.nextId + 1) ts⟩ :: Tree.forest (b.nextId + 1) ts := by
    rw [h.nodes, nextId_push hp, show (b.push e).nodes = _ from nodes_insert hp e]
    conv => lhs; arg 1; arg 2; rw [← hbefore]
    rw [modify_append_length, List.append_assoc]
    rfl
  refine ⟨by rw [hpop], ?_⟩
  calc ((b'.modify b.nextId f).pop stop).nodes
      = (b'.modify b.nextId f).nodes := by
        rw [hpop]
        show ((b'.modify b.nextId f).close b.nextId stop).nodes = _
        exact nodes_congr (bare_close _ _ _)
    _ = b'.nodes.modify b.nextId fun n => { n with label := g n.label } :=
        b'.nodes_modify hrelabel _
    _ = _ := by
        rw [hnodes]
        conv => lhs; arg 2; rw [← hbefore]
        rw [modify_append_length, Tree.forest, Tree.forest, Tree.nodes, List.append_nil]
        rfl

end Plants

end Builder

end PascalOutline
