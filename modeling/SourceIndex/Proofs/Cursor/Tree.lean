import SourceIndex.Cursor.Tree

/-!
# Changes to an arena

Each change to a tree is described by what it does to the size and to the single
nodes.  A new node that was pushed below an older one may be completed before or
after the push (`CursorTree.update_push`).
-/

namespace SourceIndex

/-- What a node is linked to besides its children. -/
def Node.entities (node : Node) : List NodeId :=
  node.definition.toList ++ node.referenced.toList

namespace CursorTree

/-- The children of a node; a missing node has none. -/
def childrenOf (tree : CursorTree) (id : NodeId) : List NodeId :=
  match tree.nodes[id]? with
  | none => []
  | some node => node.children.toList

theorem lt_size_of_mem_childrenOf {tree : CursorTree} {id child : NodeId}
    (hchild : child ∈ tree.childrenOf id) : id < tree.size := by
  rcases Nat.lt_or_ge id tree.nodes.size with hlt | hge
  · exact hlt
  · simp [childrenOf, Array.getElem?_eq_none hge] at hchild

@[simp] theorem size_update (tree : CursorTree) (id : NodeId) (change : Node → Node) :
    (tree.update id change).size = tree.size := by
  simp [update, size]

@[simp] theorem size_push (tree : CursorTree) (parent : NodeId) (node : Node) :
    (tree.push parent node).size = tree.size + 1 := by
  simp [push, append, size, update]

theorem getElem?_update (tree : CursorTree) (id other : NodeId) (change : Node → Node) :
    (tree.update id change).nodes[other]? =
      if id = other then (tree.nodes[other]?).map change else tree.nodes[other]? := by
  simp [update, Array.getElem?_modify]

/-- What a push does to each node.  The new node is there before its parent is changed, so
below a missing parent it can become its own child. -/
theorem getElem?_push_of_any (tree : CursorTree) (parent : NodeId) (node : Node) (id : NodeId) :
    (tree.push parent node).nodes[id]? =
      if id = parent then
        (if id = tree.size then some node else tree.nodes[id]?).map fun above =>
          { above with children := above.children.push tree.size }
      else if id = tree.size then some node else tree.nodes[id]? := by
  rw [push, getElem?_update, append, Array.getElem?_push]
  by_cases hid : id = parent
  · rw [if_pos hid, if_pos hid.symm]
    rfl
  · rw [if_neg hid, if_neg (Ne.symm hid)]
    rfl

theorem getElem?_push {tree : CursorTree} {parent : Nat} (hparent : parent < tree.size)
    (node : Node) (id : NodeId) :
    (tree.push parent node).nodes[id]? =
      if id = tree.size then some node
      else if id = parent then
        (tree.nodes[id]?).map fun above =>
          { above with children := above.children.push tree.size }
      else tree.nodes[id]? := by
  rw [getElem?_push_of_any]
  by_cases hid : id = tree.size
  · -- the parent is older than the new node, so one position has one change only
    have hne : ¬id = parent := by
      rw [hid]
      exact (Nat.ne_of_lt hparent).symm
    rw [if_neg hne, if_pos hid, if_pos hid]
  · rw [if_neg hid, if_neg hid]

/-- A change to the newest node may as well be made before it is pushed, if it does not
matter whether a child is added before or after it. -/
theorem update_push {change : Node → Node}
    (hchange : ∀ (child : NodeId) (node : Node),
      change { node with children := node.children.push child } =
        { change node with children := (change node).children.push child })
    (tree : CursorTree) (parent : NodeId) (node : Node) :
    (tree.push parent node).update tree.size change = tree.push parent (change node) := by
  simp only [push, append, update, size, CursorTree.mk.injEq, and_true, true_and]
  apply Array.ext_getElem?
  intro id
  simp only [Array.getElem?_modify, Array.getElem?_push]
  by_cases hid : id = tree.nodes.size
  · subst hid
    by_cases hparent : parent = tree.nodes.size
    · simpa [hparent] using hchange tree.nodes.size node
    · simp [hparent]
  · simp [hid, Ne.symm hid]

theorem childrenOf_push_new {tree : CursorTree} {parent : Nat} (hparent : parent < tree.size)
    (node : Node) : (tree.push parent node).childrenOf tree.size = node.children.toList := by
  simp [childrenOf, getElem?_push hparent]

theorem childrenOf_push_parent {tree : CursorTree} {parent : Nat} (hparent : parent < tree.size)
    (node : Node) :
    (tree.push parent node).childrenOf parent = tree.childrenOf parent ++ [tree.size] := by
  have hne : parent ≠ tree.size := Nat.ne_of_lt hparent
  have hget : tree.nodes[parent]? = some tree.nodes[parent] := Array.getElem?_eq_getElem hparent
  simp [childrenOf, getElem?_push hparent, hne, hget]

theorem childrenOf_push_of_ne {tree : CursorTree} {parent : Nat} (hparent : parent < tree.size)
    (node : Node) {id : NodeId} (hnew : id ≠ tree.size) (hother : id ≠ parent) :
    (tree.push parent node).childrenOf id = tree.childrenOf id := by
  simp [childrenOf, getElem?_push hparent, hnew, hother]

/-- A change that keeps the children of the changed node keeps all children. -/
theorem childrenOf_update {tree : CursorTree} {change : Node → Node}
    (hchange : ∀ node, (change node).children = node.children) (id other : NodeId) :
    (tree.update id change).childrenOf other = tree.childrenOf other := by
  rw [childrenOf, childrenOf, getElem?_update]
  by_cases hid : id = other
  · rw [if_pos hid]
    cases tree.nodes[other]? with
    | none => rfl
    | some node => simp [hchange]
  · rw [if_neg hid]

@[simp] theorem size_setDefinition (tree : CursorTree) (id target : NodeId) :
    (tree.setDefinition id target).size = tree.size :=
  size_update _ _ _

@[simp] theorem size_setReferenced (tree : CursorTree) (id target : NodeId) :
    (tree.setReferenced id target).size = tree.size :=
  size_update _ _ _

@[simp] theorem childrenOf_setDefinition (tree : CursorTree) (id target other : NodeId) :
    (tree.setDefinition id target).childrenOf other = tree.childrenOf other := by
  rw [setDefinition, childrenOf_update]
  exact fun _ => rfl

@[simp] theorem childrenOf_setReferenced (tree : CursorTree) (id target other : NodeId) :
    (tree.setReferenced id target).childrenOf other = tree.childrenOf other := by
  rw [setReferenced, childrenOf_update]
  exact fun _ => rfl

theorem setDefinition_comm {first second : NodeId} (hne : first ≠ second)
    (tree : CursorTree) (one two : NodeId) :
    (tree.setDefinition first one).setDefinition second two =
      (tree.setDefinition second two).setDefinition first one := by
  simp only [setDefinition, update, CursorTree.mk.injEq, and_true, true_and]
  apply Array.ext_getElem?
  intro id
  simp only [Array.getElem?_modify]
  by_cases hfirst : first = id
  · subst hfirst
    simp [Ne.symm hne]
  · simp [hfirst]

/-! ## Cards -/

end CursorTree

/-- What a cursor says about itself, apart from its children and what it refers to. -/
structure Card where
  kind : CursorKind
  spelling : String
  location : Location
  definition : Option NodeId
  deriving DecidableEq, Repr

/-- The card of a cursor. -/
def Node.card (node : Node) : Card where
  kind := node.kind
  spelling := node.spelling
  location := node.location
  definition := node.definition

namespace CursorTree

/-- The card of a node of a tree. -/
def card? (tree : CursorTree) (id : NodeId) : Option Card :=
  tree.nodes[id]?.map Node.card

theorem card?_push {tree : CursorTree} {parent : Nat} (hparent : parent < tree.size)
    (node : Node) (id : NodeId) :
    (tree.push parent node).card? id =
      if id = tree.size then some node.card else tree.card? id := by
  rw [card?, getElem?_push hparent]
  split
  · rfl
  · split
    · rw [Option.map_map]
      rfl
    · rfl

@[simp] theorem card?_setReferenced (tree : CursorTree) (id target other : NodeId) :
    (tree.setReferenced id target).card? other = tree.card? other := by
  rw [card?, setReferenced, getElem?_update]
  split
  · rw [Option.map_map]
    rfl
  · rfl

theorem card?_setDefinition (tree : CursorTree) (id target other : NodeId) :
    (tree.setDefinition id target).card? other =
      if id = other then (tree.card? other).map fun card => { card with definition := some target }
      else tree.card? other := by
  rw [card?, setDefinition, getElem?_update]
  split
  · rw [card?, Option.map_map, Option.map_map]
    rfl
  · rfl

theorem card?_of_getElem? {tree : CursorTree} {id : NodeId} {node : Node}
    (hnode : tree.nodes[id]? = some node) : tree.card? id = some node.card := by
  rw [card?, hnode]
  rfl

theorem lt_size_of_card? {tree : CursorTree} {id : NodeId} {card : Card}
    (hcard : tree.card? id = some card) : id < tree.size := by
  obtain ⟨node, hnode, -⟩ := Option.map_eq_some_iff.mp hcard
  exact (Array.getElem?_eq_some_iff.mp hnode).1

/-! ## References -/

/-- What a node of a tree refers to; a missing node refers to nothing. -/
def referenced? (tree : CursorTree) (id : NodeId) : Option NodeId :=
  tree.nodes[id]?.bind Node.referenced

theorem referenced?_of_getElem? {tree : CursorTree} {id : NodeId} {node : Node}
    (hnode : tree.nodes[id]? = some node) : tree.referenced? id = node.referenced := by
  rw [referenced?, hnode]
  rfl

theorem referenced?_push {tree : CursorTree} {parent : Nat} (hparent : parent < tree.size)
    (node : Node) (id : NodeId) :
    (tree.push parent node).referenced? id =
      if id = tree.size then node.referenced else tree.referenced? id := by
  rw [referenced?, getElem?_push hparent]
  split
  · rfl
  · split
    · rw [Option.bind_map]
      rfl
    · rfl

theorem referenced?_setReferenced {tree : CursorTree} {id other : Nat} (hother : other < tree.size)
    (target : NodeId) :
    (tree.setReferenced id target).referenced? other =
      if id = other then some target else tree.referenced? other := by
  have hnode : tree.nodes[other]? = some tree.nodes[other] := Array.getElem?_eq_getElem hother
  rw [referenced?, setReferenced, getElem?_update]
  split
  · rw [hnode]
    rfl
  · rfl

@[simp] theorem referenced?_setDefinition (tree : CursorTree) (id target other : NodeId) :
    (tree.setDefinition id target).referenced? other = tree.referenced? other := by
  rw [referenced?, setDefinition, getElem?_update]
  split
  · rw [Option.bind_map]
    rfl
  · rfl

/-! ## Targets of links -/

/-- The definition and the referenced entity of each node are nodes of the tree. -/
def Targeted (tree : CursorTree) : Prop :=
  ∀ (id : NodeId) (node : Node), tree.nodes[id]? = some node →
    ∀ target ∈ node.entities, target < tree.size

theorem Targeted.push {tree : CursorTree} (htree : tree.Targeted) {parent : Nat}
    (hparent : parent < tree.size) {node : Node}
    (hnode : ∀ target ∈ node.entities, target < tree.size + 1) :
    (tree.push parent node).Targeted := by
  intro id found hfound target htarget
  rw [size_push]
  rw [getElem?_push hparent] at hfound
  split at hfound
  · cases hfound
    exact hnode target htarget
  · split at hfound
    · obtain ⟨above, habove, rfl⟩ := Option.map_eq_some_iff.mp hfound
      exact Nat.lt_succ_of_lt (htree id above habove target htarget)
    · exact Nat.lt_succ_of_lt (htree id found hfound target htarget)

theorem Targeted.update {tree : CursorTree} (htree : tree.Targeted) (id : NodeId)
    {change : Node → Node} {added : NodeId} (hadded : added < tree.size)
    (hchange : ∀ node, ∀ target ∈ (change node).entities,
      target ∈ node.entities ∨ target = added) : (tree.update id change).Targeted := by
  intro other found hfound target htarget
  rw [size_update]
  rw [getElem?_update] at hfound
  split at hfound
  · obtain ⟨before, hbefore, rfl⟩ := Option.map_eq_some_iff.mp hfound
    rcases hchange before target htarget with hold | hnew
    · exact htree other before hbefore target hold
    · rw [hnew]
      exact hadded
  · exact htree other found hfound target htarget

theorem Targeted.setDefinition {tree : CursorTree} (htree : tree.Targeted) (id : NodeId)
    {target : NodeId} (htarget : target < tree.size) : (tree.setDefinition id target).Targeted := by
  refine htree.update id htarget fun node entity hentity => ?_
  simp only [Node.entities, List.mem_append, Option.toList_some, List.mem_singleton] at hentity ⊢
  exact hentity.elim .inr fun hreferenced => .inl (.inr hreferenced)

theorem Targeted.setReferenced {tree : CursorTree} (htree : tree.Targeted) (id : NodeId)
    {target : NodeId} (htarget : target < tree.size) : (tree.setReferenced id target).Targeted := by
  refine htree.update id htarget fun node entity hentity => ?_
  simp only [Node.entities, List.mem_append, Option.toList_some, List.mem_singleton] at hentity ⊢
  exact hentity.elim (fun hdefinition => .inl (.inl hdefinition)) .inr

end CursorTree
end SourceIndex
