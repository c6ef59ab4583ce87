import SourceIndex.Cursor.Walk
import SourceIndex.Proofs.Cursor.Links
import SourceIndex.Proofs.Cursor.Tree

/-!
# Trees numbered in pre-order

`CursorTree.Numbered tree tops first last` says that the cursors in `tops`,
together with everything below them, are the positions from `first` up to `last`
(exclusive) in depth first order.  Nothing is said about the targets of the other
links, and `last` need NOT be the size of the tree, so the property can be
followed while a tree grows.

For a tree that is numbered in pre-order from its root on:

* `CursorTree.Preordered.childLinks_perm`: the child lists together hold every
  position but the root exactly once;
* `CursorTree.Preordered.exists_parent`: every other cursor has exactly one parent,
  at a smaller position;
* `CursorTree.Preordered.traverse_eq`: a walk that always goes on below a cursor
  is a fold over the positions in ascending order.
-/

namespace SourceIndex
namespace CursorTree

/-- The cursors in `tops` and all below them are numbered depth first, from `first`
up to `last`. -/
inductive Numbered (tree : CursorTree) : List NodeId → Nat → Nat → Prop
  | nil (next : Nat) : Numbered tree [] next next
  | cons {rest : List NodeId} {top next last : Nat}
      (hbelow : Numbered tree (tree.childrenOf top) (top + 1) next)
      (hrest : Numbered tree rest next last) : Numbered tree (top :: rest) top last

/-- The positions of a tree are the numbers of its cursors in pre-order. -/
def Preordered (tree : CursorTree) : Prop :=
  Numbered tree (tree.childrenOf root) 1 tree.size

namespace Numbered

variable {tree other : CursorTree} {tops later : List NodeId} {first next last : Nat}

theorem first_le_last (hnum : Numbered tree tops first last) : first ≤ last := by
  induction hnum with
  | nil => exact Nat.le_refl _
  | cons _ _ ihbelow ihrest => omega

theorem append (hnum : Numbered tree tops first next) (hlater : Numbered tree later next last) :
    Numbered tree (tops ++ later) first last := by
  induction hnum with
  | nil => exact hlater
  | cons hbelow _ _ ihrest => exact .cons hbelow (ihrest hlater)

/-- Only the children of the numbered cursors matter. -/
theorem congr (hnum : Numbered tree tops first last)
    (hsame : ∀ id : Nat, first ≤ id → id < last → other.childrenOf id = tree.childrenOf id) :
    Numbered other tops first last := by
  induction hnum with
  | nil next => exact .nil next
  | @cons rest top next last hbelow hrest ihbelow ihrest =>
      have hle := hbelow.first_le_last
      have hle' := hrest.first_le_last
      refine .cons ?_ (ihrest fun id hid => hsame id (by omega))
      rw [hsame top (Nat.le_refl _) (by omega)]
      exact ihbelow fun id hid hid' => hsame id (by omega) (by omega)

/-- A range that starts with a cursor, in the order of the numbering. -/
theorem range_split {top next last : Nat} (hnext : top + 1 ≤ next) (hlast : next ≤ last) :
    List.range' top (last - top) =
      top :: (List.range' (top + 1) (next - (top + 1)) ++ List.range' next (last - next)) := by
  have hcount : last - top = (next - (top + 1)) + (last - next) + 1 := by omega
  have hstart : next = top + 1 + (next - (top + 1)) := by omega
  rw [hcount, List.range'_succ, ← List.range'_append_1, ← hstart]

/-- Each numbered cursor is listed once, on top or as a child of a numbered cursor,
and nothing else is. -/
theorem perm (hnum : Numbered tree tops first last) :
    (tops ++ (List.range' first (last - first)).flatMap tree.childrenOf).Perm
      (List.range' first (last - first)) := by
  induction hnum with
  | nil next => simp
  | @cons rest top next last hbelow hrest ihbelow ihrest =>
      rw [range_split hbelow.first_le_last hrest.first_le_last, List.flatMap_cons,
        List.flatMap_append, List.cons_append]
      -- the children of `top` belong to the numbers below it, the later tops to the others
      refine List.Perm.cons top ?_
      refine List.Perm.trans ?_ (ihbelow.append ihrest)
      rw [← List.append_assoc (tree.childrenOf top)]
      exact List.perm_append_comm_assoc _ _ _

theorem le_of_mem_tops (hnum : Numbered tree tops first last) {top : Nat} (htop : top ∈ tops) :
    first ≤ top := by
  have hmem := hnum.perm.mem_iff.mp (List.mem_append_left _ htop)
  rw [List.mem_range'_1] at hmem
  exact hmem.1

/-- Children come after their parents. -/
theorem lt_child (hnum : Numbered tree tops first last) {parent child : Nat}
    (hfirst : first ≤ parent) (hlast : parent < last) (hchild : child ∈ tree.childrenOf parent) :
    parent < child := by
  induction hnum with
  | nil => omega
  | @cons rest top next last hbelow hrest ihbelow ihrest =>
      -- the parent is the first cursor, is below it, or comes after it
      by_cases htop : parent = top
      · subst htop
        exact hbelow.le_of_mem_tops hchild
      · by_cases hnext : parent < next
        · exact ihbelow (by omega) hnext
        · exact ihrest (by omega) hlast

theorem mem_range_of_top (hnum : Numbered tree tops first last) {top : Nat} (htop : top ∈ tops) :
    first ≤ top ∧ top < last := by
  have hmem := hnum.perm.mem_iff.mp (List.mem_append_left _ htop)
  have hle := hnum.first_le_last
  rw [List.mem_range'_1] at hmem
  omega

theorem mem_range_of_child (hnum : Numbered tree tops first last) {parent child : Nat}
    (hfirst : first ≤ parent) (hlast : parent < last) (hchild : child ∈ tree.childrenOf parent) :
    first ≤ child ∧ child < last := by
  have hparent : parent ∈ List.range' first (last - first) := by
    rw [List.mem_range'_1]
    omega
  have hmem := hnum.perm.mem_iff.mp
    (List.mem_append_right _ (List.mem_flatMap.mpr ⟨parent, hparent, hchild⟩))
  rw [List.mem_range'_1] at hmem
  omega

end Numbered

/-! ## Subtrees -/

/-- A cursor is `top` or stands below it. -/
inductive Under (tree : CursorTree) (top : NodeId) : NodeId → Prop
  | self : Under tree top top
  | child {parent id : NodeId} (hparent : Under tree top parent)
      (hchild : id ∈ tree.childrenOf parent) : Under tree top id

/-- What has `top` and all children of what it has, has all below `top`. -/
theorem Under.mem_of_closed {tree : CursorTree} {top id : NodeId} {closed : List NodeId}
    (htop : top ∈ closed) (hclosed : ∀ parent ∈ closed, tree.childrenOf parent ⊆ closed)
    (hunder : tree.Under top id) : id ∈ closed := by
  induction hunder with
  | self => exact htop
  | child _ hchild ih => exact hclosed _ ih hchild

theorem Numbered.under {tree : CursorTree} {tops : List NodeId} {first last : Nat}
    (hnum : Numbered tree tops first last) {above : NodeId}
    (htops : ∀ top ∈ tops, tree.Under above top) {id : Nat} (hfirst : first ≤ id)
    (hlast : id < last) : tree.Under above id := by
  induction hnum with
  | nil => omega
  | @cons rest top next last hbelow hrest ihbelow ihrest =>
      by_cases htop : id = top
      · rw [htop]
        exact htops top (by simp)
      · by_cases hnext : id < next
        · refine ihbelow (fun child hchild => ?_) (by omega) hnext
          exact .child (htops top (by simp)) hchild
        · exact ihrest (fun later hlater => htops later (by simp [hlater])) (by omega) hlast

/-- The positions below a cursor follow its own. -/
theorem Numbered.under_iff {tree : CursorTree} {top last : Nat}
    (hnum : Numbered tree (tree.childrenOf top) (top + 1) last) {id : Nat} :
    tree.Under top id ↔ top ≤ id ∧ id < last := by
  have hle := hnum.first_le_last
  constructor
  · intro hunder
    induction hunder with
    | self => omega
    | @child parent id hparent hchild ih =>
        rcases Nat.eq_or_lt_of_le ih.1 with htop | hbelow
        · have hrange := hnum.mem_range_of_top (htop ▸ hchild)
          omega
        · have hrange := hnum.mem_range_of_child hbelow ih.2 hchild
          omega
  · rintro ⟨hfirst, hlast⟩
    rcases Nat.eq_or_lt_of_le hfirst with htop | hbelow
    · rw [← htop]
      exact .self
    · exact hnum.under (fun child hchild => .child .self hchild) hbelow hlast

/-! ## Walks -/

/-- A visit to the cursor at a position; where there is none, nothing is visited. -/
def visitAt {σ : Type} (tree : CursorTree) (see : σ → NodeId → Node → σ) (state : σ)
    (id : NodeId) : σ :=
  match tree.nodes[id]? with
  | none => state
  | some node => see state id node

/-- A walk over numbered cursors is a fold over their positions. -/
theorem Numbered.walk_append {σ : Type} {tree : CursorTree} {tops : List NodeId}
    {first last : Nat} {visit : Visitor σ} {see : σ → NodeId → Node → σ}
    (hvisit : ∀ state id node, tree.nodes[id]? = some node →
      visit state id node = some (see state id node, .descend))
    (hnum : Numbered tree tops first last) (hlast : last ≤ tree.size) (bound : Nat)
    (stack : List NodeId) (state : σ) :
    tree.walk visit (bound + (last - first)) (tops ++ stack) state =
      tree.walk visit bound stack
        ((List.range' first (last - first)).foldl (tree.visitAt see) state) := by
  induction hnum generalizing bound stack state with
  | nil next => simp
  | @cons rest top next last hbelow hrest ihbelow ihrest =>
      have hnext := hbelow.first_le_last
      have hrange := hrest.first_le_last
      have htop : top < tree.nodes.size := Nat.lt_of_lt_of_le (by omega) hlast
      have hnode : tree.nodes[top]? = some tree.nodes[top] := Array.getElem?_eq_getElem htop
      have hchildren : tree.childrenOf top = tree.nodes[top].children.toList := by
        rw [childrenOf, hnode]
      have hbound : bound + (last - top) =
          bound + (last - next) + (next - (top + 1)) + 1 := by omega
      -- one visit, then everything below the cursor, then the cursors after it
      rw [hbound, List.cons_append, walk]
      simp only [hnode, hvisit state top _ hnode]
      rw [← hchildren, ihbelow (by omega), ihrest hlast,
        Numbered.range_split hnext hrange, List.foldl_cons, List.foldl_append]
      rw [visitAt, hnode]

theorem WellLinked.targeted {tree : CursorTree} (hlinked : tree.WellLinked) : tree.Targeted := by
  intro id node hnode target htarget
  refine hlinked.targets node (Array.mem_toList_iff.mpr (Array.mem_of_getElem? hnode)) target ?_
  rw [Node.links, List.append_assoc]
  exact List.mem_append_right _ htarget

namespace Preordered

variable {tree : CursorTree}

theorem childLinks_eq_flatMap (tree : CursorTree) :
    tree.childLinks = (List.range tree.size).flatMap tree.childrenOf := by
  have hlists : tree.nodes.toList.map (fun node => node.children.toList) =
      (List.range tree.size).map tree.childrenOf := by
    apply List.ext_getElem
    · simp [size]
    · intro id hleft hright
      have hid : id < tree.nodes.size := by simpa using hleft
      simp [childrenOf, hid]
  rw [childLinks, List.flatMap_def, hlists, ← List.flatMap_def]

/-- All positions but the root, each once. -/
theorem childLinks_perm (hpre : tree.Preordered) (hroot : 0 < tree.size) :
    tree.childLinks.Perm (List.range' 1 (tree.size - 1)) := by
  have hrange : List.range tree.size = root :: List.range' 1 (tree.size - 1) := by
    rw [List.range_eq_range']
    exact Numbered.range_split (Nat.le_refl 1) hroot
  rw [childLinks_eq_flatMap, hrange, List.flatMap_cons]
  exact hpre.perm

/-- With targets for the other links, all links of the tree are sound. -/
theorem wellLinked (hpre : tree.Preordered) (hroot : 0 < tree.size)
    (htargeted : tree.Targeted) : tree.WellLinked := by
  have hperm := hpre.childLinks_perm hroot
  refine ⟨?_, ?_, ?_, ?_⟩
  · intro hempty
    simp [size, hempty] at hroot
  · intro node hnode target htarget
    rw [Node.links, List.append_assoc, List.mem_append] at htarget
    rcases htarget with hchild | hother
    · have hlink : target ∈ tree.childLinks := List.mem_flatMap.mpr ⟨node, hnode, hchild⟩
      have hrange := List.mem_range'_1.mp (hperm.mem_iff.mp hlink)
      exact Nat.lt_of_lt_of_le hrange.2 (by rw [Nat.add_sub_cancel' hroot]; exact Nat.le_refl _)
    · obtain ⟨id, hid⟩ := List.mem_iff_getElem?.mp hnode
      exact htargeted id node (by simpa using hid) target hother
  · intro hmem
    have hrange := List.mem_range'_1.mp (hperm.mem_iff.mp hmem)
    exact absurd hrange.1 (by decide)
  · exact hperm.nodup_iff.mpr List.nodup_range'

/-- No cursor is the child of two cursors. -/
theorem parent_unique (hpre : tree.Preordered) (hroot : 0 < tree.size) {p q child : Nat}
    (hp : child ∈ tree.childrenOf p) (hq : child ∈ tree.childrenOf q) : p = q := by
  have hnodup : tree.childLinks.Nodup :=
    (hpre.childLinks_perm hroot).nodup_iff.mpr List.nodup_range'
  rw [childLinks_eq_flatMap, List.Nodup, List.pairwise_flatMap] at hnodup
  -- child lists of different cursors have nothing in common
  have hapart : ∀ a b : Nat, a < b → child ∈ tree.childrenOf a → child ∉ tree.childrenOf b := by
    intro a b hab ha hb
    have hsize : b < tree.size := lt_size_of_mem_childrenOf hb
    have hpair := (List.pairwise_iff_getElem.mp hnodup.2) a b
      (by simpa using Nat.lt_trans hab hsize) (by simpa using hsize) hab
    simp only [List.getElem_range] at hpair
    exact hpair child ha child hb rfl
  rcases Nat.lt_trichotomy p q with hlt | heq | hgt
  · exact absurd hq (hapart p q hlt hp)
  · exact heq
  · exact absurd hp (hapart q p hgt hq)

/-- Every cursor but the root is the child of exactly one cursor, and comes after
it. -/
theorem exists_parent (hpre : tree.Preordered) {id : Nat} (hid : id < tree.size)
    (hne : id ≠ root) : ∃ parent < id, ∀ p, id ∈ tree.childrenOf p ↔ p = parent := by
  have hroot : 0 < tree.size := Nat.lt_of_le_of_lt (Nat.zero_le id) hid
  have hpos : 0 < id := Nat.pos_of_ne_zero hne
  have hlink : id ∈ tree.childLinks := by
    rw [(hpre.childLinks_perm hroot).mem_iff, List.mem_range'_1]
    omega
  rw [childLinks_eq_flatMap, List.mem_flatMap] at hlink
  obtain ⟨parent, hparent, hchild⟩ := hlink
  refine ⟨parent, ?_, fun p => ⟨fun hp => hpre.parent_unique hroot hp hchild, ?_⟩⟩
  · rcases Nat.eq_zero_or_pos parent with htop | hbelow
    · rw [htop]
      exact hpos
    · exact hpre.lt_child hbelow (List.mem_range.mp hparent) hchild
  · intro heq
    rw [heq]
    exact hchild

/-- A walk that always goes on below a cursor visits the positions from 1 on in
ascending order, and comes to its end. -/
theorem traverse_eq {σ : Type} (hpre : tree.Preordered) (hlinked : tree.WellLinked)
    {visit : Visitor σ} {see : σ → NodeId → Node → σ}
    (hvisit : ∀ state id node, tree.nodes[id]? = some node →
      visit state id node = some (see state id node, .descend)) (state : σ) :
    tree.traverse visit state =
      ((List.range' 1 (tree.size - 1)).foldl (tree.visitAt see) state, .finished) := by
  have hroot : 0 < tree.nodes.size := Array.size_pos_iff.mpr hlinked.nonempty
  have htop : tree.nodes[root]? = some tree.nodes[root] := Array.getElem?_eq_getElem hroot
  have hchildren : tree.childrenOf root = tree.nodes[root].children.toList := by
    rw [childrenOf, htop]
  -- the bound is one more than the number of visits
  have hbound : tree.visitBound = 1 + (tree.size - 1) := by
    rw [visitBound, (linkFault?_eq_none_iff tree).mpr hlinked]
    exact (Nat.add_sub_cancel' hroot).symm
  rw [traverse, htop]
  simp only [← hchildren]
  rw [hbound, ← List.append_nil (tree.childrenOf root),
    Numbered.walk_append hvisit hpre (Nat.le_refl _)]
  rfl

end Preordered
end CursorTree
end SourceIndex
