import Mathlib.Data.List.Flatten
import Mathlib.Data.List.Perm.Subperm
import SourceIndex.Proofs.Cursor.Preorder
import SourceIndex.Proofs.Cursor.Saved

/-!
# Walks over accepted trees

The link check allows cursors that cannot be reached from the root, and these may
even be each other's children in a circle.  A walk never meets them: a cursor comes
onto the stack as a child of the root or of a cursor that was visited, no cursor is
listed as a child twice, and the root never.

`CursorTree.Underway tree visited stack` is the invariant.  It counts the listings:
what was visited and what is on the stack are, taken together, some of the children
of the root and of the visited cursors.  Since all child lists together have no
cursor twice, nothing comes back (`Underway.nodup`), and the number of visits is
bounded by the size of the tree (`Underway.length_lt`).

The main statement is `CursorTree.ofBytes_walk_safe`.  It is about any visitor: what
it answers may depend on everything it has seen.
-/

namespace SourceIndex

/-- A visitor that also notes the cursors it was shown, in order. -/
def Visitor.noting {σ : Type} (visit : Visitor σ) : Visitor (σ × List NodeId) :=
  fun noted id node =>
    (visit noted.1 id node).map fun answer => ((answer.1, noted.2 ++ [id]), answer.2)

namespace CursorTree

/-! ## Two walks side by side -/

/-- Two visitors that answer alike in related states, and keep them related. -/
def Alike {σ τ : Type} (tree : CursorTree) (related : σ → τ → Prop) (visit : Visitor σ)
    (other : Visitor τ) : Prop :=
  ∀ first second id node, tree.nodes[id]? = some node → related first second →
    (visit first id node = none ∧ other second id node = none) ∨
      ∃ firstAfter secondAfter answer, visit first id node = some (firstAfter, answer) ∧
        other second id node = some (secondAfter, answer) ∧ related firstAfter secondAfter

/-- Visitors that answer alike make the same walk. -/
theorem Alike.walk {σ τ : Type} {tree : CursorTree} {related : σ → τ → Prop}
    {visit : Visitor σ} {other : Visitor τ} (halike : Alike tree related visit other)
    (bound : Nat) (stack : List NodeId) {first : σ} {second : τ} (hstart : related first second) :
    related (tree.walk visit bound stack first).1 (tree.walk other bound stack second).1 ∧
      (tree.walk visit bound stack first).2 = (tree.walk other bound stack second).2 := by
  induction bound generalizing stack first second with
  | zero =>
      cases stack with
      | nil => exact ⟨hstart, rfl⟩
      | cons id stack => exact ⟨hstart, rfl⟩
  | succ bound ih =>
      cases stack with
      | nil => exact ⟨hstart, rfl⟩
      | cons id stack =>
          rw [CursorTree.walk, CursorTree.walk]
          cases hnode : tree.nodes[id]? with
          | none => exact ⟨hstart, rfl⟩
          | some node =>
              dsimp only
              rcases halike first second id node hnode hstart with
                ⟨hnone, hnone'⟩ | ⟨firstAfter, secondAfter, answer, hfirst, hsecond, hafter⟩
              · rw [hnone, hnone']
                exact ⟨hstart, rfl⟩
              · rw [hfirst, hsecond]
                cases answer with
                | stop => exact ⟨hafter, rfl⟩
                | skip => exact ih stack hafter
                | descend => exact ih (node.children.toList ++ stack) hafter

theorem Alike.traverse {σ τ : Type} {tree : CursorTree} {related : σ → τ → Prop}
    {visit : Visitor σ} {other : Visitor τ} (halike : Alike tree related visit other)
    {first : σ} {second : τ} (hstart : related first second) :
    related (tree.traverse visit first).1 (tree.traverse other second).1 ∧
      (tree.traverse visit first).2 = (tree.traverse other second).2 := by
  unfold CursorTree.traverse
  cases tree.nodes[root]? with
  | none => exact ⟨hstart, rfl⟩
  | some top => exact halike.walk _ _ hstart

/-- Taking notes does not change a walk. -/
theorem alike_noting {σ : Type} (tree : CursorTree) (visit : Visitor σ) :
    Alike tree (fun noted state => noted.1 = state) visit.noting visit := by
  intro noted state id node _ hsame
  subst hsame
  cases hanswer : visit noted.1 id node with
  | none => exact .inl ⟨by simp [Visitor.noting, hanswer], rfl⟩
  | some answer =>
      exact .inr ⟨(answer.1, noted.2 ++ [id]), answer.1, answer.2,
        by simp [Visitor.noting, hanswer], rfl, rfl⟩

/-- A walk that does not use up its bound is not changed by a greater one. -/
theorem walk_eq_of_le {σ : Type} {tree : CursorTree} {visit : Visitor σ} {bound more : Nat}
    (hmore : bound ≤ more) {stack : List NodeId} {state : σ}
    (hend : (tree.walk visit bound stack state).2 ≠ .unbounded) :
    tree.walk visit more stack state = tree.walk visit bound stack state := by
  induction bound generalizing more stack state with
  | zero =>
      cases stack with
      | nil => cases more <;> rfl
      | cons id stack => exact absurd rfl hend
  | succ bound ih =>
      obtain ⟨later, rfl⟩ : ∃ later, more = later + 1 := ⟨more - 1, by omega⟩
      cases stack with
      | nil => rfl
      | cons id stack =>
          rw [walk] at hend ⊢
          rw [walk]
          cases hnode : tree.nodes[id]? with
          | none => rfl
          | some node =>
              simp only [hnode] at hend ⊢
              cases hanswer : visit state id node with
              | none => rfl
              | some answer =>
                  obtain ⟨after, next⟩ := answer
                  simp only [hanswer] at hend ⊢
                  cases next with
                  | stop => rfl
                  | skip => exact ih (Nat.le_of_succ_le_succ hmore) hend
                  | descend => exact ih (Nat.le_of_succ_le_succ hmore) hend

/-! ## What a walk can meet -/

/-- Taking fewer lists together gives fewer items, each as often at most. -/
theorem subperm_flatMap {α β : Type} {few many : List α} (hfew : few.Subperm many)
    (lists : α → List β) : (few.flatMap lists).Subperm (many.flatMap lists) := by
  obtain ⟨part, hperm, hpart⟩ := hfew
  exact (hperm.flatMap_right lists).symm.subperm.trans (hpart.flatMap lists).subperm

/-- A walk has visited some cursors and has others on its stack: none was visited
twice, and all of them are listed as children of the root or of visited cursors. -/
structure Underway (tree : CursorTree) (visited stack : List NodeId) : Prop where
  fresh : (root :: visited).Nodup
  listed : (visited ++ stack).Subperm ((root :: visited).flatMap tree.childrenOf)

namespace Underway

variable {tree : CursorTree} {visited stack : List NodeId}

theorem start (tree : CursorTree) : Underway tree [] (tree.childrenOf root) where
  fresh := by simp
  listed := by
    rw [List.flatMap_cons, List.flatMap_nil, List.append_nil, List.nil_append]

theorem mem_childLinks (hway : Underway tree visited stack) {id : NodeId}
    (hid : id ∈ visited ++ stack) : id ∈ tree.childLinks := by
  obtain ⟨parent, -, hchild⟩ := List.mem_flatMap.mp (hway.listed.subset hid)
  rw [Preordered.childLinks_eq_flatMap]
  exact List.mem_flatMap.mpr
    ⟨parent, List.mem_range.mpr (lt_size_of_mem_childrenOf hchild), hchild⟩

end Underway

theorem WellLinked.lt_size_of_mem_childLinks {tree : CursorTree} (hlinked : tree.WellLinked)
    {id : NodeId} (hid : id ∈ tree.childLinks) : id < tree.size := by
  obtain ⟨node, hnode, hchild⟩ := List.mem_flatMap.mp hid
  refine hlinked.targets node hnode id ?_
  rw [Node.links, List.append_assoc]
  exact List.mem_append_left _ hchild

theorem WellLinked.root_lt_size {tree : CursorTree} (hlinked : tree.WellLinked) :
    root < tree.size :=
  Array.size_pos_iff.mpr hlinked.nonempty

namespace Underway

variable {tree : CursorTree} {visited stack : List NodeId}

/-- The root, the visited cursors and those on the stack are all different. -/
theorem nodup (hway : Underway tree visited stack) (hlinked : tree.WellLinked) :
    (root :: (visited ++ stack)).Nodup := by
  have hrange : (root :: visited) ⊆ List.range tree.size := by
    intro id hid
    rw [List.mem_range]
    rcases List.mem_cons.mp hid with rfl | hvisited
    · exact hlinked.root_lt_size
    · exact hlinked.lt_size_of_mem_childLinks
        (hway.mem_childLinks (List.mem_append_left _ hvisited))
  -- different cursors have different places among the child lists of the tree
  have hlists : (visited ++ stack).Subperm tree.childLinks := by
    rw [Preordered.childLinks_eq_flatMap]
    exact hway.listed.trans (subperm_flatMap (hway.fresh.subperm hrange) _)
  obtain ⟨part, hperm, hpart⟩ := hlists
  refine List.nodup_cons.mpr ⟨fun hroot => hlinked.rootFree (hway.mem_childLinks hroot), ?_⟩
  exact hperm.nodup_iff.mp (hpart.nodup hlinked.oneParent)

theorem lt_size (hway : Underway tree visited stack) (hlinked : tree.WellLinked) {id : NodeId}
    (hid : id ∈ visited ++ stack) : id < tree.size :=
  hlinked.lt_size_of_mem_childLinks (hway.mem_childLinks hid)

/-- There is room in the tree for the root, the visited cursors and the stack. -/
theorem length_lt (hway : Underway tree visited stack) (hlinked : tree.WellLinked) :
    visited.length + stack.length < tree.size := by
  have hrange : (root :: (visited ++ stack)) ⊆ List.range tree.size := by
    intro id hid
    rw [List.mem_range]
    rcases List.mem_cons.mp hid with rfl | hmet
    · exact hlinked.root_lt_size
    · exact hway.lt_size hlinked hmet
  have hlength := ((hway.nodup hlinked).subperm hrange).length_le
  rw [List.length_cons, List.length_append, List.length_range] at hlength
  exact hlength

/-- A visit that goes on below the cursor. -/
theorem descend {id : NodeId} (hway : Underway tree visited (id :: stack))
    (hlinked : tree.WellLinked) :
    Underway tree (visited ++ [id]) (tree.childrenOf id ++ stack) where
  fresh := by
    refine (hway.nodup hlinked).sublist ?_
    simp
  listed := by
    have hmoved : ((visited ++ [id]) ++ (tree.childrenOf id ++ stack)).Perm
        ((visited ++ id :: stack) ++ tree.childrenOf id) := by
      have hswap : (tree.childrenOf id ++ stack).Perm (stack ++ tree.childrenOf id) :=
        List.perm_append_comm
      simpa using (hswap.cons id).append_left visited
    have hlists : (root :: (visited ++ [id])).flatMap tree.childrenOf =
        (root :: visited).flatMap tree.childrenOf ++ tree.childrenOf id := by
      simp
    rw [hlists]
    exact hmoved.subperm.trans (hway.listed.append (List.Subperm.refl _))

/-- A visit that leaves out what is below the cursor. -/
theorem skip {id : NodeId} (hway : Underway tree visited (id :: stack))
    (hlinked : tree.WellLinked) : Underway tree (visited ++ [id]) stack where
  fresh := (hway.descend hlinked).fresh
  listed := by
    refine List.Subperm.trans (List.Sublist.subperm ?_) (hway.descend hlinked).listed
    exact (List.Sublist.refl _).append (List.sublist_append_right _ _)

end Underway

/-! ## Whole walks -/

/-- How a walk over a well linked tree can end: it comes to its end, or the visitor
has no answer for a cursor that it was not shown before. -/
def EndsWell {σ : Type} (tree : CursorTree) (visit : Visitor σ) (visited : List NodeId)
    (ending : WalkEnd) : Prop :=
  ending = .finished ∨ ending = .brokenLink ∧ ∃ state id node,
    id ∉ root :: visited ∧ tree.nodes[id]? = some node ∧ visit state id node = none

/-- A walk with a bound for all cursors that were not visited yet comes to an end. -/
theorem Underway.walk_noting {σ : Type} {tree : CursorTree} (hlinked : tree.WellLinked)
    (visit : Visitor σ) {bound : Nat} {visited stack : List NodeId}
    (hway : Underway tree visited stack) (hbound : tree.size ≤ bound + visited.length + 1)
    (state : σ) :
    ∃ final all left ending,
      tree.walk visit.noting bound stack (state, visited) = ((final, all), ending) ∧
        Underway tree all left ∧ EndsWell tree visit all ending := by
  induction bound generalizing visited stack state with
  | zero =>
      cases stack with
      | nil => exact ⟨state, visited, [], .finished, rfl, hway, .inl rfl⟩
      | cons id stack =>
          -- the cursor on the stack would be one more than the tree has
          have hroom := hway.length_lt hlinked
          rw [List.length_cons] at hroom
          omega
  | succ bound ih =>
      cases stack with
      | nil => exact ⟨state, visited, [], .finished, rfl, hway, .inl rfl⟩
      | cons id stack =>
          have hsize : id < tree.nodes.size := hway.lt_size hlinked (by simp)
          have hnode : tree.nodes[id]? = some tree.nodes[id] := Array.getElem?_eq_getElem hsize
          have hchildren : tree.nodes[id].children.toList = tree.childrenOf id := by
            rw [childrenOf, hnode]
          have hlater : tree.size ≤ bound + (visited ++ [id]).length + 1 := by
            rw [List.length_append, List.length_singleton]
            omega
          rw [walk]
          simp only [hnode, Visitor.noting]
          cases hanswer : visit state id tree.nodes[id] with
          | none =>
              have hnew : id ∉ root :: visited := by
                intro hold
                have hapart := hway.nodup hlinked
                rw [← List.cons_append] at hapart
                exact (List.nodup_append.mp hapart).2.2 id hold id (by simp) rfl
              exact ⟨state, visited, id :: stack, .brokenLink, rfl, hway,
                .inr ⟨rfl, state, id, _, hnew, hnode, hanswer⟩⟩
          | some answer =>
              obtain ⟨after, next⟩ := answer
              cases next with
              | stop =>
                  exact ⟨after, visited ++ [id], stack, .finished, rfl, hway.skip hlinked, .inl rfl⟩
              | skip => exact ih (hway.skip hlinked) hlater after
              | descend =>
                  simp only [Option.map_some, hchildren]
                  exact ih (hway.descend hlinked) hlater after

/-- What bytes are accepted as has sound links. -/
theorem wellLinked_of_ofBytes {bytes : Bytes} {tree : CursorTree}
    (hbytes : ofBytes bytes = .ok tree) : tree.WellLinked := by
  rw [← linkFault?_eq_none_iff]
  unfold ofBytes at hbytes
  split at hbytes
  · cases hbytes
  · cases hbytes
  unfold ofBody at hbytes
  split at hbytes
  · cases hbytes
  split at hbytes
  · cases hbytes
  next hnone =>
    cases hbytes
    exact hnone

/-- On a well linked tree, a traversal is a walk from the children of the root with a
bound that is the size of the tree. -/
theorem WellLinked.traverse_eq {σ : Type} {tree : CursorTree} (hlinked : tree.WellLinked)
    (visit : Visitor σ) (start : σ) :
    tree.traverse visit start = tree.walk visit tree.size (tree.childrenOf root) start := by
  have hsize : root < tree.nodes.size := hlinked.root_lt_size
  have hroot : tree.nodes[root]? = some tree.nodes[root] := Array.getElem?_eq_getElem hsize
  have hchildren : tree.childrenOf root = tree.nodes[root].children.toList := by
    rw [childrenOf, hroot]
  have hbound : tree.visitBound = tree.size := by
    rw [visitBound, (linkFault?_eq_none_iff tree).mpr hlinked]
    rfl
  rw [traverse, hroot, hbound, hchildren]

/-- **Accepted trees are safe to walk.**  Whatever a visitor answers: the walk ends,
also with no bound on the visits but the number of cursors below the root; it visits
cursors of the arena only, each once at most, and never the root; it follows no link
without a target, so the only thing that can be without an answer is the visitor
itself; and the links of every cursor lead into the arena. -/
theorem ofBytes_walk_safe {bytes : Bytes} {tree : CursorTree} (hbytes : ofBytes bytes = .ok tree)
    {σ : Type} (visit : Visitor σ) (start : σ) :
    ∃ (final : σ) (visited : List NodeId) (ending : WalkEnd),
      tree.traverse visit start = (final, ending) ∧
        tree.traverse visit.noting (start, []) = ((final, visited), ending) ∧
        (∀ bound, tree.size - 1 ≤ bound →
          tree.walk visit bound (tree.childrenOf root) start = (final, ending)) ∧
        (visited.Nodup ∧ root ∉ visited ∧ visited.length ≤ tree.size - 1) ∧
        (∀ id ∈ visited, id < tree.size) ∧
        (∀ (id : NodeId) (node : Node), tree.nodes[id]? = some node →
          ∀ target ∈ node.definition.toList ++ node.referenced.toList, target < tree.size) ∧
        EndsWell tree visit visited ending := by
  have hlinked := wellLinked_of_ofBytes hbytes
  have hroot := hlinked.root_lt_size
  -- as many visits as there are cursors below the root are enough
  have hbound : tree.size ≤ tree.size - 1 + ([] : List NodeId).length + 1 := by
    rw [List.length_nil]
    omega
  obtain ⟨final, visited, left, ending, hnoted, hway, hends⟩ :=
    (Underway.start tree).walk_noting hlinked visit hbound start
  obtain ⟨hsame, hending⟩ := (alike_noting tree visit).walk (tree.size - 1)
    (tree.childrenOf root) (rfl : (start, ([] : List NodeId)).1 = start)
  have hwalk : tree.walk visit (tree.size - 1) (tree.childrenOf root) start = (final, ending) := by
    rw [hnoted] at hsame hending
    exact Prod.ext hsame.symm hending.symm
  have hbounded : ending ≠ .unbounded := by
    rcases hends with rfl | ⟨rfl, -⟩ <;> decide
  have henough : ∀ bound, tree.size - 1 ≤ bound →
      tree.walk visit bound (tree.childrenOf root) start = (final, ending) := by
    intro bound hbound
    rw [walk_eq_of_le hbound (by rw [hwalk]; exact hbounded), hwalk]
  refine ⟨final, visited, ending, ?_, ?_, henough, ?_, ?_, ?_, hends⟩
  · rw [hlinked.traverse_eq]
    exact henough tree.size (Nat.sub_le _ _)
  · rw [hlinked.traverse_eq, walk_eq_of_le (Nat.sub_le _ _) (by rw [hnoted]; exact hbounded), hnoted]
  · obtain ⟨hnotRoot, hdistinct⟩ := List.nodup_cons.mp hway.fresh
    have hroom := hway.length_lt hlinked
    exact ⟨hdistinct, hnotRoot, by omega⟩
  · exact fun id hid => hway.lt_size hlinked (List.mem_append_left _ hid)
  · exact hlinked.targeted

/-- Two cursors below the root, and two that cannot be reached and are each other's
children. -/
def circleSample : CursorTree where
  spelling := "t.c"
  nodes := #[{ kind := .unit, spelling := "t.c", location := .nowhere, children := #[1] },
    { kind := .function, spelling := "f", location := { file := "t.c", line := 1 },
      children := #[4], definition := some 3 },
    { kind := .variable, spelling := "x", location := { file := "t.c", line := 2 },
      children := #[3] },
    { kind := .function, spelling := "f", location := { file := "t.c", line := 3 },
      children := #[2] },
    { kind := .call, spelling := "f", location := { file := "t.c", line := 4 },
      referenced := some 2 }]

theorem ofBytes_walk_safe_circleSample :
    ofBytes circleSample.toBytes = .ok circleSample ∧
      (∃ (final : Nat) (visited : List NodeId) (ending : WalkEnd),
        circleSample.traverse (fun count _ _ => some (count + 1, .descend)) 0 = (final, ending) ∧
          visited.Nodup ∧ visited.length ≤ 4 ∧ final = visited.length) ∧
      circleSample.traverse (fun seen id _ => some (seen ++ [id], .descend)) [] =
        ([1, 4], .finished) := by
  have hbytes : ofBytes circleSample.toBytes = .ok circleSample := by
    have hread := ofBytes_toBytes_eq (show circleSample.Fits by decide) []
    rw [List.append_nil, (linkFault?_eq_none_iff circleSample).mpr (by decide)] at hread
    exact hread
  obtain ⟨final, visited, ending, hwalk, hnoted, -, ⟨hdistinct, -, hlength⟩, -, -, -⟩ :=
    ofBytes_walk_safe hbytes (fun (count : Nat) _ _ => some (count + 1, .descend)) 0
  refine ⟨hbytes, ⟨final, visited, ending, hwalk, hdistinct, hlength, ?_⟩, by decide⟩
  have hboth : circleSample.traverse
      (Visitor.noting fun (count : Nat) _ _ => some (count + 1, .descend)) (0, []) =
        ((2, [1, 4]), .finished) := by
    decide
  rw [hboth] at hnoted
  cases hnoted
  rfl

end CursorTree
end SourceIndex
