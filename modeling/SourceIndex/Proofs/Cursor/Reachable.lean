import Mathlib.Algebra.Group.Nat.Defs
import SourceIndex.Proofs.Cursor.Walk

/-!
# The cursors below the root

`CursorTree.Listing tree tops ids` says that `ids` are the cursors in `tops` and all
cursors below them, in depth first order: a cursor, then what is below it, then what
comes after it.  There is one such list at most (`Listing.unique`), and in a tree with
sound links there is one for the children of the root (`WellLinked.exists_listing`).

A listing is about child links only.  It does NOT pass over a cursor for what it is or
where it stands.  Wherever there is one, the bound on the number of visits of a walk is
not reached, also if the links are not sound (`Listing.length_le_visitBound`).

Where no visit is left out, a walk is a fold over the listing (`Listing.walk_append`).
-/

namespace SourceIndex
namespace CursorTree

theorem childrenOf_of_getElem? {tree : CursorTree} {id : NodeId} {node : Node}
    (hnode : tree.nodes[id]? = some node) : tree.childrenOf id = node.children.toList := by
  rw [childrenOf, hnode]

namespace Under

variable {tree : CursorTree} {top id : NodeId}

/-- What is below a child is below its parent. -/
theorem above {child : NodeId} (hunder : tree.Under child id)
    (hchild : child ∈ tree.childrenOf top) : tree.Under top id := by
  induction hunder with
  | self => exact .child .self hchild
  | child _ hnext ih => exact .child ih hnext

theorem cases_top (hunder : tree.Under top id) :
    id = top ∨ ∃ child ∈ tree.childrenOf top, tree.Under child id := by
  induction hunder with
  | self => exact .inl rfl
  | @child parent id _ hchild ih =>
      rcases ih with rfl | ⟨first, hfirst, hunder⟩
      · exact .inr ⟨id, hchild, .self⟩
      · exact .inr ⟨first, hfirst, .child hunder hchild⟩

end Under

/-- The cursors in `tops` and all below them, parents before children and children from
left to right. -/
inductive Listing (tree : CursorTree) : List NodeId → List NodeId → Prop
  | nil : Listing tree [] []
  | cons {top : NodeId} {rest below after : List NodeId}
      (hbelow : Listing tree (tree.childrenOf top) below) (hafter : Listing tree rest after) :
      Listing tree (top :: rest) (top :: (below ++ after))

namespace Listing

variable {tree : CursorTree} {tops ids : List NodeId}

theorem unique {others : List NodeId} (hlisting : Listing tree tops ids)
    (hother : Listing tree tops others) : ids = others := by
  induction hlisting generalizing others with
  | nil =>
      cases hother
      rfl
  | cons _ _ ihbelow ihafter =>
      cases hother with
      | cons hbelow hafter => rw [ihbelow hbelow, ihafter hafter]

theorem mem_iff (hlisting : Listing tree tops ids) {id : NodeId} :
    id ∈ ids ↔ ∃ top ∈ tops, tree.Under top id := by
  induction hlisting with
  | nil => simp
  | @cons top rest below after hbelow hafter ihbelow ihafter =>
      rw [List.mem_cons, List.mem_append, ihbelow, ihafter]
      constructor
      · rintro (rfl | ⟨child, hchild, hunder⟩ | ⟨later, hlater, hunder⟩)
        · exact ⟨id, List.mem_cons_self, .self⟩
        · exact ⟨top, List.mem_cons_self, hunder.above hchild⟩
        · exact ⟨later, List.mem_cons_of_mem _ hlater, hunder⟩
      · rintro ⟨found, hfound, hunder⟩
        rcases List.mem_cons.mp hfound with rfl | hlater
        · rcases hunder.cases_top with rfl | ⟨child, hchild, hunder⟩
          · exact .inl rfl
          · exact .inr (.inl ⟨child, hchild, hunder⟩)
        · exact .inr (.inr ⟨found, hlater, hunder⟩)

/-- A walk that has the cursors of a listing next can get past them. -/
theorem underway (hlisting : Listing tree tops ids) (hlinked : tree.WellLinked)
    {visited stack : List NodeId} (hway : Underway tree visited (tops ++ stack)) :
    Underway tree (visited ++ ids) stack := by
  induction hlisting generalizing visited stack with
  | nil => simpa using hway
  | @cons top rest below after hbelow hafter ihbelow ihafter =>
      have hinside : Underway tree (visited ++ [top]) (tree.childrenOf top ++ (rest ++ stack)) :=
        Underway.descend hway hlinked
      have hpast := ihafter (ihbelow hinside)
      simpa using hpast

end Listing

/-- What stands on the stack of a walk can be listed.  The cursors that were not visited
yet get fewer with each visit, and no visit can use them up. -/
theorem Underway.exists_listing {tree : CursorTree} (hlinked : tree.WellLinked)
    {visited tops stack : List NodeId} (hway : Underway tree visited (tops ++ stack)) :
    ∃ ids, Listing tree tops ids := by
  induction hleft : tree.size - visited.length using Nat.strongRecOn
    generalizing visited tops stack with
  | _ left ih =>
      cases tops with
      | nil => exact ⟨[], .nil⟩
      | cons top rest =>
          have hroom := hway.length_lt hlinked
          have hinside : Underway tree (visited ++ [top])
              (tree.childrenOf top ++ (rest ++ stack)) := Underway.descend hway hlinked
          obtain ⟨below, hbelow⟩ := ih (tree.size - (visited ++ [top]).length)
            (by rw [List.length_append, List.length_singleton]; omega) hinside rfl
          have hpast := hbelow.underway hlinked hinside
          obtain ⟨after, hafter⟩ := ih (tree.size - ((visited ++ [top]) ++ below).length)
            (by rw [List.length_append, List.length_append, List.length_singleton]; omega) hpast rfl
          exact ⟨_, .cons hbelow hafter⟩

/-- At first the stack has the children of the root and nothing else. -/
theorem Underway.start_append (tree : CursorTree) :
    Underway tree [] (tree.childrenOf root ++ []) := by
  rw [List.append_nil]
  exact .start tree

namespace WellLinked

variable {tree : CursorTree} {ids : List NodeId}

theorem exists_listing (hlinked : tree.WellLinked) :
    ∃ ids, Listing tree (tree.childrenOf root) ids :=
  (Underway.start_append tree).exists_listing hlinked

theorem underway_listing (hlinked : tree.WellLinked)
    (hlisting : Listing tree (tree.childrenOf root) ids) : Underway tree ids [] :=
  hlisting.underway hlinked (.start_append tree)

/-- The listing has all cursors that are reached from the root, without the root itself. -/
theorem mem_listing_iff (hlinked : tree.WellLinked)
    (hlisting : Listing tree (tree.childrenOf root) ids) {id : NodeId} :
    id ∈ ids ↔ id ≠ root ∧ tree.Under root id := by
  rw [hlisting.mem_iff]
  constructor
  · rintro ⟨child, hchild, hunder⟩
    have hmem : id ∈ ids := hlisting.mem_iff.mpr ⟨child, hchild, hunder⟩
    have hfresh := (hlinked.underway_listing hlisting).fresh
    exact ⟨fun hroot => (List.nodup_cons.mp hfresh).1 (hroot ▸ hmem), hunder.above hchild⟩
  · rintro ⟨hne, hunder⟩
    rcases hunder.cases_top with hroot | hbelow
    · exact absurd hroot hne
    · exact hbelow

end WellLinked

/-! ## How long a listing can be -/

theorem childrenOf_of_size_le {tree : CursorTree} {id : NodeId} (hmissing : tree.size ≤ id) :
    tree.childrenOf id = [] := by
  rw [childrenOf, Array.getElem?_eq_none hmissing]

theorem length_childrenOf_le (tree : CursorTree) (id : NodeId) :
    (tree.childrenOf id).length ≤ tree.childLinks.length := by
  cases hnode : tree.nodes[id]? with
  | none => simp [childrenOf, hnode]
  | some node =>
      have hmem : node ∈ tree.nodes.toList := Array.mem_toList_iff.mpr (Array.mem_of_getElem? hnode)
      have hlist : node.children.toList ∈ tree.nodes.toList.map fun node => node.children.toList :=
        List.mem_map_of_mem hmem
      rw [childrenOf_of_getElem? hnode, childLinks, List.flatMap_def]
      exact (List.sublist_flatten_of_mem hlist).length_le

namespace Listing

variable {tree : CursorTree} {tops ids : List NodeId}

/-- What stands in front is listed first. -/
theorem of_append {more : List NodeId} (hlisting : Listing tree (tops ++ more) ids) :
    ∃ first later, ids = first ++ later ∧ Listing tree tops first ∧ Listing tree more later := by
  induction tops generalizing ids with
  | nil => exact ⟨[], ids, rfl, .nil, hlisting⟩
  | cons top rest ih =>
      cases hlisting with
      | @cons _ _ below after hbelow hafter =>
          obtain ⟨first, later, rfl, hfirst, hlater⟩ := ih hafter
          exact ⟨top :: (below ++ first), later, by simp, .cons hbelow hfirst, hlater⟩

theorem append {more others : List NodeId} (hlisting : Listing tree tops ids)
    (hmore : Listing tree more others) : Listing tree (tops ++ more) (ids ++ others) := by
  induction hlisting with
  | nil => exact hmore
  | cons hbelow _ _ ihafter =>
      rw [List.cons_append, List.cons_append, List.append_assoc]
      exact .cons hbelow ihafter

/-- What is below a listed cursor has a shorter listing. -/
theorem exists_shorter (hlisting : Listing tree tops ids) {id : NodeId} (hid : id ∈ ids) :
    ∃ below, Listing tree (tree.childrenOf id) below ∧ below.length < ids.length := by
  induction hlisting with
  | nil => cases hid
  | @cons top rest below after hbelow _ ihbelow ihafter =>
      rw [List.length_cons, List.length_append]
      rcases List.mem_cons.mp hid with rfl | hlater
      · exact ⟨below, hbelow, by omega⟩
      rcases List.mem_append.mp hlater with hinside | hbeside
      · obtain ⟨shorter, hshorter, hlength⟩ := ihbelow hinside
        exact ⟨shorter, hshorter, by omega⟩
      · obtain ⟨shorter, hshorter, hlength⟩ := ihafter hbeside
        exact ⟨shorter, hshorter, by omega⟩

/-- A cursor that can be listed is not its own descendant. -/
theorem not_mem_self {id : NodeId} (hlisting : Listing tree (tree.childrenOf id) ids) :
    id ∉ ids := by
  intro hid
  obtain ⟨shorter, hshorter, hlength⟩ := hlisting.exists_shorter hid
  rw [hshorter.unique hlisting] at hlength
  exact Nat.lt_irrefl _ hlength

/-- For each cursor of a level there are no more cursors on the level below than there are child
links, and there are no more levels than cursors, since no cursor is above itself. -/
theorem length_le (hlisting : Listing tree tops ids) {above : List NodeId}
    (hdistinct : above.Nodup) (hinside : above ⊆ List.range tree.size)
    (hapart : ∀ id ∈ above, id ∉ ids) :
    ids.length ≤ tops.length * (tree.childLinks.length + 2) ^ (tree.size - above.length) := by
  induction hlisting generalizing above with
  | nil => exact Nat.zero_le _
  | @cons top rest below after hbelow _ ihbelow ihafter =>
      have hrest := ihafter hdistinct hinside fun id hid hlisted =>
        hapart id hid (by simp [hlisted])
      have htop : below.length + 1 ≤
          (tree.childLinks.length + 2) ^ (tree.size - above.length) := by
        rcases Nat.lt_or_ge top tree.size with hlt | hge
        · have hnew : (top :: above).Nodup :=
            List.nodup_cons.mpr ⟨fun hmem => hapart top hmem List.mem_cons_self, hdistinct⟩
          have hrange : (top :: above) ⊆ List.range tree.size :=
            List.cons_subset.mpr ⟨List.mem_range.mpr hlt, hinside⟩
          have hroom := (hnew.subperm hrange).length_le
          rw [List.length_cons, List.length_range] at hroom
          have hlevel := ihbelow hnew hrange fun id hid hlisted => by
            rcases List.mem_cons.mp hid with rfl | hmem
            · exact hbelow.not_mem_self hlisted
            · exact hapart id hmem (by simp [hlisted])
          have hdeeper : tree.size - above.length = tree.size - (top :: above).length + 1 := by
            rw [List.length_cons]
            omega
          have hpositive : 0 < (tree.childLinks.length + 2) ^ (tree.size - (top :: above).length) :=
            Nat.pow_pos (Nat.succ_pos _)
          have hwidth := Nat.mul_le_mul_right
            ((tree.childLinks.length + 2) ^ (tree.size - (top :: above).length))
            (tree.length_childrenOf_le top)
          rw [hdeeper, Nat.pow_succ', Nat.add_mul]
          omega
        · -- a missing cursor has nothing below it
          rw [childrenOf_of_size_le hge] at hbelow
          cases hbelow
          exact Nat.pow_pos (Nat.succ_pos _)
      rw [List.length_cons, List.length_append, List.length_cons, Nat.succ_mul]
      omega

/-- The bound on the number of visits is never reached where the cursors can be listed. -/
theorem length_le_visitBound (hlisting : Listing tree (tree.childrenOf root) ids) :
    ids.length ≤ tree.visitBound := by
  cases hfault : tree.linkFault? with
  | none =>
      have hlinked := (linkFault?_eq_none_iff tree).mp hfault
      have hroom := (hlinked.underway_listing hlisting).length_lt hlinked
      rw [visitBound, hfault]
      exact Nat.le_of_lt (Nat.lt_of_le_of_lt (Nat.le_add_right _ _) hroom)
  | some fault =>
      rw [visitBound, hfault]
      rcases Nat.lt_or_ge root tree.size with hlt | hge
      · have hbelow := hlisting.length_le (show [root].Nodup by simp)
          (List.cons_subset.mpr ⟨List.mem_range.mpr hlt, List.nil_subset _⟩)
          (fun id hid => List.mem_singleton.mp hid ▸ hlisting.not_mem_self)
        have hsize : tree.nodes.size = tree.size - 1 + 1 := by
          change tree.size = _
          omega
        calc ids.length
            ≤ (tree.childrenOf root).length * (tree.childLinks.length + 2) ^ (tree.size - 1) :=
              hbelow
          _ ≤ (tree.childLinks.length + 2) * (tree.childLinks.length + 2) ^ (tree.size - 1) :=
              Nat.mul_le_mul_right _
                (Nat.le_trans (tree.length_childrenOf_le root) (Nat.le_add_right _ _))
          _ = Nat.pow (tree.childLinks.length + 2) tree.nodes.size := by
              rw [hsize, ← Nat.pow_succ']
              rfl
      · rw [childrenOf_of_size_le hge] at hlisting
        cases hlisting
        exact Nat.zero_le _

end Listing
/-! ## Walks that visit everything -/

/-- A walk that always goes on below a cursor is a fold over the listing. -/
theorem Listing.walk_append {σ : Type} {tree : CursorTree} {tops ids : List NodeId}
    {visit : Visitor σ} {see : σ → NodeId → Node → σ}
    (hvisit : ∀ state id node, tree.nodes[id]? = some node →
      visit state id node = some (see state id node, .descend))
    (hlisting : Listing tree tops ids) (hids : ∀ id ∈ ids, id < tree.size) (bound : Nat)
    (stack : List NodeId) (state : σ) :
    tree.walk visit (bound + ids.length) (tops ++ stack) state =
      tree.walk visit bound stack (ids.foldl (tree.visitAt see) state) := by
  induction hlisting generalizing bound stack state with
  | nil => rfl
  | @cons top rest below after hbelow hafter ihbelow ihafter =>
      have htop : top < tree.nodes.size := hids top List.mem_cons_self
      have hnode : tree.nodes[top]? = some tree.nodes[top] := Array.getElem?_eq_getElem htop
      have hbound : bound + (top :: (below ++ after)).length =
          bound + after.length + below.length + 1 := by
        rw [List.length_cons, List.length_append]
        omega
      -- one visit, then everything below the cursor, then the cursors after it
      rw [hbound, List.cons_append, walk]
      simp only [hnode, hvisit state top _ hnode]
      rw [← childrenOf_of_getElem? hnode, ihbelow (fun id hid => hids id (by simp [hid])),
        ihafter (fun id hid => hids id (by simp [hid])), List.foldl_cons, List.foldl_append,
        visitAt, hnode]

end CursorTree
end SourceIndex
