import SourceIndex.Cursor.Links

/-!
# The link check decides soundness

`CursorTree.linkFault?` is one pass with a table of the nodes that already have a
parent, and it stops at the first fault.  `CursorTree.WellLinked` speaks of all
child lists at once.  This module relates the two: the table holds exactly the
children seen so far (`Marks`), and each stage of the pass either succeeds and
extends the table or fails because the property is already lost.

The main statement is `CursorTree.linkFault?_eq_none_iff`.
-/

namespace SourceIndex
namespace CursorTree

/-- The table of a tree of `size` nodes marks exactly the nodes in `seen`. -/
structure Marks (size : Nat) (claimed : Array Bool) (seen : List NodeId) : Prop where
  size_eq : claimed.size = size
  marked_iff : ∀ id, claimed.getD id false = true ↔ id ∈ seen

theorem Marks.empty (size : Nat) : Marks size (Array.replicate size false) [] where
  size_eq := Array.size_replicate
  marked_iff := by
    intro id
    by_cases hid : id < size
    · simp [Array.getD, hid]
    · simp [Array.getD, hid]

/-- Marking one more node of the tree. -/
theorem Marks.claim {size : Nat} {claimed : Array Bool} {seen : List NodeId}
    (hmarks : Marks size claimed seen) {child : NodeId} (hchild : child < size) :
    Marks size (claimed.setIfInBounds child true) (seen ++ [child]) where
  size_eq := by rw [Array.size_setIfInBounds, hmarks.size_eq]
  marked_iff := by
    intro id
    have hold := hmarks.marked_iff id
    have hsize : child < claimed.size := by
      rw [hmarks.size_eq]
      exact hchild
    rw [List.mem_append, List.mem_singleton, ← hold]
    by_cases hid : id = child
    · subst hid
      simp [Array.getD, hsize]
    · have hne : child ≠ id := fun heq => hid heq.symm
      by_cases hin : id < claimed.size
      · simp [Array.getD, hin, hid, hne]
      · simp [Array.getD, hin, hid]

/-- Giving the children of one node a parent succeeds exactly if the root is not
among them and none of them occurs twice, those seen before included. -/
theorem claimChildren_decides {size : Nat} (node : NodeId) {children : List NodeId}
    {claimed : Array Bool} {seen : List NodeId} (hmarks : Marks size claimed seen)
    (hseen : seen.Nodup) (hbound : ∀ child ∈ children, child < size) :
    ((∃ after, claimChildren node children claimed = .ok after ∧
        Marks size after (seen ++ children)) ∧
      root ∉ children ∧ (seen ++ children).Nodup) ∨
    ((∃ fault, claimChildren node children claimed = .error fault) ∧
      ¬(root ∉ children ∧ (seen ++ children).Nodup)) := by
  induction children generalizing claimed seen with
  | nil =>
      refine .inl ⟨⟨claimed, rfl, by simpa using hmarks⟩, ?_⟩
      simpa using hseen
  | cons child rest ih =>
      rw [claimChildren]
      by_cases hroot : child = root
      · refine .inr ⟨⟨_, if_pos hroot⟩, ?_⟩
        rintro ⟨hfree, -⟩
        exact hfree (by simp [hroot])
      rw [if_neg hroot]
      -- a mark means that the child is in `seen`: then it occurs twice
      by_cases hclaimed : claimed.getD child false = true
      · refine .inr ⟨⟨_, if_pos hclaimed⟩, ?_⟩
        rintro ⟨-, hnodup⟩
        have hmem : child ∈ seen := (hmarks.marked_iff child).mp hclaimed
        exact (List.nodup_append.mp hnodup).2.2 child hmem child (by simp) rfl
      rw [if_neg hclaimed]
      have hfresh : child ∉ seen := fun hmem => hclaimed ((hmarks.marked_iff child).mpr hmem)
      have hnext : (seen ++ [child]).Nodup := by
        refine List.nodup_append.mpr ⟨hseen, by simp, ?_⟩
        intro earlier hearlier later hlater heq
        rw [List.mem_singleton.mp hlater] at heq
        exact hfresh (heq ▸ hearlier)
      have hrest := ih (hmarks.claim (hbound child (by simp))) hnext
        (fun later hlater => hbound later (by simp [hlater]))
      have hroots : root ∉ child :: rest ↔ root ∉ rest := by
        rw [List.mem_cons, not_or]
        exact ⟨fun h => h.2, fun h => ⟨fun heq => hroot heq.symm, h⟩⟩
      rw [hroots]
      simpa using hrest

/-- The links of some nodes are sound in a tree of `size` nodes in which the nodes
in `seen` already have a parent. -/
def SoundFrom (size : Nat) (seen : List NodeId) (nodes : List Node) : Prop :=
  (∀ node ∈ nodes, ∀ target ∈ node.links, target < size) ∧
    root ∉ nodes.flatMap (fun node => node.children.toList) ∧
    (seen ++ nodes.flatMap fun node => node.children.toList).Nodup

theorem soundFrom_cons (size : Nat) (seen : List NodeId) (node : Node) (rest : List Node) :
    SoundFrom size seen (node :: rest) ↔
      (∀ target ∈ node.links, target < size) ∧ root ∉ node.children.toList ∧
        SoundFrom size (seen ++ node.children.toList) rest := by
  simp only [SoundFrom, List.forall_mem_cons, List.flatMap_cons, List.mem_append, not_or,
    List.append_assoc]
  constructor
  · rintro ⟨⟨htargets, hrest⟩, ⟨hroot, hroots⟩, hnodup⟩
    exact ⟨htargets, hroot, hrest, hroots, hnodup⟩
  · rintro ⟨htargets, hroot, hrest, hroots, hnodup⟩
    exact ⟨⟨htargets, hrest⟩, ⟨hroot, hroots⟩, hnodup⟩

/-- The pass over the nodes succeeds exactly if their links are sound. -/
theorem checkNodes_decides {size : Nat} (id : NodeId) (nodes : List Node)
    {claimed : Array Bool} {seen : List NodeId} (hmarks : Marks size claimed seen)
    (hseen : seen.Nodup) :
    ((∃ after, checkNodes size id nodes claimed = .ok after) ∧ SoundFrom size seen nodes) ∨
    ((∃ fault, checkNodes size id nodes claimed = .error fault) ∧
      ¬SoundFrom size seen nodes) := by
  induction nodes generalizing id claimed seen with
  | nil => exact .inl ⟨⟨claimed, rfl⟩, by simp, by simp, by simpa using hseen⟩
  | cons node rest ih =>
      rw [checkNodes, checkNode, soundFrom_cons]
      cases hfind : node.links.find? fun target => size ≤ target with
      | some target =>
          refine .inr ⟨⟨.missingTarget id target, rfl⟩, ?_⟩
          rintro ⟨htargets, -⟩
          have hmissing := List.find?_some hfind
          simp only [decide_eq_true_eq] at hmissing
          exact absurd (htargets target (List.mem_of_find?_eq_some hfind)) (Nat.not_lt.mpr hmissing)
      | none =>
          have htargets : ∀ target ∈ node.links, target < size := by
            intro target htarget
            have := List.find?_eq_none.mp hfind target htarget
            simpa using this
          have hchildren : ∀ child ∈ node.children.toList, child < size := by
            intro child hchild
            exact htargets child (by simp [Node.links, Array.mem_toList_iff.mp hchild])
          -- the children of this node first, then the rest with these children seen
          rcases claimChildren_decides id hmarks hseen hchildren with
            ⟨⟨after, hclaim, hafter⟩, hroot, hnodup⟩ | ⟨⟨fault, hclaim⟩, hlost⟩
          · simp only [hclaim]
            rcases ih (id + 1) hafter hnodup with ⟨hok, hsound⟩ | ⟨herror, hlost⟩
            · exact .inl ⟨hok, htargets, hroot, hsound⟩
            · exact .inr ⟨herror, fun hsound => hlost hsound.2.2⟩
          · refine .inr ⟨⟨fault, by simp only [hclaim]⟩, ?_⟩
            rintro ⟨-, hroot, -, -, hnodup⟩
            refine hlost ⟨hroot, ?_⟩
            exact (List.nodup_append.mp hnodup).1

theorem soundFrom_nil_iff_wellLinked (tree : CursorTree) (hnonempty : tree.nodes ≠ #[]) :
    SoundFrom tree.nodes.size [] tree.nodes.toList ↔ tree.WellLinked := by
  constructor
  · rintro ⟨htargets, hroot, hnodup⟩
    exact ⟨hnonempty, htargets, hroot, hnodup⟩
  · intro hlinked
    exact ⟨hlinked.targets, hlinked.rootFree, hlinked.oneParent⟩

/-- The pass finds no fault exactly in trees with sound links. -/
theorem linkFault?_eq_none_iff (tree : CursorTree) :
    tree.linkFault? = none ↔ tree.WellLinked := by
  -- an empty arena fails before the pass over its nodes starts
  by_cases hempty : tree.nodes = #[]
  · have hfault : tree.linkFault? = some .emptyArena := by simp [linkFault?, hempty]
    rw [hfault]
    constructor
    · intro hnone
      cases hnone
    · intro hlinked
      exact absurd hempty hlinked.nonempty
  · have hsome : tree.nodes.isEmpty = false := by simpa using hempty
    rw [← soundFrom_nil_iff_wellLinked tree hempty, linkFault?, hsome]
    rcases checkNodes_decides 0 tree.nodes.toList (Marks.empty tree.nodes.size) List.nodup_nil with
      ⟨⟨after, hcheck⟩, hsound⟩ | ⟨⟨fault, hcheck⟩, hlost⟩
    · simp [hcheck, hsound]
    · simp [hcheck, hlost]

instance (tree : CursorTree) : Decidable tree.WellLinked :=
  decidable_of_iff _ (linkFault?_eq_none_iff tree)

end CursorTree
end SourceIndex
