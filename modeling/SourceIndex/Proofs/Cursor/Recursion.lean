import SourceIndex.Proofs.Cursor.Reachable

/-!
# A walk is a recursion

`CursorTree.traverse` keeps the cursors that are still to come on one stack.  This module
has the same walk as a recursion: `CursorTree.Walks` visits a cursor, walks its children
from left to right if the visit says so, and goes on with the cursors after it.  A visit
that stops the walk stops the walks of all cursors above it as well, and so each walk hands
back the `Course` that its caller has to follow.

The recursion is given by its rules, and nothing in them says that it comes to an end.  It
has one answer at most (`Walks.unique`); on a tree with sound links it has one, and it is
that of the stack.

The main statement is `CursorTree.traverse_eq_recursive`.  The step is
`Listing.walk_eq`: some cursors on top of a stack are dealt with as the recursion deals
with them, and the rest of the stack is not touched.
-/

namespace SourceIndex
namespace CursorTree

/-- What comes after a walk over some cursors. -/
inductive Course where
  /-- The walk goes on with the cursors after them. -/
  | onward
  /-- The whole walk is over. -/
  | ended (ending : WalkEnd)
  deriving DecidableEq, Repr

/-- How a whole walk ended. -/
def Course.ending : Course → WalkEnd
  | .onward => .finished
  | .ended ending => ending

/-- What a visitor says to a cursor, if there is such a cursor. -/
def answer? {σ : Type} (tree : CursorTree) (visit : Visitor σ) (state : σ) (id : NodeId) :
    Option (σ × Visit) :=
  tree.nodes[id]?.bind (visit state id)

/-- Visits some cursors from left to right, and below each of them its children if the
visit says so. -/
inductive Walks {σ : Type} (tree : CursorTree) (visit : Visitor σ) :
    List NodeId → σ → σ × Course → Prop
  | nil {state : σ} : Walks tree visit [] state (state, .onward)
  | broken {id : NodeId} {rest : List NodeId} {state : σ}
      (hanswer : tree.answer? visit state id = none) :
      Walks tree visit (id :: rest) state (state, .ended .brokenLink)
  | stop {id : NodeId} {rest : List NodeId} {state after : σ}
      (hanswer : tree.answer? visit state id = some (after, .stop)) :
      Walks tree visit (id :: rest) state (after, .ended .finished)
  | skip {id : NodeId} {rest : List NodeId} {state after : σ} {left : σ × Course}
      (hanswer : tree.answer? visit state id = some (after, .skip))
      (hrest : Walks tree visit rest after left) :
      Walks tree visit (id :: rest) state left
  /-- The walk ended below the cursor, and the cursors after it are not visited. -/
  | endedBelow {id : NodeId} {rest : List NodeId} {state after below : σ} {ending : WalkEnd}
      (hanswer : tree.answer? visit state id = some (after, .descend))
      (hbelow : Walks tree visit (tree.childrenOf id) after (below, .ended ending)) :
      Walks tree visit (id :: rest) state (below, .ended ending)
  | descend {id : NodeId} {rest : List NodeId} {state after below : σ} {left : σ × Course}
      (hanswer : tree.answer? visit state id = some (after, .descend))
      (hbelow : Walks tree visit (tree.childrenOf id) after (below, .onward))
      (hrest : Walks tree visit rest below left) :
      Walks tree visit (id :: rest) state left

/-- Visits the cursors below the root by recursion. -/
def RecursesTo {σ : Type} (tree : CursorTree) (visit : Visitor σ) (start : σ)
    (result : σ × WalkEnd) : Prop :=
  ∃ left, Walks tree visit (tree.childrenOf root) start left ∧ result = (left.1, left.2.ending)

section

variable {σ : Type} {tree : CursorTree} {visit : Visitor σ}

/-- The recursion has one answer at most. -/
theorem Walks.unique {tops : List NodeId} {state : σ} {left other : σ × Course}
    (hwalks : Walks tree visit tops state left) (hother : Walks tree visit tops state other) :
    left = other := by
  -- the answer to the first cursor says which rule is used; all others are ruled out
  induction hwalks generalizing other with
  | nil =>
      cases hother
      rfl
  | broken hanswer =>
      cases hother with
      | broken => rfl
      | stop hsame | skip hsame | endedBelow hsame | descend hsame =>
          simp [hanswer] at hsame
  | stop hanswer =>
      cases hother with
      | stop hsame =>
          cases hanswer.symm.trans hsame
          rfl
      | broken hsame | skip hsame | endedBelow hsame | descend hsame =>
          simp [hanswer] at hsame
  | skip hanswer _ ihrest =>
      cases hother with
      | skip hsame hrest =>
          cases hanswer.symm.trans hsame
          exact ihrest hrest
      | broken hsame | stop hsame | endedBelow hsame | descend hsame =>
          simp [hanswer] at hsame
  | endedBelow hanswer _ ihbelow =>
      cases hother with
      | endedBelow hsame hbelow =>
          cases hanswer.symm.trans hsame
          cases ihbelow hbelow
          rfl
      | descend hsame hbelow =>
          cases hanswer.symm.trans hsame
          cases ihbelow hbelow
      | broken hsame | stop hsame | skip hsame =>
          simp [hanswer] at hsame
  | descend hanswer _ _ ihbelow ihrest =>
      cases hother with
      | endedBelow hsame hbelow =>
          cases hanswer.symm.trans hsame
          cases ihbelow hbelow
      | descend hsame hbelow hrest =>
          cases hanswer.symm.trans hsame
          cases ihbelow hbelow
          exact ihrest hrest
      | broken hsame | stop hsame | skip hsame =>
          simp [hanswer] at hsame

/-- The stack deals with its first cursor as the visitor says. -/
theorem walk_cons (tree : CursorTree) (visit : Visitor σ) (bound : Nat) (id : NodeId)
    (stack : List NodeId) (state : σ) :
    tree.walk visit (bound + 1) (id :: stack) state =
      match tree.answer? visit state id with
      | none => (state, .brokenLink)
      | some (after, .stop) => (after, .finished)
      | some (after, .skip) => tree.walk visit bound stack after
      | some (after, .descend) => tree.walk visit bound (tree.childrenOf id ++ stack) after := by
  cases hnode : tree.nodes[id]? with
  | none => simp only [walk, answer?, hnode, Option.bind_none]
  | some node =>
      rcases hvisit : visit state id node with _ | ⟨after, _ | _ | _⟩ <;>
        simp only [walk, answer?, hnode, hvisit, Option.bind_some, childrenOf_of_getElem? hnode]

end

/-- Goes on with a stack, unless the whole walk is over. -/
def resume {σ : Type} (tree : CursorTree) (visit : Visitor σ) (bound : Nat)
    (stack : List NodeId) : σ × Course → σ × WalkEnd
  | (state, .onward) => tree.walk visit bound stack state
  | (state, .ended ending) => (state, ending)

/-- Cursors on top of a stack are dealt with as by recursion, in as many visits as there
are cursors in their listing, or fewer. -/
theorem Listing.walk_eq {σ : Type} {tree : CursorTree} {tops ids : List NodeId}
    (hlisting : Listing tree tops ids) (visit : Visitor σ) (state : σ) :
    ∃ left used, used ≤ ids.length ∧ Walks tree visit tops state left ∧
      ∀ bound stack, tree.walk visit (bound + used) (tops ++ stack) state =
        tree.resume visit bound stack left := by
  induction hlisting generalizing state with
  | nil => exact ⟨(state, .onward), 0, Nat.le_refl 0, .nil, fun _ _ => rfl⟩
  | @cons top rest below after hbelow hafter ihbelow ihafter =>
      rw [List.length_cons, List.length_append]
      rcases hanswer : tree.answer? visit state top with _ | ⟨seen, next⟩
      · refine ⟨(state, .ended .brokenLink), 1, by omega, .broken hanswer, fun bound stack => ?_⟩
        rw [List.cons_append, walk_cons, hanswer]
        rfl
      cases next with
      | stop =>
          refine ⟨(seen, .ended .finished), 1, by omega, .stop hanswer, fun bound stack => ?_⟩
          rw [List.cons_append, walk_cons, hanswer]
          rfl
      | skip =>
          obtain ⟨left, used, hused, hrest, hwalk⟩ := ihafter seen
          refine ⟨left, used + 1, by omega, .skip hanswer hrest, fun bound stack => ?_⟩
          rw [List.cons_append, ← Nat.add_assoc, walk_cons, hanswer]
          exact hwalk bound stack
      | descend =>
          obtain ⟨⟨inside, course⟩, used, hused, hinside, hwalk⟩ := ihbelow seen
          cases course with
          | ended ending =>
              -- the cursors after `top` are given up with the stack
              refine ⟨(inside, .ended ending), used + 1, by omega, .endedBelow hanswer hinside,
                fun bound stack => ?_⟩
              rw [List.cons_append, ← Nat.add_assoc, walk_cons, hanswer]
              exact hwalk bound (rest ++ stack)
          | onward =>
              obtain ⟨left, more, hmore, hrest, hgoing⟩ := ihafter inside
              refine ⟨left, more + used + 1, by omega, .descend hanswer hinside hrest,
                fun bound stack => ?_⟩
              rw [List.cons_append, ← Nat.add_assoc, ← Nat.add_assoc, walk_cons, hanswer]
              dsimp only
              rw [hwalk (bound + more) (rest ++ stack)]
              exact hgoing bound stack

/-- The recursion has one answer on a tree with sound links, and the stack gives it. -/
theorem WellLinked.recursesTo_iff {σ : Type} {tree : CursorTree} (hlinked : tree.WellLinked)
    (visit : Visitor σ) (start : σ) (result : σ × WalkEnd) :
    tree.RecursesTo visit start result ↔ tree.traverse visit start = result := by
  obtain ⟨ids, hlisting⟩ := hlinked.exists_listing
  obtain ⟨left, used, hused, hwalks, hwalk⟩ := hlisting.walk_eq visit start
  -- the bound on the number of visits is greater than what is used of it
  have hroom := (hlinked.underway_listing hlisting).length_lt hlinked
  have hbound : tree.size = (tree.size - used) + used := by omega
  have htraverse : tree.traverse visit start = (left.1, left.2.ending) := by
    rw [hlinked.traverse_eq, hbound, ← List.append_nil (tree.childrenOf root), hwalk]
    obtain ⟨final, course⟩ := left
    cases course with
    | ended ending => rfl
    | onward => rw [resume, walk]; rfl
  rw [htraverse]
  constructor
  · rintro ⟨other, hother, rfl⟩
    rw [hwalks.unique hother]
  · intro hresult
    exact ⟨left, hwalks, hresult.symm⟩

/-- A visitor that always answers walks a tree with sound links to its end. -/
theorem WellLinked.traverse_finishes {σ : Type} {tree : CursorTree} (hlinked : tree.WellLinked)
    {visit : Visitor σ} (hanswers : ∀ state id node, (visit state id node).isSome = true)
    (start : σ) : (tree.traverse visit start).2 = .finished := by
  have hway : tree.size ≤ tree.size + ([] : List NodeId).length + 1 := by
    rw [List.length_nil]
    omega
  obtain ⟨final, visited, left, ending, hnoted, -, hends⟩ :=
    (Underway.start tree).walk_noting hlinked visit hway start
  have hending := ((alike_noting tree visit).walk tree.size (tree.childrenOf root)
    (rfl : (start, ([] : List NodeId)).1 = start)).2
  rw [hlinked.traverse_eq, ← hending, hnoted]
  rcases hends with hfinished | ⟨-, state, id, node, -, -, hnone⟩
  · exact hfinished
  · have hsome := hanswers state id node
    rw [hnone] at hsome
    cases hsome

/-- **The stack walks as the recursion does.**  On a tree that passes the link check, and
for every visitor, the recursion has one answer and the stack gives it: the same cursors in
the same order, the same state at the end, and the same way of ending.  A visitor that
always answers comes to an end. -/
theorem traverse_eq_recursive {tree : CursorTree} (hlinks : tree.linkFault? = none) {σ : Type}
    (visit : Visitor σ) (start : σ) :
    (∀ result, tree.RecursesTo visit start result ↔ tree.traverse visit start = result) ∧
      (∀ noted, tree.RecursesTo visit.noting (start, []) noted ↔
        tree.traverse visit.noting (start, []) = noted) ∧
      (tree.traverse visit.noting (start, [])).1.1 = (tree.traverse visit start).1 ∧
      ((∀ state id node, (visit state id node).isSome = true) →
        (tree.traverse visit start).2 = .finished) := by
  have hlinked := (linkFault?_eq_none_iff tree).mp hlinks
  refine ⟨hlinked.recursesTo_iff visit start, hlinked.recursesTo_iff visit.noting _,
    ?_, fun hanswers => hlinked.traverse_finishes hanswers start⟩
  exact ((alike_noting tree visit).traverse (rfl : (start, ([] : List NodeId)).1 = start)).1

/-- A function with a parameter and a body, and a variable after it. -/
def branchSample : CursorTree where
  spelling := "t.c"
  nodes := #[{ kind := .unit, spelling := "t.c", location := .nowhere, children := #[1, 4] },
    { kind := .function, spelling := "f", location := { file := "t.c", line := 1 },
      children := #[2, 3] },
    { kind := .parameter, spelling := "a", location := { file := "t.c", line := 1 } },
    { kind := .unexposed "compound_statement", spelling := "",
      location := { file := "t.c", line := 2 } },
    { kind := .variable, spelling := "x", location := { file := "t.c", line := 3 } }]

/-- A visitor that counts its visits and stops the walk at the second one. -/
def stopsAtSecond : Visitor Nat := fun count _ _ =>
  some (count + 1, if count = 1 then .stop else .descend)

theorem traverse_eq_recursive_branchSample :
    branchSample.linkFault? = none ∧
      branchSample.RecursesTo stopsAtSecond 0 (2, .finished) ∧
      branchSample.RecursesTo stopsAtSecond.noting (0, []) ((2, [1, 2]), .finished) := by
  have hlinks : branchSample.linkFault? = none := by decide
  obtain ⟨hwalk, hnoted, -, -⟩ := traverse_eq_recursive hlinks stopsAtSecond 0
  exact ⟨hlinks, (hwalk _).mpr (by decide), (hnoted _).mpr (by decide)⟩

end CursorTree
end SourceIndex
