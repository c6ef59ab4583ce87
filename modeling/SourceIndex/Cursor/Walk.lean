import SourceIndex.Cursor.Links

/-!
# Walking a tree of cursors

A walk visits the cursors below the root depth first, parents before children
and children from left to right.  A visit answers whether to stop, to skip the
cursor's children or to go on into them.

`CursorTree.walk` keeps the cursors that are still to come on a stack.  Trees
that fail the link check can make it come back to a cursor for ever, so it
carries a bound on the number of visits; `CursorTree.traverse` chooses one that
is never reached on a tree in which no cursor is its own descendant.
-/

namespace SourceIndex

/-- What to do after a visit. -/
inductive Visit where
  /-- Stop the whole walk. -/
  | stop
  /-- Go on with the next sibling. -/
  | skip
  /-- Go on with the cursor's children. -/
  | descend
  deriving DecidableEq, Repr

/-- How a walk ended. -/
inductive WalkEnd where
  /-- All cursors were visited, or a visit stopped the walk. -/
  | finished
  /-- A link without a target was followed. -/
  | brokenLink
  /-- The bound on the number of visits was reached. -/
  | unbounded
  deriving DecidableEq, Repr

/-- A visitor with a state.  It has no answer if it would have to follow a link
without a target. -/
abbrev Visitor (σ : Type) := σ → NodeId → Node → Option (σ × Visit)

namespace CursorTree

/-- Visits the cursors on the stack, first one first, `bound` visits at most. -/
def walk {σ : Type} (tree : CursorTree) (visit : Visitor σ) :
    (bound : Nat) → List NodeId → σ → σ × WalkEnd
  | _, [], state => (state, .finished)
  | 0, _ :: _, state => (state, .unbounded)
  | bound + 1, id :: stack, state =>
    match tree.nodes[id]? with
    | none => (state, .brokenLink)
    | some node =>
      match visit state id node with
      | none => (state, .brokenLink)
      | some (state, .stop) => (state, .finished)
      | some (state, .skip) => walk tree visit bound stack state
      | some (state, .descend) => walk tree visit bound (node.children.toList ++ stack) state

/-- A bound on the number of visits: below the root of a well linked tree each
cursor is visited once, and below the root of any tree without a cycle each
visit has its own way down, of which there are no more than this. -/
def visitBound (tree : CursorTree) : Nat :=
  match tree.linkFault? with
  | none => tree.nodes.size
  | some _ => Nat.pow (tree.childLinks.length + 2) tree.nodes.size

/-- Visits the cursors below the root. -/
def traverse {σ : Type} (tree : CursorTree) (visit : Visitor σ) (state : σ) : σ × WalkEnd :=
  match tree.nodes[root]? with
  | none => (state, .brokenLink)
  | some top => walk tree visit tree.visitBound top.children.toList state

end CursorTree
end SourceIndex
