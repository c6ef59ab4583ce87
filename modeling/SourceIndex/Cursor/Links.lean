import SourceIndex.Cursor.Tree

/-!
# Link check

A tree that comes from a file may hold any links.  `CursorTree.linkFault?` is
one pass over the arena in order that remembers which nodes have a parent; it
stops at the first fault.  For each node the targets of all its links are looked
at before its children are claimed.

`CursorTree.WellLinked` states the property that the pass decides.
-/

namespace SourceIndex

/-- What can be wrong with the links of a tree. -/
inductive LinkFault where
  | emptyArena
  | missingTarget (node target : NodeId)
  | rootAsChild (node : NodeId)
  | secondParent (node : NodeId)
  deriving DecidableEq, Repr

/-- The wording of a link fault. -/
def LinkFault.message : LinkFault → String
  | .emptyArena => "empty node arena"
  | .missingTarget node target =>
    "node " ++ toString node ++ " links to missing node " ++ toString target
  | .rootAsChild node => "node " ++ toString node ++ " lists the root as a child"
  | .secondParent node => "node " ++ toString node ++ " has more than one parent"

/-- All links of a node: children, then definition, then referenced entity. -/
def Node.links (node : Node) : List NodeId :=
  node.children.toList ++ node.definition.toList ++ node.referenced.toList

namespace CursorTree

/-- Gives the children in the list a parent.  `claimed` holds, for each node,
whether it already has one. -/
def claimChildren (node : NodeId) : List NodeId → Array Bool → Except LinkFault (Array Bool)
  | [], claimed => .ok claimed
  | child :: rest, claimed =>
    if child = root then .error (.rootAsChild node)
    else if claimed.getD child false then .error (.secondParent child)
    else claimChildren node rest (claimed.setIfInBounds child true)

/-- Checks one node of a tree of `size` nodes. -/
def checkNode (size : Nat) (id : NodeId) (node : Node) (claimed : Array Bool) :
    Except LinkFault (Array Bool) :=
  match node.links.find? fun target => size ≤ target with
  | some target => .error (.missingTarget id target)
  | none => claimChildren id node.children.toList claimed

/-- Checks the nodes of a tree of `size` nodes in order, from position `id` on. -/
def checkNodes (size : Nat) : NodeId → List Node → Array Bool → Except LinkFault (Array Bool)
  | _, [], claimed => .ok claimed
  | id, node :: rest, claimed =>
    match checkNode size id node claimed with
    | .error fault => .error fault
    | .ok claimed => checkNodes size (id + 1) rest claimed

/-- The first fault in the links of a tree.  There is none if all links have
targets and no node is listed as a child twice and the root never. -/
def linkFault? (tree : CursorTree) : Option LinkFault :=
  if tree.nodes.isEmpty then some .emptyArena
  else
    match checkNodes tree.nodes.size 0 tree.nodes.toList (Array.replicate tree.nodes.size false) with
    | .error fault => some fault
    | .ok _ => none

/-- All child links of a tree, in arena order. -/
def childLinks (tree : CursorTree) : List NodeId :=
  tree.nodes.toList.flatMap fun node => node.children.toList

/-- The links of a tree are sound: it has a root, every link has a target, the
root is nobody's child, and no node is listed as a child twice. -/
structure WellLinked (tree : CursorTree) : Prop where
  nonempty : tree.nodes ≠ #[]
  targets : ∀ node ∈ tree.nodes.toList, ∀ target ∈ node.links, target < tree.nodes.size
  rootFree : root ∉ tree.childLinks
  oneParent : tree.childLinks.Nodup

end CursorTree
end SourceIndex
