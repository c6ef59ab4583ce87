/-!
# Parse trees

A parse tree is what a grammar makes of the bytes of a file: nodes with a kind,
a byte range and, where the grammar gives one, the name of the field by which the
parent holds them.  Anonymous nodes (operators and other marks) are kept only if
they fill a field.
-/

namespace SourceIndex

/-- A node of a parse tree without its children. -/
structure Label where
  kind : String
  /-- Whether the node is more than a mark of the grammar. -/
  named : Bool
  field : Option String
  start : Nat
  stop : Nat
  deriving DecidableEq, Repr, Inhabited

/-- A parse tree. -/
inductive ParseTree where
  | node (label : Label) (children : List ParseTree)
  deriving Repr

namespace ParseTree

/-- The node at the top of a tree. -/
def label : ParseTree → Label
  | .node label _ => label

/-- A node of a tree written as a table: the row of its parent, and the node. -/
structure Row where
  parent : Option Nat
  label : Label
  deriving Repr, Inhabited

/-- Builds the tree of one row from the subtrees of later rows, which wait in the
slots of their parents. -/
def addRow (row : Row × Nat) (built : Array (List ParseTree) × Option ParseTree) :
    Array (List ParseTree) × Option ParseTree :=
  let tree := ParseTree.node row.1.label (built.1.getD row.2 [])
  match row.1.parent with
  | none => (built.1, some tree)
  | some parent => (built.1.modify parent (tree :: ·), built.2)

/-- The tree that a table in pre-order describes. -/
def ofRows? (rows : Array Row) : Option ParseTree :=
  (rows.toList.zipIdx.foldr addRow (Array.replicate rows.size [], none)).2

end ParseTree

/-- What a grammar answers for a file. -/
structure Parsed where
  /-- Whether some part of the file does not follow the grammar. -/
  hasErrors : Bool
  tree : ParseTree
  deriving Repr

end SourceIndex
