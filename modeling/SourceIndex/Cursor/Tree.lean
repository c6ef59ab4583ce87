import SourceIndex.Cursor.Kind
import SourceIndex.Location

/-!
# Trees of cursors

A lowered source file is an arena of nodes.  A node is named by its position in
the arena, node 0 is the root, and links between nodes (children, definition,
referenced entity) are such positions.  Nothing here promises that a link has a
target; `SourceIndex.Cursor.Links` says which trees keep that promise.
-/

namespace SourceIndex

/-- The position of a node in its arena. -/
abbrev NodeId := Nat

/-- One cursor: what it is, where it is, and its links. -/
structure Node where
  kind : CursorKind
  spelling : String
  location : Location
  children : Array NodeId := #[]
  definition : Option NodeId := none
  referenced : Option NodeId := none
  includedFile : Option String := none
  deriving DecidableEq, Repr, Inhabited

/-- A lowered source file. -/
structure CursorTree where
  spelling : String
  nodes : Array Node
  hasErrors : Bool := false
  deriving DecidableEq, Repr

namespace CursorTree

/-- The root of every tree. -/
def root : NodeId := 0

/-- The tree of a file in which nothing has been found yet. -/
def ofFile (spelling : String) : CursorTree where
  spelling := spelling
  nodes := #[{ kind := .unit, spelling := spelling, location := .nowhere }]

/-- The number of nodes. -/
def size (tree : CursorTree) : Nat :=
  tree.nodes.size

/-- Whether a tree has no node but its root. -/
def isEmpty (tree : CursorTree) : Bool :=
  tree.nodes.size ≤ 1

/-- Whether `id` names a node of the tree. -/
def has (tree : CursorTree) (id : NodeId) : Bool :=
  id < tree.nodes.size

/-- Changes one node; a missing node is left missing. -/
def update (tree : CursorTree) (id : NodeId) (change : Node → Node) : CursorTree :=
  { tree with nodes := tree.nodes.modify id change }

/-- Appends a node to the arena without making it anybody's child. -/
def append (tree : CursorTree) (node : Node) : CursorTree :=
  { tree with nodes := tree.nodes.push node }

/-- Appends a node as the last child of `parent`.  Its position is the size of
the tree before. -/
def push (tree : CursorTree) (parent : NodeId) (node : Node) : CursorTree :=
  (tree.append node).update parent fun above =>
    { above with children := above.children.push tree.nodes.size }

/-- Links a node to its definition. -/
def setDefinition (tree : CursorTree) (id target : NodeId) : CursorTree :=
  tree.update id fun node => { node with definition := some target }

/-- Links a node to the entity it refers to. -/
def setReferenced (tree : CursorTree) (id target : NodeId) : CursorTree :=
  tree.update id fun node => { node with referenced := some target }

/-- Records the file that an inclusion brings in. -/
def setIncludedFile (tree : CursorTree) (id : NodeId) (file : String) : CursorTree :=
  tree.update id fun node => { node with includedFile := some file }

/-- Marks the tree of a file that does not follow its grammar. -/
def markErrors (tree : CursorTree) : CursorTree :=
  { tree with hasErrors := true }

end CursorTree
end SourceIndex
