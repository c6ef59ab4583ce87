import SourceIndex.Lowering.Rules

/-!
# Lowering a file

The meaning of a parse tree is how it is lowered, and it is a function of the
node at the top and of the meanings of the children.  So the recursion over the
parse tree is one structural recursion, and a property of all lowerings can be
proved by one induction whose step is a statement about the rules.
-/

namespace SourceIndex
namespace Lowering

/-- How a parse tree is lowered, in any place it may stand in. -/
structure Meaning where
  label : Label
  name? : Option Label
  declaresFunction : Bool
  member? : Option Label
  lower : Place → NodeId → Pass PUnit
  lowerDeclarator : NodeId → Pass PUnit
  lowerContents : NodeId → Pass PUnit

/-- A tree as its parent's rule sees it in a place. -/
def Meaning.at (meaning : Meaning) (place : Place) : Part where
  label := meaning.label
  name? := meaning.name?
  declaresFunction := meaning.declaresFunction
  member? := meaning.member?
  lower := meaning.lower place
  lowerDeclarator := meaning.lowerDeclarator
  lowerContents := meaning.lowerContents

/-- Whether a tree fills a field of its parent. -/
def Meaning.fills (meaning : Meaning) (field : String) : Bool :=
  meaning.label.field == some field

/-- Whether the type of a node is used by it.  A declaration without declarators
only declares the tag it names. -/
def usesType (label : Label) (children : List Meaning) : Bool :=
  !(["declaration", "field_declaration"].contains label.kind &&
    !children.any fun child => child.fills "declarator")

/-- The children of a node in their places.  Of the children that could be the
type of the node, the first one is. -/
def placeChildren (label : Label) (usesType : Bool) : List Meaning → List Part
  | [] => []
  | child :: rest =>
    let isType := child.fills "type"
    child.at { underDefined := label.kind == "preproc_defined", asType := isType && usesType } ::
      placeChildren label (usesType && !isType) rest

/-- The meaning of a node whose children have these meanings. -/
def Meaning.ofNode (source : Source) (label : Label) (children : List Meaning) : Meaning :=
  let parts := placeChildren label (usesType label children) children
  { label := label
    name? := declaredName? label parts
    declaresFunction := Lowering.declaresFunction label parts
    member? := (field? parts "field").map fun part => part.label
    lower := fun place parent =>
      if label.named && label.kind != "comment" then
        nested source.limit (lowerNode source place label parts parent)
      else pure ()
    lowerDeclarator := fun parent =>
      nested source.limit (Lowering.lowerDeclarator label parts parent)
    lowerContents := lowerNamed parts }

mutual

/-- The meaning of a parse tree. -/
def meaning (source : Source) : ParseTree → Meaning
  | .node label children => Meaning.ofNode source label (meanings source children)

/-- The meanings of several parse trees. -/
def meanings (source : Source) : List ParseTree → List Meaning
  | [] => []
  | tree :: rest => meaning source tree :: meanings source rest

end

/-- The state before anything has been lowered. -/
def State.start (file : String) : State :=
  { tree := .ofFile file }

/-- The state after a parse tree has been lowered below the root. -/
def run (source : Source) (tree : ParseTree) : State :=
  ((meaning source tree).lowerContents CursorTree.root (State.start source.file)).2

/-- The tree of cursors of a file; none if the file is nested too deep. -/
def lowerFile? (source : Source) (tree : ParseTree) : Option CursorTree :=
  let state := run source tree
  if state.tooDeep then none else some state.finish

end Lowering
end SourceIndex
