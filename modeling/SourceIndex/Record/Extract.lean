import SourceIndex.Cursor.Walk
import SourceIndex.Record.Basic

/-!
# From a tree to a record

One walk over all cursors of a tree; each cursor at an indexable location adds
what its kind contributes.  Cursors that contribute nothing can be tallied by the
name of their kind, and the tally may go on over many trees.
-/

namespace SourceIndex

/-- How often names have been counted, in the order of their first time. -/
abbrev Tally := List (String × Nat)

namespace Tally

/-- Counts a name once more. -/
def count (tally : Tally) (name : String) : Tally :=
  match tally with
  | [] => [(name, 1)]
  | (known, times) :: rest =>
    if known == name then (known, times + 1) :: rest else (known, times) :: count rest name

/-- Whether an entry may stand before another: more often, or as often and not
greater by name. -/
def precedes (a b : String × Nat) : Bool :=
  b.2 < a.2 || (a.2 == b.2 && !(b.1 < a.1))

/-- The entries with the most frequent first, and by name among equals. -/
def ranking (tally : Tally) : List (String × Nat) :=
  tally.mergeSort precedes

end Tally

/-- What an extraction has found so far.  There is no tally if none is wanted. -/
structure Extraction where
  record : Record
  tally : Option Tally := none
  deriving DecidableEq, Repr

namespace Extraction

/-- Changes the record. -/
def withRecord (found : Extraction) (change : Record → Record) : Extraction :=
  { found with record := change found.record }

/-- Adds what a cursor contributes.  There is no answer if that is the location
of a node that is missing from the tree. -/
def addCursor? (tree : CursorTree) (found : Extraction) (id : NodeId) (node : Node) :
    Option Extraction :=
  match node.kind.classification with
  | .declared =>
    match node.definition with
    | none => some (found.withRecord (·.addDeclaration node.location))
    | some target =>
      if target = id then some (found.withRecord (·.addDeclaration node.location))
      else
        tree.nodes[target]?.map fun definition =>
          found.withRecord (·.addDefinition node.location definition.location)
  | .selfDefined => some (found.withRecord (·.addDefinition node.location node.location))
  | .variable => some (found.withRecord (·.addDeclaration node.location))
  | .parameter =>
    some (if node.spelling == "" then found else found.withRecord (·.addDeclaration node.location))
  | .reference isCall =>
    match node.referenced with
    | none => some (found.withRecord (·.addReference node.location .nowhere isCall))
    | some target =>
      tree.nodes[target]?.map fun referenced =>
        found.withRecord (·.addReference node.location referenced.location isCall)
  | .header => some (found.withRecord (·.addHeader node.spelling (node.includedFile.getD "")))
  | .ignored => some { found with tally := found.tally.map (·.count node.kind.name) }

/-- Adds a cursor at an indexable location and goes on below it. -/
def visit (tree : CursorTree) : Visitor Extraction := fun found id node =>
  if node.location.isIndexable then
    (addCursor? tree found id node).map fun found => (found, .descend)
  else some (found, .descend)

end Extraction

/-- The record of a tree, and how the walk over the tree ended. -/
def extract (tree : CursorTree) (path : String) (flags : List String) (tally : Option Tally) :
    Extraction × WalkEnd :=
  tree.traverse (Extraction.visit tree) { record := { path, flags }, tally }

end SourceIndex
