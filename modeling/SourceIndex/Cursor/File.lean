import SourceIndex.Parse.Fault

/-!
# Trees in files

Saving a tree to a file and loading it again.
-/

namespace SourceIndex
namespace CursorTree

/-- Writes the saved form of a tree.  A tree with errors is only saved if that is
asked for. -/
def save (tree : CursorTree) (files : FileTree) (path : String) (keepGoing : Bool) :
    Except UnitFault FileTree :=
  if tree.hasErrors && !keepGoing then .error (.unsaved (.hasErrors tree.spelling))
  else
    match files.write path tree.toBytes with
    | .error fault => .error (.unsaved (.unwritable path fault))
    | .ok files => .ok files

/-- Reads a tree from its saved form. -/
def load (files : FileTree) (path : String) : Except UnitFault CursorTree :=
  match files.read path with
  | .error fault => .error (.unreadable path fault)
  | .ok bytes =>
    match ofBytes bytes with
    | .error fault => .error (.malformed path fault)
    | .ok tree => .ok tree

end CursorTree
end SourceIndex
