import SourceIndex.FileTree
import SourceIndex.Outcome

/-!
# Stores on disk

Opening a store makes the directories above it and sets up what its tables lack.
A path that leads to nothing, or to an empty file, opens as a new store.  The
path is taken in its normal form, so that slashes at its end do not count.  Two
texts are no paths but names of stores that are on no disk.
-/

namespace SourceIndex

/-- Why a store cannot be opened. -/
inductive OpenFault where
  /-- The directory of the store cannot be made. -/
  | noDirectory (path : String) (fault : IoFault)
  /-- There is something else in its place. -/
  | notAStore
  deriving DecidableEq, Repr

/-- The wording of a fault and of its cause. -/
def OpenFault.chain : OpenFault → List String
  | .noDirectory path fault => ["Failed to create directory: " ++ path, fault.message]
  | .notAStore => ["Failed to create connection pool"]

namespace FileTree

/-- Makes the directory in which a path stands. -/
def makeParent (tree : FileTree) (path : String) : Except OpenFault FileTree :=
  match Path.parent? path with
  | none => .ok tree
  | some dir =>
    match tree.makeDirectories dir with
    | .error fault => .error (.noDirectory dir fault)
    | .ok tree => .ok tree

/-- The names of stores that are new whenever they are opened, and gone when they
are closed. -/
def passingStores : List String := ["", ":memory:"]

/-- The name of the store that a path leads to, and its tables as they are. -/
def storeAt? (tree : FileTree) (path : String) : Option (List String × Store) :=
  match tree.resolve (Path.normalize path) with
  | .ok (.absent name) => some (name, {})
  | .ok (.present name (.store store)) => some (name, store)
  | .ok (.present name (.file [])) => some (name, {})
  | _ => none

/-- Opens a store.  This crashes on a store with a layout that never was. -/
def openStore (tree : FileTree) (path : String) : Outcome OpenFault (Store × FileTree) :=
  match tree.makeParent path with
  | .error fault => .failed fault
  | .ok tree =>
    if passingStores.contains path then .done (.fresh, tree)
    else
      match tree.storeAt? path with
      | none => .failed .notAStore
      | some (name, store) =>
        match store.setUp? with
        | none => .crashed
        | some store => .done (store, tree.put name (.store store))

/-- Writes a store back to where it was opened. -/
def writeStore (tree : FileTree) (path : String) (store : Store) : FileTree :=
  if passingStores.contains path then tree
  else
    match tree.storeAt? path with
    | none => tree
    | some (name, _) => tree.put name (.store store)

end FileTree
end SourceIndex
