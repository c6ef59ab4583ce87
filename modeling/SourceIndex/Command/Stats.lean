import SourceIndex.Command.Basic
import SourceIndex.Text.Moment

/-!
# The command that tells about a store
-/

namespace SourceIndex

/-- A number of bytes in megabytes. -/
def megabytes (bytes : Nat) : String :=
  Decimal.hundredths bytes (1024 * 1024) ++ " MB"

/-- The text of the time of the last entry. -/
def lastIndexedText (time : Option Int) : String :=
  (time.bind Moment.text?).getD "never"

/-- The lines about the entries of a store. -/
def StoreStats.lines (storeSize : String) (stats : StoreStats) : List String :=
  ["", "Index Statistics:",
   "  Entries: " ++ toString stats.totalEntries,
   "  Stored records: " ++ megabytes stats.totalBytes,
   "  Index size: " ++ storeSize]

/-- Tells about a store, after `out` has been printed. -/
def tellStore (around : Surroundings) (out : String) (files : FileTree) (store : Store) : Printed :=
  match store.stats with
  | .error fault => .failed out (.store fault) files
  | .ok stats =>
    let out := out ++ textOfLines (stats.lines (around.storeSize store))
    match store.keyStrategy with
    | .error fault => .failed out (.store fault) files
    | .ok strategy =>
      .done (out ++ textOfLines (
        (strategy.toList.map fun strategy => "  Key strategy: " ++ strategy.name) ++
        ["  Last indexed: " ++ lastIndexedText stats.lastIndexed])) files

/-- Tells about the store of a project. -/
def showStats (around : Surroundings) (files : FileTree) (named : Option String) : Printed :=
  match Project.load files named with
  | .error fault => .failed "" fault files
  | .ok project =>
    let path := project.storePath
    let out := textOfLines ["cxxgraph statistics v" ++ programVersion, "Project: " ++ project.root]
    if files.exists path then
      match files.openStore path with
      | .failed fault => .failed out (.openStore fault) files
      | .crashed => .crashed out files
      | .done (store, files) => tellStore around out files store
    else .done (out ++ textOfLines ["", noIndexMessage path]) files

end SourceIndex
