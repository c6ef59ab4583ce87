import SourceIndex.Parse.Options
import SourceIndex.Store.Key

/-!
# Settings

The settings of a project, with the values they have if nothing is said, and the
checks every set of values has to pass.
-/

namespace SourceIndex

/-- Settings about the compilation database. -/
structure CompilationSettings where
  /-- The name of the database, seen from the project root. -/
  database : String := "compile_commands.json"
  /-- Only files whose path starts with one of these are indexed; all files if
  there are none. -/
  pathRange : List String := []
  systemCDirs : List String := []
  systemCxxDirs : List String := []
  frameworkDirs : List String := []
  deriving DecidableEq, Repr

/-- Settings about indexing. -/
structure IndexingSettings where
  /-- The number of workers; zero for as many as the machine can run. -/
  jobs : Nat := 0
  queueCapacity : Nat := 64
  keyStrategy : KeyStrategy := .path
  scratchDir : Option String := none
  /-- The path of the store, seen from the project root. -/
  storePath : String := ".cxxgraph/index.db"
  deriving DecidableEq, Repr

/-- The settings of a project. -/
structure Settings where
  /-- The project root, if it is not the directory the settings were found in. -/
  root : Option String := none
  compilation : CompilationSettings := {}
  indexing : IndexingSettings := {}
  parsing : ParseOptions := {}
  deriving DecidableEq, Repr

/-- What can be wrong with settings. -/
inductive SettingsFault where
  | emptyDatabase
  | emptyRange
  | zeroCapacity
  | emptyStorePath
  | emptyScratchDir
  deriving DecidableEq, Repr

/-- The wording of a fault. -/
def SettingsFault.message : SettingsFault → String
  | .emptyDatabase => "Compilation database name cannot be empty"
  | .emptyRange => "Path range entries cannot be empty"
  | .zeroCapacity => "Queue capacity must be greater than 0"
  | .emptyStorePath => "Store path cannot be empty"
  | .emptyScratchDir => "Scratch directory cannot be empty"

namespace Settings

/-- The name of the file in which a project keeps its settings. -/
def fileName : String := ".cxxgraph.toml"

/-- The first fault of a set of values. -/
def fault? (settings : Settings) : Option SettingsFault :=
  if settings.compilation.database == "" then some .emptyDatabase
  else if settings.compilation.pathRange.any (· == "") then some .emptyRange
  else if settings.indexing.queueCapacity == 0 then some .zeroCapacity
  else if settings.indexing.storePath == "" then some .emptyStorePath
  else if settings.indexing.scratchDir == some "" then some .emptyScratchDir
  else none

/-- The path of the store of a project. -/
def storePath (settings : Settings) (root : String) : String :=
  Path.join root settings.indexing.storePath

/-- The directory for scratch files of a project, if it is not the system's. -/
def scratchDir? (settings : Settings) (root : String) : Option String :=
  settings.indexing.scratchDir.map fun dir => Path.join root dir

end Settings
end SourceIndex
