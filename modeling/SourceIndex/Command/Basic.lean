import SourceIndex.Parse.File
import SourceIndex.Compile.Database
import SourceIndex.Pipeline.Index
import SourceIndex.Settings.File
import SourceIndex.Store.File

/-!
# Commands

A command works on a directory tree, prints a text, and may fail.  What it prints
before it fails stays printed.  A failure is a cause together with the causes
behind it.
-/

namespace SourceIndex

/-- Why a command fails. -/
inductive CommandFault where
  | project (fault : ProjectFault)
  /-- The project root that the settings name is not there. -/
  | configuredRoot (path : String) (fault : IoFault)
  | unknownStrategy (name : String)
  | settings (fault : SettingsFault)
  | openStore (fault : OpenFault)
  /-- The store cannot take the name of the key strategy. -/
  | unrecordedStrategy (fault : StoreFault)
  | store (fault : StoreFault)
  | index (fault : IndexFault)
  | noIndex (path : String)
  | noRecord (file : String)
  | unreadableRecord (path : String) (fault : RecordFault)
  | unknownFormat (name : String)
  deriving DecidableEq, Repr

/-- What is said where a store is looked for and there is none. -/
def noIndexMessage (path : String) : String :=
  "No index at " ++ path ++ ". Run `cxxgraph index` first."

/-- The wording of a fault, followed by the wordings of the causes behind it. -/
def CommandFault.chain : CommandFault → List String
  | .project fault => [fault.message]
  | .configuredRoot path fault => ["Configured project root " ++ path ++ " not found", fault.message]
  | .unknownStrategy name => [KeyStrategy.unknownMessage name]
  | .settings fault => [fault.message]
  | .openStore fault => fault.chain
  | .unrecordedStrategy fault => ["Failed to record the key strategy", fault.message]
  | .store fault => [fault.message]
  | .index fault => [fault.message]
  | .noIndex path => [noIndexMessage path]
  | .noRecord file => ["No record for " ++ file]
  | .unreadableRecord path fault => ["Stored record for " ++ path ++ " is unreadable", fault.message]
  | .unknownFormat name => ["Unknown output format: " ++ name]

/-- Lines as a text. -/
def textOfLines (lines : List String) : String :=
  String.join (lines.map fun line => line ++ "\n")

/-- What a command has printed, how it ended, and the files afterwards. -/
structure Printed where
  out : String
  result : Outcome CommandFault Unit
  files : FileTree

namespace Printed

/-- A command that ended well. -/
def done (out : String) (files : FileTree) : Printed :=
  { out, result := .done (), files }

/-- A command that failed. -/
def failed (out : String) (fault : CommandFault) (files : FileTree) : Printed :=
  { out, result := .failed fault, files }

/-- A command that crashed. -/
def crashed (out : String) (files : FileTree) : Printed :=
  { out, result := .crashed, files }

end Printed

/-- What commands take from the machine they run on. -/
structure Surroundings where
  grammars : Grammars
  /-- The reading of the clock, in seconds since the start of 1970. -/
  now : Int
  /-- How long indexing took, as it is told. -/
  elapsed : String
  /-- How large a store is on disk, as it is told. -/
  storeSize : Store → String

/-- The version of the program. -/
def programVersion : String := "0.1.0"

/-- How the parser names itself. -/
def parserVersion : String := "tree-sitter (language ABI 15)"

/-- A project: its root and its settings. -/
structure Project where
  root : String
  settings : Settings
  deriving DecidableEq, Repr

namespace Project

/-- The project whose root is named, or else the nearest one above the working
directory.  A root that the settings name counts only if no other was named. -/
def load (files : FileTree) (named : Option String) : Except CommandFault Project :=
  match resolveRoot files named files.workPath ({} : CompilationSettings).database with
  | .error fault => .error (.project fault)
  | .ok root =>
    let settings := Settings.ofProjectDir files root
    match named, settings.root with
    | none, some configured =>
      let path := Path.join root configured
      match files.canonicalize path with
      | .error fault => .error (.configuredRoot path fault)
      | .ok root => .ok { root, settings }
    | _, _ => .ok { root, settings }

/-- The path of the store of a project. -/
def storePath (project : Project) : String :=
  project.settings.storePath project.root

end Project
end SourceIndex
