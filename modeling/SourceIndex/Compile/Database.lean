import SourceIndex.Compile.Command
import SourceIndex.FileTree
import SourceIndex.Settings.Basic

/-!
# Projects and their compilation databases

Finding the root of a project, and loading its compilation database: the first
usable command of each file in range, in the order of the database, with the
configured system directories in front of its flags.
-/

namespace SourceIndex

/-- Why a project cannot be indexed. -/
inductive ProjectFault where
  | badRoot (root : String) (fault : IoFault)
  | badStart (start : String) (fault : IoFault)
  | noRoot (database start : String)
  | unreadable (path : String) (fault : IoFault)
  | malformed (path : String)
  | noCommands (path : String)
  deriving DecidableEq, Repr

/-- The wording of a fault. -/
def ProjectFault.message (fault : ProjectFault) : String :=
  "configuration error: " ++
    match fault with
    | .badRoot root fault => "project root " ++ root ++ ": " ++ fault.message
    | .badStart start fault => start ++ ": " ++ fault.message
    | .noRoot database start => "no " ++ database ++ " or .git found above " ++ start
    | .unreadable path fault => "cannot read " ++ path ++ ": " ++ fault.message
    | .malformed path => "malformed " ++ path
    | .noCommands path => "no compile commands in " ++ path

/-- Whether a directory is the root of a project. -/
def isProjectRoot (tree : FileTree) (database dir : String) : Bool :=
  tree.isFile (Path.join dir database) || tree.exists (Path.join dir ".git")

/-- The nearest project root on the way up from a directory. -/
def findProjectRoot (tree : FileTree) (database start : String) : Option String :=
  (Path.ancestors start).find? (isProjectRoot tree database)

/-- The project root that is named, or else the nearest one above `start`. -/
def resolveRoot (tree : FileTree) (named : Option String) (start database : String) :
    Except ProjectFault String :=
  match named with
  | some root =>
    match tree.canonicalize root with
    | .error fault => .error (.badRoot root fault)
    | .ok root => .ok root
  | none =>
    match tree.canonicalize start with
    | .error fault => .error (.badStart start fault)
    | .ok start =>
      match findProjectRoot tree database start with
      | none => .error (.noRoot database start)
      | some root => .ok root

/-- Whether a file is in range. -/
def inRange (ranges : List String) (file : String) : Bool :=
  ranges.isEmpty || ranges.any fun start => Path.startsWithText start file

/-- A flag in front of each of several directories. -/
def flagEach (flag : String) (dirs : List String) : List String :=
  dirs.flatMap fun dir => [flag, dir]

/-- A command with the configured system directories in front of its flags. -/
def CompileCommand.withSystemDirs (settings : CompilationSettings) (command : CompileCommand) :
    CompileCommand :=
  { command with
    arguments := flagEach "-isystem" settings.systemCDirs ++
      (if Path.endsWithText ".c" command.file then [] else flagEach "-isystem" settings.systemCxxDirs) ++
      flagEach "-F" settings.frameworkDirs ++ command.arguments }

/-- The commands in range whose file does not stand in `seen` or earlier in the
list. -/
def selectCommands (ranges seen : List String) : List CompileCommand → List CompileCommand
  | [] => []
  | command :: rest =>
    if inRange ranges command.file && !seen.contains command.file then
      command :: selectCommands ranges (command.file :: seen) rest
    else selectCommands ranges seen rest

/-- The commands of the entries of a database. -/
def commandsOf (root : String) (settings : CompilationSettings) (entries : List RawCommand) :
    List CompileCommand :=
  let ranges := settings.pathRange.map (Path.absolutize root)
  (selectCommands ranges [] (entries.filterMap RawCommand.normalize?)).map
    (CompileCommand.withSystemDirs settings)

/-- The entries that a text lists. -/
def entriesOf? (text : String) : Option (List RawCommand) :=
  match Json.parse? text with
  | some (.array items) => items.mapM RawCommand.ofJson?
  | _ => none

/-- The commands of the database of a project. -/
def loadCommands (tree : FileTree) (root : String) (settings : CompilationSettings) :
    Except ProjectFault (List CompileCommand) :=
  let path := Path.join root settings.database
  match tree.readText path with
  | .error fault => .error (.unreadable path fault)
  | .ok text =>
    match entriesOf? text with
    | none => .error (.malformed path)
    | some entries =>
      match commandsOf root settings entries with
      | [] => .error (.noCommands path)
      | commands => .ok commands

end SourceIndex
