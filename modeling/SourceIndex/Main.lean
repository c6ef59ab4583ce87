import SourceIndex.Command.Line
import SourceIndex.Store.Saved

/-!
# The program

The outer layer: it reads the directory of a project into a tree, runs the
program on the tree, prints what there is to print, and writes back the files
that changed.

The grammars are no part of this library.  Without them no file has a parse tree.
-/

namespace SourceIndex
namespace Program

/-- What stands in a file. -/
def entryOfBytes (bytes : ByteArray) : Entry :=
  let content := bytes.toList
  match Store.ofBytes? content with
  | some store => .store store
  | none => .file content

/-- The bytes of an entry that is no directory. -/
def bytesOfEntry? : Entry → Option ByteArray
  | .directory => none
  | .file content => some ⟨content.toArray⟩
  | .store store => some ⟨store.toBytes.toArray⟩

/-- The directories on the way to a name, and the one of that name. -/
def directoriesTo (name : List String) : List (List String × Entry) :=
  (List.range name.length).map fun i => (name.take (i + 1), .directory)

/-- Reads all entries below a directory. -/
partial def readBelow (name : List String) : IO (List (List String × Entry)) := do
  let dir ← IO.FS.realPath (FileTree.pathOf name)
  let mut found := []
  for entry in ← dir.readDir do
    let inner := name ++ [entry.fileName]
    if ← entry.path.isDir then
      found := (inner, .directory) :: found
      if entry.fileName != ".git" then
        found := (← readBelow inner) ++ found
    else
      found := (inner, entryOfBytes (← IO.FS.readBinFile entry.path)) :: found
  return found

/-- Whether a directory is the root of a project. -/
def isRoot (dir : String) : IO Bool := do
  let names := (← (← IO.FS.realPath dir).readDir).toList.map fun entry => entry.fileName
  return names.contains ({} : CompilationSettings).database || names.contains ".git"

/-- The nearest root of a project among directories, the first one if there is
none. -/
def nearestRoot (here : String) : List String → IO String
  | [] => return here
  | dir :: above => do
    if ← isRoot dir then return dir else nearestRoot here above

/-- The files that the program may ask for. -/
def snapshot (named : Option String) : IO FileTree := do
  let here ← IO.currentDir
  let workDir := Path.steps here.toString
  let root ← match named with
    | some root => pure (← IO.FS.realPath root).toString
    | none => nearestRoot here.toString (Path.ancestors here.toString)
  let name := Path.steps root
  let below ← readBelow name
  let entries := below ++ directoriesTo name ++ directoriesTo workDir ++
    directoriesTo (Path.steps Scratch.systemDir)
  return { entries, workDir }

/-- The project that a command line names. -/
def namedProject (arguments : List String) : Option String :=
  match Invocation.ofArguments {} arguments with
  | .run (.index request) => request.project
  | .run (.stats project) => project
  | .run (.show request) => request.project
  | _ => none

/-- Writes back what changed. -/
def writeBack (before after : FileTree) : IO Unit := do
  for (name, entry) in after.entries.reverse do
    if before.entry? name != some entry then
      let path := FileTree.pathOf name
      match bytesOfEntry? entry with
      | none => IO.FS.createDirAll path
      | some bytes => IO.FS.writeBinFile path bytes

/-- The reading of the clock, in seconds: the time at which a new file was made. -/
def clock : IO Int := do
  let (_, path) ← IO.FS.createTempFile
  let time := (← path.metadata).modified.sec
  IO.FS.removeFile path
  return time

/-- What stands for the time that a run takes, as long as the run goes on. -/
def elapsedMark : String := "<elapsed>"

/-- Runs the program. -/
def run (arguments : List String) : IO UInt32 := do
  let files ← try snapshot (namedProject arguments) catch _ => pure {}
  let around : Surroundings :=
    { grammars := fun _ _ => none, now := ← clock, elapsed := elapsedMark
      storeSize := fun store => megabytes store.toBytes.length }
  let start ← IO.monoMsNow
  let finished := runProgram around files arguments
  IO.eprint finished.err
  let elapsed := toString ((← IO.monoMsNow) - start) ++ "ms"
  IO.print (finished.out.replace elapsedMark elapsed)
  writeBack files finished.files
  return UInt32.ofNat finished.status

end Program
end SourceIndex

/-- The command line of the program. -/
def main (arguments : List String) : IO UInt32 :=
  SourceIndex.Program.run arguments
