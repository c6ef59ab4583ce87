import SourceIndex.Cursor.File
import SourceIndex.Outcome

/-!
# Units on their way through scratch files

A parser only saves and restores units through named files.  So a unit becomes
bytes by way of a scratch file, and bytes become a unit by way of another; on
every way out the scratch file is taken away again.
-/

namespace SourceIndex

/-- How a unit takes to being saved. -/
inductive Saving where
  | normal
  | refuses
  | crashes
  deriving DecidableEq, Repr

/-- What a parser makes of a file. -/
structure SourceUnit where
  tree : CursorTree
  saving : Saving := .normal
  deriving DecidableEq, Repr

/-- Why a unit cannot be brought through a scratch file. -/
inductive CodecFault where
  | scratch (fault : IoFault)
  | unit (fault : UnitFault)
  | crashed
  deriving DecidableEq, Repr

/-- The wording of a fault. -/
def CodecFault.message : CodecFault → String
  | .scratch fault => "scratch file error: " ++ fault.message
  | .unit fault => fault.message
  | .crashed => "serialization task panicked"

/-- Where scratch files go, and what the device there refuses. -/
structure Scratch where
  /-- The directory; the system's if there is none. -/
  dir : Option String := none
  writeFault : Option IoFault := none
  readFault : Option IoFault := none
  deriving DecidableEq, Repr

namespace Scratch

/-- The system's directory for scratch files. -/
def systemDir : String := "/tmp"

/-- The start of the scratch names of a unit: its file name and a dash. -/
def hint (spelling : String) : String :=
  (Path.fileName? spelling).getD "" ++ "-"

/-- Six letters that number a scratch name. -/
def letters : (count : Nat) → (number : Nat) → List Char
  | 0, _ => []
  | count + 1, number => Char.ofNat ('a'.toNat + number % 26) :: letters count (number / 26)

/-- The scratch path with a number. -/
def path (scratch : Scratch) (hint : String) (number : Nat) : String :=
  Path.join (scratch.dir.getD systemDir) (hint ++ String.ofList (letters 6 number) ++ ".ast")

/-- A scratch path that leads to nothing yet.  One of the first numbers is free,
as there are more of them than entries in the tree. -/
def freshPath (scratch : Scratch) (files : FileTree) (hint : String) : String :=
  let paths := (List.range (files.entries.length + 1)).map (scratch.path hint)
  (paths.find? fun path => !files.exists path).getD (scratch.path hint 0)

/-- Makes an empty scratch file, never in place of something that exists. -/
def create (scratch : Scratch) (files : FileTree) (hint : String) :
    Except IoFault (String × FileTree) :=
  let path := scratch.freshPath files hint
  if files.exists path then .error .alreadyExists
  else
    match files.write path [] with
    | .error fault => .error fault
    | .ok files => .ok (path, files)

/-- Takes a scratch file away. -/
def close (files : FileTree) (path : String) : FileTree :=
  match files.remove path with
  | .error _ => files
  | .ok files => files

end Scratch

/-- Saves a unit to a file, errors or not. -/
def SourceUnit.save (scratch : Scratch) (unit : SourceUnit) (files : FileTree) (path : String) :
    Outcome UnitFault FileTree :=
  match unit.saving with
  | .refuses => .failed (.unsaved (.refused unit.tree.spelling))
  | .crashes => .crashed
  | .normal =>
    match scratch.writeFault with
    | some fault => .failed (.unsaved (.unwritable path fault))
    | none =>
      match unit.tree.save files path true with
      | .error fault => .failed fault
      | .ok files => .done files

/-- Reads a scratch file. -/
def Scratch.read (scratch : Scratch) (files : FileTree) (path : String) : Except IoFault Bytes :=
  match scratch.readFault with
  | some fault => .error fault
  | none => files.read path

/-- Writes a scratch file. -/
def Scratch.write (scratch : Scratch) (files : FileTree) (path : String) (bytes : Bytes) :
    Except IoFault FileTree :=
  match scratch.writeFault with
  | some fault => .error fault
  | none => files.write path bytes

/-- The bytes of a unit, and the files afterwards. -/
def serialize (scratch : Scratch) (files : FileTree) (unit : SourceUnit) :
    Outcome CodecFault Bytes × FileTree :=
  match scratch.create files (Scratch.hint unit.tree.spelling) with
  | .error fault => (.failed (.scratch fault), files)
  | .ok (path, created) =>
    match unit.save scratch created path with
    | .failed fault => (.failed (.unit fault), Scratch.close created path)
    | .crashed => (.crashed, Scratch.close created path)
    | .done saved =>
      match scratch.read saved path with
      | .error fault => (.failed (.scratch fault), Scratch.close saved path)
      | .ok bytes => (.done bytes, Scratch.close saved path)

/-- The unit that bytes hold, and the files afterwards. -/
def deserialize (scratch : Scratch) (files : FileTree) (bytes : Bytes) :
    Except CodecFault CursorTree × FileTree :=
  match scratch.create files "restore-" with
  | .error fault => (.error (.scratch fault), files)
  | .ok (path, created) =>
    match scratch.write created path bytes with
    | .error fault => (.error (.scratch fault), Scratch.close created path)
    | .ok written =>
      match CursorTree.load written path with
      | .error fault => (.error (.unit fault), Scratch.close written path)
      | .ok tree => (.ok tree, Scratch.close written path)

end SourceIndex
