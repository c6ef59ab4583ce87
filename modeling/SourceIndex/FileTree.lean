import SourceIndex.Path
import SourceIndex.Store.Basic

/-!
# Directory trees

A directory tree is a finite map from absolute names to directories, files and
index stores.  Paths are looked up as an operating system does it: step by step
from the working directory or the top, each step out of an existing directory,
so that `a/..` means something only if `a` is a directory.  There are no links.

Nothing here touches a disk; the tree is a value, and an operation that changes
it returns the changed tree.
-/

namespace SourceIndex

/-- Why an operation on a directory tree fails. -/
inductive IoFault where
  | notFound
  | alreadyExists
  | notADirectory
  | isADirectory
  | nameTooLong
  | nulInName
  | notText
  | noParent
  deriving DecidableEq, Repr

/-- The wording of a fault. -/
def IoFault.message : IoFault → String
  | .notFound => "No such file or directory (os error 2)"
  | .alreadyExists => "File exists (os error 17)"
  | .notADirectory => "Not a directory (os error 20)"
  | .isADirectory => "Is a directory (os error 21)"
  | .nameTooLong => "File name too long (os error 36)"
  | .nulInName => "file name contained an unexpected NUL byte"
  | .notText => "stream did not contain valid UTF-8"
  | .noParent => "failed to create whole tree"

/-- What stands under a name. -/
inductive Entry where
  | directory
  | file (content : Bytes)
  | store (store : Store)
  deriving DecidableEq, Repr

/-- A directory tree and the working directory.  A name is the list of the names
on the way from the top; the top itself is always there. -/
structure FileTree where
  entries : List (List String × Entry) := []
  workDir : List String := []
  deriving DecidableEq, Repr

namespace FileTree

/-- What stands under a name. -/
def entry? (tree : FileTree) (name : List String) : Option Entry :=
  if name.isEmpty then some .directory else tree.entries.lookup name

/-- Whether a directory stands under a name. -/
def isDirectoryName (tree : FileTree) (name : List String) : Bool :=
  tree.entry? name == some .directory

/-- Puts an entry in front of all others. -/
def add (tree : FileTree) (name : List String) (entry : Entry) : FileTree :=
  { tree with entries := (name, entry) :: tree.entries }

/-- Takes away what stands under a name. -/
def erase (tree : FileTree) (name : List String) : FileTree :=
  { tree with entries := tree.entries.eraseP fun found => found.1 == name }

/-- Puts an entry in place of what stands under a name. -/
def put (tree : FileTree) (name : List String) (entry : Entry) : FileTree :=
  (tree.erase name).add name entry

/-- The longest name of a single entry, in bytes. -/
def maxNameSize : Nat := 255

/-- The longest path, in bytes. -/
def maxPathSize : Nat := 4095

/-- Where a path leads. -/
inductive Target where
  /-- To something that exists. -/
  | present (name : List String) (entry : Entry)
  /-- To nothing, in a directory that exists. -/
  | absent (name : List String)
  deriving DecidableEq, Repr

/-- Follows the segments of a path from a directory. -/
def follow (tree : FileTree) : (name : List String) → List String → Except IoFault Target
  | name, [] =>
    match tree.entry? name with
    | some entry => .ok (.present name entry)
    | none => .ok (.absent name)
  | name, segment :: rest =>
    match tree.entry? name with
    | some .directory =>
      if Path.isVoid segment then tree.follow name rest
      else if segment == ".." then tree.follow name.dropLast rest
      else if maxNameSize < segment.utf8ByteSize then .error .nameTooLong
      else tree.follow (name ++ [segment]) rest
    | some _ => .error .notADirectory
    | none => if (segment :: rest).all (· == "") then .ok (.absent name) else .error .notFound

/-- Why a text is no path, whatever the tree holds. -/
def pathFault? (path : String) : Option IoFault :=
  if path.toList.contains '\x00' then some .nulInName
  else if path == "" then some .notFound
  else if maxPathSize < path.utf8ByteSize then some .nameTooLong
  else none

/-- The name of the directory where a path starts. -/
def startOf (tree : FileTree) (path : String) : List String :=
  if Path.isAbsolute path then [] else tree.workDir

/-- Where a path leads from the working directory. -/
def resolve (tree : FileTree) (path : String) : Except IoFault Target :=
  match pathFault? path with
  | some fault => .error fault
  | none => tree.follow (tree.startOf path) (Path.segments path)

/-- The name and entry a path leads to. -/
def find (tree : FileTree) (path : String) : Except IoFault (List String × Entry) :=
  match tree.resolve path with
  | .error fault => .error fault
  | .ok (.absent _) => .error .notFound
  | .ok (.present name entry) => .ok (name, entry)

/-- Whether a path leads to something. -/
def «exists» (tree : FileTree) (path : String) : Bool :=
  match tree.find path with
  | .ok _ => true
  | .error _ => false

/-- Whether a path leads to a file. -/
def isFile (tree : FileTree) (path : String) : Bool :=
  match tree.find path with
  | .ok (_, .file _) | .ok (_, .store _) => true
  | _ => false

/-- Whether a path leads to a directory. -/
def isDirectory (tree : FileTree) (path : String) : Bool :=
  match tree.find path with
  | .ok (_, .directory) => true
  | _ => false

/-- The absolute path of a name. -/
def pathOf (name : List String) : String :=
  Path.render true name

/-- The absolute path without `.` and `..` of what a path leads to.  The path is
followed name by name, so that it may be longer than other paths. -/
def canonicalize (tree : FileTree) (path : String) : Except IoFault String :=
  match pathFault? path with
  | some .nulInName => .error .nulInName
  | some .notFound => .error .notFound
  | _ =>
    match tree.follow (tree.startOf path) (Path.segments path) with
    | .error fault => .error fault
    | .ok (.absent _) => .error .notFound
    | .ok (.present name _) => .ok (pathOf name)

/-- The absolute path of the working directory. -/
def workPath (tree : FileTree) : String :=
  pathOf tree.workDir

/-- The bytes of a file.  The bytes of a store are its own affair. -/
def read (tree : FileTree) (path : String) : Except IoFault Bytes :=
  match tree.find path with
  | .error fault => .error fault
  | .ok (_, .directory) => .error .isADirectory
  | .ok (_, .file content) => .ok content
  | .ok (_, .store _) => .ok []

/-- The text of a file. -/
def readText (tree : FileTree) (path : String) : Except IoFault String :=
  match tree.read path with
  | .error fault => .error fault
  | .ok content =>
    match Bytes.text? content with
    | none => .error .notText
    | some text => .ok text

/-- Where a path leads that is to be written.  A slash behind its last name says
that this is a directory, and then only the directory around it is looked up. -/
def resolveForWriting (tree : FileTree) (path : String) : Except IoFault Target :=
  match pathFault? path with
  | some fault => .error fault
  | none =>
    match Path.aroundSlashed? path with
    | none => tree.follow (tree.startOf path) (Path.segments path)
    | some around =>
      match tree.follow (tree.startOf path) around with
      | .error fault => .error fault
      | .ok (.absent _) => .error .notFound
      | .ok (.present _ .directory) => .error .isADirectory
      | .ok (.present _ _) => .error .notADirectory

/-- Writes a file, which may exist but whose directory must. -/
def write (tree : FileTree) (path : String) (content : Bytes) : Except IoFault FileTree :=
  match tree.resolveForWriting path with
  | .error fault => .error fault
  | .ok (.present _ .directory) => .error .isADirectory
  | .ok (.present name _) => .ok (tree.put name (.file content))
  | .ok (.absent name) => .ok (tree.add name (.file content))

/-- Takes away a file. -/
def remove (tree : FileTree) (path : String) : Except IoFault FileTree :=
  match tree.find path with
  | .error fault => .error fault
  | .ok (_, .directory) => .error .isADirectory
  | .ok (name, _) => .ok (tree.erase name)

/-- Makes one directory. -/
def makeDirectory (tree : FileTree) (path : String) : Except IoFault FileTree :=
  match tree.resolve path with
  | .error fault => .error fault
  | .ok (.present _ _) => .error .alreadyExists
  | .ok (.absent name) => .ok (tree.add name .directory)

/-- Makes the first directory of a list, and for that the later ones if need be. -/
def makeFirst (tree : FileTree) : List String → Except IoFault FileTree
  | [] => .error .noParent
  | path :: above =>
    if path == "" then .ok tree
    else
      match tree.makeDirectory path with
      | .ok tree => .ok tree
      | .error .notFound =>
        match tree.makeFirst above with
        | .error fault => .error fault
        | .ok tree =>
          match tree.makeDirectory path with
          | .ok tree => .ok tree
          | .error fault => if tree.isDirectory path then .ok tree else .error fault
      | .error fault => if tree.isDirectory path then .ok tree else .error fault

/-- Makes a directory and all directories above it that are missing. -/
def makeDirectories (tree : FileTree) (path : String) : Except IoFault FileTree :=
  tree.makeFirst (Path.ancestors path)

/-- The number of entries of a directory; none if the path leads to no directory. -/
def childCount? (tree : FileTree) (path : String) : Option Nat :=
  match tree.find path with
  | .ok (name, .directory) =>
    some (tree.entries.countP fun entry => entry.1.length == name.length + 1 && entry.1.dropLast == name)
  | _ => none

end FileTree
end SourceIndex
