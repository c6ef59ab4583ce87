/-!
# Lexical paths

A path is a text with `/` between its segments.  The functions of this module
only read the text: nothing is looked up on disk, so `a/..` is the empty path
whether or not `a` exists.  Looking paths up in a directory tree is the work of
`SourceIndex.FileTree`.

Empty segments (repeated and trailing slashes) and `.` segments carry no
meaning, with one exception: a path whose first segment is `.` keeps it for the
purposes of `parent?` and `ancestors`.
-/

namespace SourceIndex
namespace Path

/-- Whether a path starts at the top of the directory tree. -/
def isAbsolute (path : String) : Bool :=
  path.toList.head? == some '/'

/-- The texts between slashes, the segment being read given in reverse. -/
def splitSegments (current : List Char) : List Char → List String
  | [] => [String.ofList current.reverse]
  | '/' :: rest => String.ofList current.reverse :: splitSegments [] rest
  | c :: rest => splitSegments (c :: current) rest

/-- The texts between slashes, empty ones included. -/
def segments (path : String) : List String :=
  splitSegments [] path.toList

/-- A segment that stays in its directory. -/
def isVoid (segment : String) : Bool :=
  segment == "" || segment == "."

/-- The segments that move: names and `..`. -/
def steps (path : String) : List String :=
  (segments path).filter fun segment => !isVoid segment

/-- The segments in front of the last name of a path, if slashes follow that name.
Neither `.` nor `..` is a name. -/
def aroundSlashed? (path : String) : Option (List String) :=
  match (segments path).reverse with
  | "" :: rest =>
    match rest.dropWhile (· == "") with
    | [] => none
    | last :: before => if last == "." || last == ".." then none else some before.reverse
  | _ => none

/-- `path` as seen from `base`.  An absolute path stands for itself, and joining
the empty path adds a slash. -/
def join (base path : String) : String :=
  if isAbsolute path then path
  else
    match base.toList.getLast? with
    | none => path
    | some '/' => base ++ path
    | some _ => base ++ "/" ++ path

/-- The names reached so far (last one first) after one more step.  `..` takes
back a name; above the top of an absolute path it does nothing, and in a
relative path with no name left to take back it stays. -/
def resolveStep (rooted : Bool) (reached : List String) (step : String) : List String :=
  if step == ".." then
    match reached with
    | [] => if rooted then [] else [".."]
    | last :: before => if last == ".." then ".." :: reached else before
  else step :: reached

/-- The path that goes through `names`, from the top if `rooted`. -/
def render (rooted : Bool) (names : List String) : String :=
  (if rooted then "/" else "") ++ String.intercalate "/" names

/-- The normal form of a path: no empty or `.` segments, and `..` only where
nothing can be taken back. -/
def normalize (path : String) : String :=
  let rooted := isAbsolute path
  render rooted ((steps path).foldl (resolveStep rooted) []).reverse

/-- The normal form of `path` as seen from `base`. -/
def absolutize (base path : String) : String :=
  normalize (join base path)

/-- The part in front of the segments that may be taken off: the leading slash,
or a leading `.` segment. -/
def splitLead : List Char → List Char × List Char
  | '/' :: rest => (['/'], rest)
  | ['.'] => (['.'], [])
  | '.' :: '/' :: rest => (['.'], '/' :: rest)
  | body => ([], body)

/-- Drops void segments from the end of a body that is given in reverse. -/
def trimBack : List Char → List Char
  | '/' :: rest => trimBack rest
  | '.' :: '/' :: rest => trimBack rest
  | ['.'] => []
  | body => body

/-- Drops the last segment of a body that is given in reverse, with the slash
in front of it. -/
def dropSegment (reversed : List Char) : List Char :=
  (reversed.dropWhile (· != '/')).drop 1

/-- The path without its last segment; the top, and the empty path, have no
parent.  The text of what is left is kept as it stands. -/
def parent? (path : String) : Option String :=
  let (lead, body) := splitLead path.toList
  match trimBack body.reverse with
  | [] => if lead == ['.'] then some "" else none
  | reversed => some (String.ofList (lead ++ (trimBack (dropSegment reversed)).reverse))

/-- The last segment, if it is a name. -/
def fileName? (path : String) : Option String :=
  match trimBack (splitLead path.toList).2.reverse with
  | [] => none
  | reversed =>
    let name := String.ofList (reversed.takeWhile (· != '/')).reverse
    if name == ".." then none else some name

/-- What follows the last dot of the file name, unless that dot starts the name. -/
def extension? (path : String) : Option String :=
  (fileName? path).bind fun name =>
    let reversed := name.toList.reverse
    match reversed.dropWhile (· != '.') with
    | [] => none
    | _ :: before =>
      if before.isEmpty then none
      else some (String.ofList (reversed.takeWhile (· != '.')).reverse)

/-- The first `count` parents of a path, nearest first. -/
def parents : (count : Nat) → String → List String
  | 0, _ => []
  | count + 1, path =>
    match parent? path with
    | none => []
    | some up => up :: parents count up

/-- A path and all its parents, nearest first.  A parent is shorter than its
path, so there are no more of them than characters. -/
def ancestors (path : String) : List String :=
  path :: parents path.length path

/-- Whether the text `path` starts with the text `start`; segments play no part. -/
def startsWithText (start path : String) : Bool :=
  start.toList.isPrefixOf path.toList

/-- Whether the text `path` ends with the text `ending`. -/
def endsWithText (ending path : String) : Bool :=
  ending.toList.isSuffixOf path.toList

end Path
end SourceIndex
