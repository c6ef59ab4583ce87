import SourceIndex.Flag
import SourceIndex.Path

/-!
# Include search

Compiler flags name the directories in which included files are looked for.  A
quoted inclusion is looked for beside the including file and in the `-iquote`
directories first; both forms then go through one list of the `-I` and
`-isystem` directories, in the order of the flags.
-/

namespace SourceIndex

/-- The directories an inclusion is looked for in. -/
structure IncludeSearch where
  quoteDirs : List String := []
  angledDirs : List String := []
  deriving DecidableEq, Repr

namespace IncludeSearch

/-- Adds a directory at the end of its list. -/
def add (search : IncludeSearch) (angled : Bool) (dir : String) : IncludeSearch :=
  if angled then { search with angledDirs := search.angledDirs ++ [dir] }
  else { search with quoteDirs := search.quoteDirs ++ [dir] }

/-- Adds the directories that flags name.  A flag without a joined value takes
the next argument, whatever it is. -/
def addFlags (search : IncludeSearch) : List String → IncludeSearch
  | [] => search
  | argument :: rest =>
    match Flag.includeFlag? argument with
    | none => search.addFlags rest
    | some (_, angled, joined) =>
      if joined == "" then
        match rest with
        | [] => search
        | dir :: rest => (search.add angled dir).addFlags rest
      else (search.add angled joined).addFlags rest

/-- The search for a file compiled with `flags`. -/
def ofFlags (file : String) (flags : List String) : IncludeSearch :=
  ({ quoteDirs := (Path.parent? file).toList } : IncludeSearch).addFlags flags

/-- The directories for one form of inclusion, in order. -/
def dirs (search : IncludeSearch) (angled : Bool) : List String :=
  (if angled then [] else search.quoteDirs) ++ search.angledDirs

/-- The first file that an inclusion can mean; `isFile` tells which paths are
files. -/
def resolve (search : IncludeSearch) (isFile : String → Bool) (spelling : String)
    (angled : Bool) : Option String :=
  ((search.dirs angled).map fun dir => Path.join dir spelling).find? isFile

end IncludeSearch
end SourceIndex
