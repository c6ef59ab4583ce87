import SourceIndex.Flag
import SourceIndex.Path

/-!
# How a file is parsed

The options of a parse, and the choice between the C and the C++ grammar.
-/

namespace SourceIndex

/-- What a parse keeps and what it insists on. -/
structure ParseOptions where
  /-- Accept a file that does not follow its grammar. -/
  keepGoing : Bool := true
  /-- Keep macro definitions, macro expansions and inclusions. -/
  detailedPreprocessing : Bool := true
  /-- Leave the bodies of functions out. -/
  skipFunctionBodies : Bool := false
  deriving DecidableEq, Repr, Inhabited

/-- The grammar of a source file. -/
inductive Dialect where
  | c
  | cxx
  deriving DecidableEq, Repr

namespace Dialect

/-- The grammar of a language as the `-x` flag names it. -/
def ofLanguage? : String → Option Dialect
  | "c" | "c-header" => some .c
  | "c++" | "c++-header" => some .cxx
  | _ => none

/-- The grammar that the last `-x` flag with a known language asks for, `chosen`
if there is none. -/
def forced (chosen : Option Dialect) : List String → Option Dialect
  | [] => chosen
  | [argument] => ((Flag.strip? "-x" argument).bind ofLanguage?).or chosen
  | argument :: next :: rest =>
    if argument == "-x" then forced ((ofLanguage? next).or chosen) rest
    else forced (((Flag.strip? "-x" argument).bind ofLanguage?).or chosen) (next :: rest)

/-- The grammar that a file name asks for. -/
def ofFileName (file : String) : Dialect :=
  match Path.extension? file with
  | some "c" | some "h" => .c
  | _ => .cxx

/-- The grammar of a file compiled with `flags`: a `-x` flag counts more than
the file name. -/
def choose (file : String) (flags : List String) : Dialect :=
  (forced none flags).getD (ofFileName file)

end Dialect
end SourceIndex
