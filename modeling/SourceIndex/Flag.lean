/-!
# Compiler flags

Flags are plain texts.  A flag with a value is written joined (`-Idir`) or as two
arguments (`-I dir`).
-/

namespace SourceIndex
namespace Flag

/-- What follows `start` in `text`, if `text` starts with it. -/
def strip? (start text : String) : Option String :=
  (start.toList.isPrefixOf? text.toList).map String.ofList

/-- Whether `text` starts with `start`. -/
def startsWith (start text : String) : Bool :=
  start.toList.isPrefixOf text.toList

/-- The flags that name an include directory, in the order in which an argument
is compared with them.  The Boolean tells the directories of angled includes. -/
def includeFlags : List (String × Bool) :=
  [("-iquote", false), ("-isystem", true), ("-I", true)]

/-- The include flag an argument starts with, and what is joined to it. -/
def includeFlag? (argument : String) : Option (String × Bool × String) :=
  includeFlags.findSome? fun (flag, angled) =>
    (strip? flag argument).map fun joined => (flag, angled, joined)

end Flag
end SourceIndex
