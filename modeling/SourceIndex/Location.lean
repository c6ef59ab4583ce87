/-!
# Places in source files

A location names a file and a position in it.  Positions are 32-bit words, as
they are stored.  The location without a file stands for "nowhere": it is the
target of a reference that could not be resolved.
-/

namespace SourceIndex

/-- A position in a source file: line and column count from one, the offset
counts bytes from zero. -/
structure Location where
  file : String := ""
  line : UInt32 := 0
  column : UInt32 := 0
  offset : UInt32 := 0
  deriving DecidableEq, Repr, Inhabited

namespace Location

/-- The location of nothing. -/
def nowhere : Location := {}

/-- Whether a location names no file. -/
def isEmpty (location : Location) : Bool :=
  location.file == ""

/-- Whether entries at this location belong into an index.  Built-in and
command-line entities are located at `""` or `"."`. -/
def isIndexable (location : Location) : Bool :=
  !(location.file == "" || location.file == ".")

/-- The location as people read it: `file:line:column`. -/
def display (location : Location) : String :=
  if location.isEmpty then "<unresolved>"
  else location.file ++ ":" ++ toString location.line.toNat ++ ":" ++ toString location.column.toNat

end Location
end SourceIndex
