import SourceIndex.Cursor.Tree

/-!
# Names of a file

Lowering a file fills one table for each sort of name.  References that no local
scope answers are looked up in these tables once the whole file has been seen,
each in the space of names it can mean.
-/

namespace SourceIndex
namespace Lowering

/-- A table in which the first entry of a name counts. -/
abbrev FirstTable := Array (String × NodeId)

/-- A table, last entry first, in which the last entry of a name counts. -/
abbrev LastTable := List (String × NodeId)

/-- The first entry of a name. -/
def FirstTable.find? (table : FirstTable) (name : String) : Option NodeId :=
  (Array.find? (fun entry => entry.1 == name) table).map Prod.snd

/-- What a reference can mean. -/
inductive Space where
  /-- The function of a call. -/
  | call
  /-- A plain identifier in an expression. -/
  | value
  /-- A type name. -/
  | type
  /-- The name behind `struct`, `union`, `class` or `enum`. -/
  | tag
  /-- A member of a record. -/
  | field
  deriving DecidableEq, Repr

/-- The names that a file declares. -/
structure FileNames where
  functionDecls : FirstTable := #[]
  functionDefs : FirstTable := #[]
  tagDecls : FirstTable := #[]
  tagDefs : FirstTable := #[]
  typedefs : FirstTable := #[]
  enumerators : FirstTable := #[]
  fields : FirstTable := #[]
  globals : FirstTable := #[]
  macros : LastTable := []
  deriving Repr

namespace FileNames

/-- The function of this name: its definition, or else its first declaration. -/
def function? (names : FileNames) (name : String) : Option NodeId :=
  (names.functionDefs.find? name).or (names.functionDecls.find? name)

/-- The tag of this name: its definition, or else its first declaration. -/
def tag? (names : FileNames) (name : String) : Option NodeId :=
  (names.tagDefs.find? name).or (names.tagDecls.find? name)

/-- The node a name means in a space. -/
def lookup (names : FileNames) (space : Space) (name : String) : Option NodeId :=
  match space with
  | .call => (names.function? name).or (names.globals.find? name)
  | .value =>
    ((names.globals.find? name).or (names.enumerators.find? name)).or (names.function? name)
  | .type => (names.typedefs.find? name).or (names.tag? name)
  | .tag => names.tag? name
  | .field => names.fields.find? name

end FileNames
end Lowering
end SourceIndex
