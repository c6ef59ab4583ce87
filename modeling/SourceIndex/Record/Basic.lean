import SourceIndex.Location
import SourceIndex.Bytes

/-!
# Records of source files

A record is what an index keeps of one source file: where entities are declared,
which of them are defined elsewhere, what is referred to, which headers are
brought in, and the saved tree the entries were taken from.  Entries stand in
the order in which the tree was walked.
-/

namespace SourceIndex

/-- An occurrence whose definition stands elsewhere, or that defines itself. -/
structure DefinitionEntry where
  location : Location
  definition : Location
  deriving DecidableEq, Repr, Inhabited

/-- An occurrence that refers to an entity; the target is `Location.nowhere` if
it could not be resolved. -/
structure ReferenceEntry where
  location : Location
  referenced : Location
  isCall : Bool
  deriving DecidableEq, Repr, Inhabited

/-- An inclusion; the file is empty if it was not found. -/
structure HeaderEntry where
  spelling : String
  includedFile : String
  deriving DecidableEq, Repr, Inhabited

/-- What an index keeps of one source file. -/
structure Record where
  path : String
  flags : List String := []
  declarations : Array Location := #[]
  definitions : Array DefinitionEntry := #[]
  references : Array ReferenceEntry := #[]
  headers : Array HeaderEntry := #[]
  savedTree : Bytes := []
  deriving DecidableEq, Repr, Inhabited

namespace Record

/-- Adds a declaration. -/
def addDeclaration (record : Record) (location : Location) : Record :=
  { record with declarations := record.declarations.push location }

/-- Adds a definition. -/
def addDefinition (record : Record) (location definition : Location) : Record :=
  { record with definitions := record.definitions.push { location, definition } }

/-- Adds a reference. -/
def addReference (record : Record) (location referenced : Location) (isCall : Bool) : Record :=
  { record with references := record.references.push { location, referenced, isCall } }

/-- Adds a header. -/
def addHeader (record : Record) (spelling includedFile : String) : Record :=
  { record with headers := record.headers.push { spelling, includedFile } }

/-- The number of entries of all four sorts. -/
def entryCount (record : Record) : Nat :=
  record.declarations.size + record.definitions.size + record.references.size + record.headers.size

end Record
end SourceIndex
