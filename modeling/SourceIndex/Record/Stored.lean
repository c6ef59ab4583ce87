import SourceIndex.Record.Basic
import SourceIndex.Cursor.Saved

/-!
# Stored records

A record is stored as four letters, a version byte and one MessagePack value.
Reading accepts every form of that value that `SourceIndex.Wire.Shape` allows;
writing has one form for each record.
-/

namespace SourceIndex

open Wire (Value)

/-- Why bytes are no stored record. -/
inductive RecordFault where
  | badMagic
  | unsupportedVersion (version : UInt8)
  | undecodable
  deriving DecidableEq, Repr

/-- The wording of a fault of a stored record. -/
def RecordFault.message : RecordFault → String
  | .badMagic => "not a file record (bad magic)"
  | .unsupportedVersion version => "unsupported record version " ++ toString version.toNat
  | .undecodable => "record decode error"

/-- A declaration as a MessagePack value. -/
def declarationValue (location : Location) : Value :=
  .array [location.toValue]

/-- The declaration a MessagePack value holds. -/
def declarationOfValue? (value : Value) : Option Location :=
  match value.fields? ["location"] with
  | some [some location] => Location.ofValue? location
  | _ => none

namespace DefinitionEntry

/-- A definition as a MessagePack value. -/
def toValue (entry : DefinitionEntry) : Value :=
  .array [entry.location.toValue, entry.definition.toValue]

/-- The definition a MessagePack value holds. -/
def ofValue? (value : Value) : Option DefinitionEntry :=
  match value.fields? ["location", "definition"] with
  | some [some location, some definition] => do
    let location ← Location.ofValue? location
    let definition ← Location.ofValue? definition
    return { location, definition }
  | _ => none

end DefinitionEntry

namespace ReferenceEntry

/-- A reference as a MessagePack value. -/
def toValue (entry : ReferenceEntry) : Value :=
  .array [entry.location.toValue, entry.referenced.toValue, .bool entry.isCall]

/-- The reference a MessagePack value holds. -/
def ofValue? (value : Value) : Option ReferenceEntry :=
  match value.fields? ["location", "referenced", "is_call"] with
  | some [some location, some referenced, some isCall] => do
    let location ← Location.ofValue? location
    let referenced ← Location.ofValue? referenced
    let isCall ← isCall.bool?
    return { location, referenced, isCall }
  | _ => none

end ReferenceEntry

namespace HeaderEntry

/-- A header as a MessagePack value. -/
def toValue (entry : HeaderEntry) : Value :=
  .array [.text entry.spelling, .text entry.includedFile]

/-- The header a MessagePack value holds. -/
def ofValue? (value : Value) : Option HeaderEntry :=
  match value.fields? ["spelling", "included_file"] with
  | some [some spelling, some includedFile] => do
    let spelling ← spelling.text?
    let includedFile ← includedFile.text?
    return { spelling, includedFile }
  | _ => none

end HeaderEntry

namespace Record

/-- The marks of a stored record: the letters `CXFR` and version 1. -/
def envelope : Wire.Envelope where
  magic := [0x43, 0x58, 0x46, 0x52]
  version := 1

/-- The names of the fields of a record, in order. -/
def fieldNames : List String :=
  ["path", "flags", "declarations", "definitions", "references", "headers", "translation_unit"]

/-- A record as a MessagePack value. -/
def toValue (record : Record) : Value :=
  .array [.text record.path, .array (record.flags.map .text),
    .array (record.declarations.toList.map declarationValue),
    .array (record.definitions.toList.map DefinitionEntry.toValue),
    .array (record.references.toList.map ReferenceEntry.toValue),
    .array (record.headers.toList.map HeaderEntry.toValue), .bin record.savedTree]

/-- The record a MessagePack value holds. -/
def ofValue? (value : Value) : Option Record :=
  match value.fields? fieldNames with
  | some [some path, some flags, some declarations, some definitions, some references,
      some headers, some savedTree] => do
    let path ← path.text?
    let flags ← flags.list? Value.text?
    let declarations ← declarations.list? declarationOfValue?
    let definitions ← definitions.list? DefinitionEntry.ofValue?
    let references ← references.list? ReferenceEntry.ofValue?
    let headers ← headers.list? HeaderEntry.ofValue?
    let savedTree ← savedTree.bytes?
    return { path, flags, declarations := declarations.toArray, definitions := definitions.toArray,
             references := references.toArray, headers := headers.toArray, savedTree }
  | _ => none

/-- The stored form of a record. -/
def toBytes (record : Record) : Bytes :=
  envelope.wrap record.toValue

/-- The record that bytes store. -/
def ofBytes (bytes : Bytes) : Except RecordFault Record :=
  match envelope.unwrap bytes with
  | .error .badMagic => .error .badMagic
  | .error (.badVersion found) => .error (.unsupportedVersion found)
  | .ok body =>
    match (Wire.decode body).bind ofValue? with
    | none => .error .undecodable
    | some record => .ok record

end Record
end SourceIndex
