import SourceIndex.Cursor.Links
import SourceIndex.Wire.Envelope
import SourceIndex.Wire.Shape

/-!
# Saved trees

A tree is saved as four letters, a version byte and one MessagePack value: the
spelling, the nodes and the error mark.  A saved tree is only accepted if its
links are sound, so that whoever walks it later needs no checks.
-/

namespace SourceIndex

open Wire (Value)

namespace Location

/-- The names of the fields of a location, in order. -/
def fieldNames : List String := ["file", "line", "column", "offset"]

/-- A location as a MessagePack value. -/
def toValue (location : Location) : Value :=
  .array [.text location.file, .uint location.line.toNat, .uint location.column.toNat,
    .uint location.offset.toNat]

/-- The location a MessagePack value holds. -/
def ofValue? (value : Value) : Option Location :=
  match value.fields? fieldNames with
  | some [some file, some line, some column, some offset] => do
    let file ← file.text?
    let line ← line.word?
    let column ← column.word?
    let offset ← offset.word?
    return { file, line, column, offset }
  | _ => none

end Location

namespace CursorKind

/-- A kind as a MessagePack value: its name, or a map from the tag of unexposed
kinds to the carried name. -/
def toValue : CursorKind → Value
  | .unexposed name => .map [.text unexposedTag, .text name]
  | kind => .text kind.name

/-- The kind that a name or number selects; `some none` is the kind that carries
a name of its own. -/
def select? : Value → Option (Option CursorKind)
  | .uint number =>
    if number = unexposedNumber then some none else (ofNumber? number).map some
  | .str bytes | .bin bytes =>
    if bytes == Bytes.ofText unexposedTag then some none
    else (exposed.find? fun kind => Bytes.ofText kind.name == bytes).map some
  | _ => none

/-- The kind a MessagePack value holds. -/
def ofValue? : Value → Option CursorKind
  | .map [key, value] =>
    match select? key with
    | some none => value.text?.map .unexposed
    | some (some kind) =>
      match value with
      | .nil => some kind
      | _ => none
    | none => none
  | .map _ => none
  | value =>
    match select? value with
    | some (some kind) => some kind
    | _ => none

end CursorKind

namespace Node

/-- The names of the fields of a node, in order. -/
def fieldNames : List String :=
  ["kind", "spelling", "location", "children", "definition", "referenced", "included_file"]

/-- A node as a MessagePack value. -/
def toValue (node : Node) : Value :=
  .array [node.kind.toValue, .text node.spelling, node.location.toValue,
    .array (node.children.toList.map .uint), (node.definition.map Value.uint).getD .nil,
    (node.referenced.map Value.uint).getD .nil, (node.includedFile.map Value.text).getD .nil]

/-- Reads a field that may be nil or left out. -/
def optional? {α : Type} (read : Value → Option α) (slot : Option Value) : Option (Option α) :=
  match slot with
  | none => some none
  | some value => value.option? read

/-- The node a MessagePack value holds. -/
def ofValue? (value : Value) : Option Node :=
  match value.fields? fieldNames with
  | some [some kind, some spelling, some location, some children, definition, referenced,
      includedFile] => do
    let kind ← CursorKind.ofValue? kind
    let spelling ← spelling.text?
    let location ← Location.ofValue? location
    let children ← children.list? Value.index?
    let definition ← optional? Value.index? definition
    let referenced ← optional? Value.index? referenced
    let includedFile ← optional? Value.text? includedFile
    return { kind, spelling, location, children := children.toArray, definition, referenced,
             includedFile }
  | _ => none

end Node

/-- Why bytes are no saved tree. -/
inductive TreeFault where
  | missingHeader
  | unsupportedVersion (version : UInt8)
  | undecodable
  | links (fault : LinkFault)
  deriving DecidableEq, Repr

/-- The wording of a fault of a saved tree. -/
def TreeFault.message : TreeFault → String
  | .missingHeader => "missing AST header"
  | .unsupportedVersion version => "unsupported AST version " ++ toString version.toNat
  | .undecodable => "undecodable"
  | .links fault => fault.message

namespace CursorTree

/-- The marks of a saved tree: the letters `CXAS` and version 1. -/
def envelope : Wire.Envelope where
  magic := [0x43, 0x58, 0x41, 0x53]
  version := 1

/-- The names of the fields of a tree, in order. -/
def fieldNames : List String := ["spelling", "nodes", "has_errors"]

/-- A tree as a MessagePack value. -/
def toValue (tree : CursorTree) : Value :=
  .array [.text tree.spelling, .array (tree.nodes.toList.map Node.toValue), .bool tree.hasErrors]

/-- The tree a MessagePack value holds; its links may be wrong. -/
def ofValue? (value : Value) : Option CursorTree :=
  match value.fields? fieldNames with
  | some [some spelling, some nodes, some hasErrors] => do
    let spelling ← spelling.text?
    let nodes ← nodes.list? Node.ofValue?
    let hasErrors ← hasErrors.bool?
    return { spelling, nodes := nodes.toArray, hasErrors }
  | _ => none

/-- The saved form of a tree. -/
def toBytes (tree : CursorTree) : Bytes :=
  envelope.wrap tree.toValue

/-- The tree behind the marks of a saved tree, if its links are sound. -/
def ofBody (body : Bytes) : Except TreeFault CursorTree :=
  match (Wire.decode body).bind ofValue? with
  | none => .error .undecodable
  | some tree =>
    match tree.linkFault? with
    | some fault => .error (.links fault)
    | none => .ok tree

/-- The tree that bytes save. -/
def ofBytes (bytes : Bytes) : Except TreeFault CursorTree :=
  match envelope.unwrap bytes with
  | .error .badMagic => .error .missingHeader
  | .error (.badVersion found) => .error (.unsupportedVersion found)
  | .ok body => ofBody body

end CursorTree
end SourceIndex
