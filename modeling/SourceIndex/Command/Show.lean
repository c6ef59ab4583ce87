import SourceIndex.Command.Basic
import SourceIndex.Text.Pretty

/-!
# The command that shows a stored record

A record is looked up by path.  Stored paths are absolute and in normal form, so
a relative path is tried from the working directory first and from the project
root second.
-/

namespace SourceIndex

/-! ## Text -/

/-- A location without the directory of the record's own file. -/
def shortLocation (recordPath : String) (location : Location) : String :=
  let text := location.display
  match Path.parent? recordPath with
  | none => text
  | some dir => if dir == "" then text else (Flag.strip? (dir ++ "/") text).getD text

namespace Record

/-- The heading of a section with a number of lines. -/
def heading (name : String) (count : Nat) : List String :=
  ["", name ++ " (" ++ toString count ++ "):"]

/-- A record for people, under a key. -/
def text (record : Record) (key : CacheKey) : String :=
  let short := shortLocation record.path
  textOfLines (
    [record.path, "  key: " ++ key.toHex, "  flags: " ++ String.intercalate " " record.flags,
     "  ast: " ++ toString record.savedTree.length ++ " bytes"] ++
    heading "Declarations" record.declarations.size ++
    (record.declarations.toList.map fun declaration => "  " ++ short declaration) ++
    heading "Definitions" record.definitions.size ++
    (record.definitions.toList.map fun entry =>
      "  " ++ short entry.location ++ " -> " ++ short entry.definition) ++
    heading "References" record.references.size ++
    (record.references.toList.map fun entry =>
      "  " ++ short entry.location ++ " -> " ++ short entry.referenced ++
        if entry.isCall then " (call)" else "") ++
    heading "Headers" record.headers.size ++
    (record.headers.toList.map fun header =>
      "  " ++ header.spelling ++ " -> " ++
        if header.includedFile == "" then "<not found>" else header.includedFile))

end Record

/-! ## JSON -/

/-- A location as an object. -/
def Location.pretty (location : Location) : Pretty :=
  .fields
    [("file", .text location.file), ("line", .number location.line.toNat),
     ("column", .number location.column.toNat), ("offset", .number location.offset.toNat)]

/-- A stored record as an object; the saved tree is told by its size. -/
def Record.pretty (record : Record) (entry : StoreEntry) : Pretty :=
  .fields
    [("key", .text entry.key.toHex),
     ("indexed_at", .number entry.indexedAt),
     ("path", .text record.path),
     ("flags", .list (record.flags.map .text)),
     ("declarations", .list (record.declarations.toList.map fun declaration =>
       .fields [("location", declaration.pretty)])),
     ("definitions", .list (record.definitions.toList.map fun entry =>
       .fields [("location", entry.location.pretty), ("definition", entry.definition.pretty)])),
     ("references", .list (record.references.toList.map fun entry =>
       .fields [("location", entry.location.pretty), ("referenced", entry.referenced.pretty),
         ("is_call", .flag entry.isCall)])),
     ("headers", .list (record.headers.toList.map fun header =>
       .fields [("spelling", .text header.spelling), ("included_file", .text header.includedFile)])),
     ("translation_unit_bytes", .number record.savedTree.length)]

/-! ## Looking up -/

/-- The stored paths that a path may stand for, in the order they are tried. -/
def candidatePaths (workPath root file : String) : List String :=
  let fromHere := Path.absolutize workPath file
  let fromRoot := Path.absolutize root file
  if fromRoot == fromHere then [fromHere] else [fromHere, fromRoot]

/-- The entry of the first path that has one. -/
def Store.findFirst (store : Store) : List String → Except StoreFault (Option StoreEntry)
  | [] => .ok none
  | path :: rest =>
    match store.findByPath path with
    | .error fault => .error fault
    | .ok (some entry) => .ok (some entry)
    | .ok none => store.findFirst rest

/-- What is asked of showing a record. -/
structure ShowRequest where
  file : String
  project : Option String := none
  format : String := "text"
  deriving DecidableEq, Repr

/-- The text of a stored record in a format. -/
def StoreEntry.render (entry : StoreEntry) (format : String) : Except CommandFault String :=
  match Record.ofBytes entry.value with
  | .error fault => .error (.unreadableRecord entry.path fault)
  | .ok record =>
    match format with
    | "json" => .ok (Pretty.render 0 (record.pretty entry) ++ "\n")
    | "text" => .ok (record.text entry.key)
    | other => .error (.unknownFormat other)

/-- Shows the record of a file. -/
def showRecord (files : FileTree) (request : ShowRequest) : Printed :=
  match Project.load files request.project with
  | .error fault => .failed "" fault files
  | .ok project =>
    let path := project.storePath
    if files.exists path then
      match files.openStore path with
      | .failed fault => .failed "" (.openStore fault) files
      | .crashed => .crashed "" files
      | .done (store, opened) =>
        match store.findFirst (candidatePaths files.workPath project.root request.file) with
        | .error fault => .failed "" (.store fault) opened
        | .ok none => .failed "" (.noRecord request.file) opened
        | .ok (some entry) =>
          match entry.render request.format with
          | .error fault => .failed "" fault opened
          | .ok text => .done text opened
    else .failed "" (.noIndex path) files

end SourceIndex
