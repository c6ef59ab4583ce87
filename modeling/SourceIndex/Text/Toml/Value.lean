/-!
# TOML values and tables

A TOML document builds one table of tables.  Whether a later line may add to a
table depends on how the table came about: by a header of its own, implicitly as
part of a longer header, or by a dotted key.  Tables carry these two marks, and
`Table.alter` walks to a table under the rules they imply.
-/

namespace SourceIndex
namespace Toml

/-- What a key can hold.  Floats and dates are only checked, for no setting is
one. -/
inductive Item where
  | string (text : String)
  | integer (value : Int)
  | float
  | boolean (value : Bool)
  | date
  | array (items : List Item)
  /-- A table in braces, or what a dotted key makes inside of one. -/
  | inlineTable (implicit dotted : Bool) (members : List (String × Item))
  /-- A table of the document itself. -/
  | table (implicit dotted : Bool) (members : List (String × Item))
  /-- The tables under a header in double brackets. -/
  | tables (elements : List (List (String × Item)))
  deriving Repr, Inhabited

/-- A table that is being built. -/
structure Table where
  /-- Whether no header has opened it. -/
  implicit : Bool := false
  /-- Whether a dotted key has made it. -/
  dotted : Bool := false
  members : List (String × Item) := []
  deriving Repr, Inhabited

namespace Table

/-- What a key holds. -/
def find? (table : Table) (key : String) : Option Item :=
  table.members.lookup key

/-- A list of members with the value of a key replaced, or added at the end. -/
def setMember (key : String) (item : Item) : List (String × Item) → List (String × Item)
  | [] => [(key, item)]
  | (known, value) :: rest =>
    if known == key then (key, item) :: rest else (known, value) :: setMember key item rest

/-- The table with a key that holds an item. -/
def set (table : Table) (key : String) (item : Item) : Table :=
  { table with members := setMember key item table.members }

/-- The table without a key. -/
def erase (table : Table) (key : String) : Table :=
  { table with members := table.members.eraseP fun member => member.1 == key }

/-- The table as an item of the document. -/
def toItem (table : Table) : Item :=
  .table table.implicit table.dotted table.members

/-- Changes the table at the end of a path, making the tables on the way that are
missing.  A dotted key must not go through a table that a header has opened, and
no path goes through a plain value. -/
def alter (dotted : Bool) (change : Table → Option Table) : List String → Table → Option Table
  | [], table => change table
  | key :: rest, table =>
    match table.find? key with
    | none =>
      (alter dotted change rest { implicit := true, dotted }).map fun below =>
        table.set key below.toItem
    | some (.table implicit wasDotted members) =>
      if dotted && !implicit then none
      else
        (alter dotted change rest { implicit, dotted := wasDotted, members }).map fun below =>
          table.set key below.toItem
    | some (.tables elements) =>
      match elements.getLast? with
      | none => none
      | some members =>
        (alter dotted change rest { members }).map fun below =>
          table.set key (.tables (elements.dropLast ++ [below.members]))
    | some _ => none

/-- The table at the end of a path. -/
def descend? : List String → Table → Option Table
  | [], table => some table
  | key :: rest, table =>
    match table.find? key with
    | some (.table implicit dotted members) => descend? rest { implicit, dotted, members }
    | some (.tables elements) =>
      match elements.getLast? with
      | none => none
      | some members => descend? rest { members }
    | _ => none

/-- Adds a new key to a table reached by a path of dotted keys.  A table reached
by a path must have been made by dotted keys, and one reached without must not. -/
def addMember (path : List String) (key : String) (item : Item) (table : Table) : Option Table :=
  if table.dotted == path.isEmpty then none
  else
    match table.find? key with
    | some _ => none
    | none => some (table.set key item)

/-- Sets a dotted key below a table. -/
def setDotted (table : Table) (path : List String) (key : String) (item : Item) : Option Table :=
  alter true (addMember path key item) path table

/-- Changes the inline table at the end of a path of dotted keys. -/
def alterInline (change : Table → Option Table) : List String → Table → Option Table
  | [], table => change table
  | key :: rest, table =>
    match table.find? key with
    | none =>
      (alterInline change rest { implicit := true, dotted := true }).map fun below =>
        table.set key (.inlineTable below.implicit below.dotted below.members)
    | some (.inlineTable implicit dotted members) =>
      if !implicit then none
      else
        (alterInline change rest { implicit, dotted, members }).map fun below =>
          table.set key (.inlineTable below.implicit below.dotted below.members)
    | some _ => none

/-- Sets a dotted key in an inline table. -/
def setInline (table : Table) (path : List String) (key : String) (item : Item) : Option Table :=
  alterInline (addMember path key item) path table

end Table

/-! ## Documents -/

/-- A document that is being read: the finished tables, and the one that the last
header has opened. -/
structure Document where
  root : Table := {}
  current : Table := {}
  /-- The path of the open table; empty for the top of the document. -/
  path : List String := []
  key : String := ""
  /-- Whether the open table is at the top of the document. -/
  atTop : Bool := true
  inArray : Bool := false
  deriving Repr, Inhabited

namespace Document

/-- Sets a dotted key in the open table. -/
def set (document : Document) (path : List String) (key : String) (item : Item) :
    Option Document :=
  (document.current.setDotted path key item).map fun current => { document with current }

/-- Appends a table to the tables under a key. -/
def appendTable (key : String) (element : Table) (table : Table) : Option Table :=
  match table.find? key with
  | none => some (table.set key (.tables [element.members]))
  | some (.tables elements) => some (table.set key (.tables (elements ++ [element.members])))
  | some _ => none

/-- Puts a table under a key that has none of its own yet. -/
def insertTable (key : String) (element : Table) (table : Table) : Option Table :=
  match table.find? key with
  | none => some (table.set key element.toItem)
  | some (.table true _ _) => some (table.set key element.toItem)
  | some _ => none

/-- The finished tables with the open one among them. -/
def close (document : Document) : Option Table :=
  if document.atTop then some document.current
  else if document.inArray then
    document.root.alter false (appendTable document.key document.current) document.path
  else document.root.alter false (insertTable document.key document.current) document.path

/-- Makes sure that tables can be appended under a key. -/
def reserveTables (key : String) (table : Table) : Option Table :=
  match table.find? key with
  | none => some (table.set key (.tables []))
  | some (.tables _) => some table
  | some _ => none

/-- Opens a further table under a key. -/
def openArrayTable (document : Document) (path : List String) (key : String) : Option Document := do
  let root ← document.close
  let root ← root.alter false (reserveTables key) path
  return { root, path, key, atTop := false, inArray := true }

/-- Opens the table under a key, which may already be there implicitly. -/
def openTable (document : Document) (path : List String) (key : String) : Option Document := do
  let root ← document.close
  let root ← root.alter false some path
  let parent ← root.descend? path
  match parent.find? key with
  | none => return { root, path, key, atTop := false, inArray := false }
  | some (.table true false members) =>
    let root ← root.alter false (fun table => some (table.erase key)) path
    return { root, current := { members }, path, key, atTop := false, inArray := false }
  | some _ => none

end Document
end Toml
end SourceIndex
