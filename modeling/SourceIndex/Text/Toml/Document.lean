import SourceIndex.Text.Toml.Scalar

/-!
# Reading TOML documents

A document is read line by line: comments, headers in brackets, and keys with
values.  Arrays may go over several lines, inline tables may not.
-/

namespace SourceIndex
namespace Toml

/-- How many keys a dotted key has at most, less one. -/
def maxKeys : Nat := 79

/-- How deep arrays and inline tables may be nested. -/
def maxNesting : Nat := 79

/-- The characters behind a comment, if there is one; its characters must be
printable. -/
def comment? (chars : List Char) : Option (List Char) :=
  match chars with
  | '#' :: rest =>
    match rest.dropWhile isPrintable with
    | [] => some []
    | '\n' :: rest => some ('\n' :: rest)
    | '\r' :: '\n' :: rest => some ('\r' :: '\n' :: rest)
    | _ => none
  | chars => some chars

/-- The characters behind the rest of a line on which nothing more may stand but
a comment. -/
def finishLine? (chars : List Char) : Option (List Char) :=
  match comment? (skipBlanks chars) with
  | none => none
  | some [] => some []
  | some rest => lineEnd? rest

/-! ## Keys -/

/-- Whether a character may stand in a key without quotes. -/
def isBare (c : Char) : Bool :=
  c.isAlphanum || c == '_' || c == '-'

/-- Reads one key. -/
def simpleKey? (chars : List Char) : Option (String × List Char) :=
  match chars with
  | c :: _ =>
    if isBare c then some (String.ofList (chars.takeWhile isBare), chars.dropWhile isBare)
    else shortString? chars
  | [] => none

/-- Reads a dotted key with the blanks around it; the keys so far are given last
first.  Each key takes a character, so the length of the input is enough fuel. -/
def keys? (fuel : Nat) (read : List String) (chars : List Char) :
    Option (List String × List Char) :=
  match fuel with
  | 0 => none
  | fuel + 1 =>
    match simpleKey? (skipBlanks chars) with
    | none => none
    | some (key, rest) =>
      match skipBlanks rest with
      | '.' :: rest => keys? fuel (key :: read) rest
      | rest => some (key :: read, rest)

/-- Reads a dotted key: the path to its table and the key in it. -/
def dottedKey? (chars : List Char) : Option ((List String × String) × List Char) :=
  match keys? (chars.length + 1) [] chars with
  | some (last :: before, rest) =>
    if before.length < maxKeys then some ((before.reverse, last), rest) else none
  | _ => none

/-! ## Values -/

/-- Drops blanks, line ends and comments. -/
def skipSpace (fuel : Nat) (chars : List Char) : Option (List Char) :=
  match fuel with
  | 0 => some chars
  | fuel + 1 =>
    match skipLines chars with
    | '#' :: rest =>
      match comment? ('#' :: rest) with
      | none => none
      | some rest => skipSpace fuel rest
    | rest => some rest

/-- Drops blanks, line ends and comments. -/
def skipSpaces (chars : List Char) : Option (List Char) :=
  skipSpace (chars.length + 1) chars

/-- Reads the items of an array behind its opening bracket; those so far are given
last first. -/
def arrayItems (readItem : Reader Item) (fuel : Nat) (read : List Item) (chars : List Char) :
    Option (Item × List Char) :=
  match fuel with
  | 0 => none
  | fuel + 1 =>
    match skipSpaces chars with
    | none => none
    | some (']' :: rest) => some (.array read.reverse, rest)
    | some chars =>
      match readItem chars with
      | none => none
      | some (item, rest) =>
        match skipSpaces rest with
        | some (',' :: rest) => arrayItems readItem fuel (item :: read) rest
        | some (']' :: rest) => some (.array (item :: read).reverse, rest)
        | _ => none

/-- Reads a key and its value. -/
def member? (readItem : Reader Item) (chars : List Char) :
    Option (((List String × String) × Item) × List Char) :=
  match dottedKey? chars with
  | some (key, '=' :: rest) =>
    (readItem (skipBlanks rest)).map fun (item, rest) => ((key, item), rest)
  | _ => none

/-- Reads the members of an inline table behind its opening brace, or behind a
comma. -/
def inlineMembers (readItem : Reader Item) (fuel : Nat) (table : Table) (chars : List Char) :
    Option (Item × List Char) :=
  match fuel with
  | 0 => none
  | fuel + 1 =>
    match member? readItem chars with
    | none => none
    | some (((path, key), item), rest) =>
      match table.setInline path key item with
      | none => none
      | some table =>
        match skipBlanks rest with
        | ',' :: rest => inlineMembers readItem fuel table rest
        | '\x7d' :: rest => some (.inlineTable false false table.members, rest)
        | _ => none

/-- Reads a value in which arrays and inline tables are nested `depth` deep at
most. -/
def item? : (depth : Nat) → Reader Item
  | 0, chars =>
    match chars with
    | '[' :: _ => none
    | '\x7b' :: _ => none
    | chars => scalarItem? chars
  | depth + 1, chars =>
    match chars with
    | '[' :: rest => arrayItems (item? depth) (rest.length + 1) [] rest
    | '\x7b' :: rest =>
      match skipBlanks rest with
      | '\x7d' :: rest => some (.inlineTable false false [], rest)
      | rest => inlineMembers (item? depth) (rest.length + 1) {} rest
    | chars => scalarItem? chars

/-! ## Lines -/

/-- Reads a line that starts with a bracket. -/
def header? (document : Document) (chars : List Char) : Option (Document × List Char) :=
  match chars with
  | '[' :: '[' :: rest =>
    match dottedKey? rest with
    | some ((path, key), ']' :: ']' :: rest) => do
      let document ← document.openArrayTable path key
      return (document, ← finishLine? rest)
    | _ => none
  | '[' :: rest =>
    match dottedKey? rest with
    | some ((path, key), ']' :: rest) => do
      let document ← document.openTable path key
      return (document, ← finishLine? rest)
    | _ => none
  | _ => none

/-- Reads a line with a key and a value. -/
def assignment? (document : Document) (chars : List Char) : Option (Document × List Char) := do
  let (((path, key), item), rest) ← member? (item? maxNesting) chars
  let document ← document.set path key item
  return (document, ← finishLine? rest)

/-- Reads the lines of a document.  Each takes at least one character, so the
length of the input is enough fuel. -/
def lines (fuel : Nat) (document : Document) (chars : List Char) : Option Document :=
  match fuel, skipBlanks chars with
  | _, [] => some document
  | 0, _ => none
  | fuel + 1, c :: rest =>
    if c == '[' then
      (header? document (c :: rest)).bind fun (document, rest) => lines fuel document rest
    else if c == '#' || c == '\n' || c == '\r' then
      (finishLine? (c :: rest)).bind fun rest => lines fuel document rest
    else (assignment? document (c :: rest)).bind fun (document, rest) => lines fuel document rest

/-- The table that a text describes.  A byte order mark in front of it does not
count. -/
def parse? (text : String) : Option Table :=
  let chars := match text.toList with
    | '\ufeff' :: rest => rest
    | chars => chars
  (lines (chars.length + 1) {} chars).bind Document.close

end Toml
end SourceIndex
