import SourceIndex.Bytes

/-!
# Writing JSON

JSON for people: two spaces for each level, one member or element a line, and
nothing between the brackets of an empty array or object.
-/

namespace SourceIndex

/-- A JSON value to be written. -/
inductive Pretty where
  | text (value : String)
  | number (value : Int)
  | flag (value : Bool)
  | list (items : List Pretty)
  | fields (members : List (String × Pretty))

namespace Pretty

/-- The mark that opens an object. -/
def openBrace : String := "\x7b"

/-- The mark that closes an object. -/
def closeBrace : String := "\x7d"

/-- A character as it stands in a string: quotes, backslashes and control
characters are escaped, by letter if there is one. -/
def escape (c : Char) : List Char :=
  match c with
  | '"' => ['\\', '"']
  | '\\' => ['\\', '\\']
  | '\x08' => ['\\', 'b']
  | '\x0c' => ['\\', 'f']
  | '\n' => ['\\', 'n']
  | '\r' => ['\\', 'r']
  | '\t' => ['\\', 't']
  | c =>
    if c.toNat < 0x20 then
      ['\\', 'u', '0', '0', Bytes.hexDigit (c.toNat / 16), Bytes.hexDigit (c.toNat % 16)]
    else [c]

/-- A text in quotes. -/
def quote (text : String) : String :=
  "\"" ++ String.ofList (text.toList.flatMap escape) ++ "\""

/-- The blanks in front of a line. -/
def indent (level : Nat) : String :=
  String.ofList (List.replicate (2 * level) ' ')

/-- Written parts between brackets, one part a line. -/
def enclose (left right : String) (level : Nat) (parts : List String) : String :=
  match parts with
  | [] => left ++ right
  | parts =>
    left ++ "\n" ++
      String.intercalate ",\n" (parts.map fun part => indent (level + 1) ++ part) ++
      "\n" ++ indent level ++ right

mutual

/-- A value as it stands at a level. -/
def render (level : Nat) : Pretty → String
  | .text value => quote value
  | .number value => toString value
  | .flag value => if value then "true" else "false"
  | .list items => enclose "[" "]" level (renderItems (level + 1) items)
  | .fields members => enclose openBrace closeBrace level (renderMembers (level + 1) members)

/-- The elements of an array. -/
def renderItems (level : Nat) : List Pretty → List String
  | [] => []
  | item :: rest => render level item :: renderItems level rest

/-- The members of an object. -/
def renderMembers (level : Nat) : List (String × Pretty) → List String
  | [] => []
  | (name, value) :: rest => (quote name ++ ": " ++ render level value) :: renderMembers level rest

end

end Pretty
end SourceIndex
