import SourceIndex.Wire.Value

/-!
# Reading domain values out of MessagePack values

A structure is written as the array of its fields.  It is also read from a map
from field names, or field numbers, to values: keys that name no field are
passed over, a key that comes twice is refused, and a field that is left out is
reported as missing.  Numbers may have any form as long as the value fits, a
text may also be a blob that holds UTF-8, and a blob is also the list of its
bytes.  Tagged bytes are nothing but a value that may be passed over.
-/

namespace SourceIndex
namespace Wire
namespace Value

/-- The text a value holds. -/
def text? : Value → Option String
  | .str bytes | .bin bytes => Bytes.text? bytes
  | _ => none

/-- The number a value holds, if it is not negative. -/
def nat? : Value → Option Nat
  | .uint value => some value
  | .sint value => if 0 ≤ value then some value.toNat else none
  | _ => none

/-- The 32-bit number a value holds. -/
def word? (value : Value) : Option UInt32 :=
  match value.nat? with
  | some n => if n < 0x100000000 then some (UInt32.ofNat n) else none
  | none => none

/-- The number below `2 ^ 32` a value holds. -/
def index? (value : Value) : Option Nat :=
  match value.nat? with
  | some n => if n < 0x100000000 then some n else none
  | none => none

/-- The number below 256 a value holds. -/
def byte? (value : Value) : Option UInt8 :=
  match value.nat? with
  | some n => if n < 256 then some (UInt8.ofNat n) else none
  | none => none

/-- The truth value a value holds. -/
def bool? : Value → Option Bool
  | .bool value => some value
  | _ => none

/-- Applies a reader to all values of a list; those already read are given last
first. -/
def collect {α : Type} (read : Value → Option α) : List Value → List α → Option (List α)
  | [], done => some done.reverse
  | value :: rest, done =>
    match read value with
    | none => none
    | some item => collect read rest (item :: done)

/-- The list a value holds: the items of an array, or the bytes of a blob as
numbers. -/
def list? {α : Type} (read : Value → Option α) : Value → Option (List α)
  | .array items => collect read items []
  | .bin bytes => collect read (bytes.map fun byte => .uint byte.toNat) []
  | _ => none

/-- The bytes a value holds: a blob, a text, or a list of small numbers. -/
def bytes? : Value → Option Bytes
  | .bin bytes | .str bytes => some bytes
  | value => value.list? byte?

/-- Nil as nothing, anything else as something. -/
def option? {α : Type} (read : Value → Option α) : Value → Option (Option α)
  | .nil => some none
  | value => (read value).map some

/-- The field that a map key names: `none` if it cannot be a key, `some none` if
it names no field. -/
def fieldNumber? (names : List String) : Value → Option (Option Nat)
  | .uint number => some (if number < names.length then some number else none)
  | .str bytes | .bin bytes => some (names.findIdx? fun name => Bytes.ofText name == bytes)
  | _ => none

/-- Puts the entries of a map (keys and values in turn) into the slots of the
fields they name. -/
def fillSlots (names : List String) : List Value → List (Option Value) → Option (List (Option Value))
  | key :: value :: rest, slots =>
    match fieldNumber? names key with
    | none => none
    | some none => fillSlots names rest slots
    | some (some number) =>
      match slots[number]? with
      | some none => fillSlots names rest (slots.set number (some value))
      | _ => none
  | _, slots => some slots

/-- The values of the fields of a structure, in order; a field may be missing
from a map but not from an array. -/
def fields? (names : List String) : Value → Option (List (Option Value))
  | .array items => if items.length = names.length then some (items.map some) else none
  | .map entries => fillSlots names entries (names.map fun _ => none)
  | _ => none

end Value
end Wire
end SourceIndex
