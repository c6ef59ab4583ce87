/-!
# Byte strings

Saved units, stored records and digests are byte strings.  They are lists here,
so that readers are functions that return the rest of their input and a format
can be reasoned about by induction on the bytes.
-/

namespace SourceIndex

/-- A byte string. -/
abbrev Bytes := List UInt8

namespace Bytes

/-- The UTF-8 bytes of a text. -/
def ofText (text : String) : Bytes :=
  text.toUTF8.data.toList

/-- The text whose UTF-8 form is `bytes`, if there is one. -/
def text? (bytes : Bytes) : Option String :=
  String.fromUTF8? ⟨bytes.toArray⟩

/-- The lower-case hexadecimal digit of a number below sixteen. -/
def hexDigit (value : Nat) : Char :=
  if value < 10 then Char.ofNat ('0'.toNat + value) else Char.ofNat ('a'.toNat + (value - 10))

/-- Two lower-case hexadecimal digits for each byte. -/
def toHex (bytes : Bytes) : String :=
  String.ofList (bytes.flatMap fun b => [hexDigit (b.toNat / 16), hexDigit (b.toNat % 16)])

/-- The value of a hexadecimal digit in either case. -/
def hexValue? (c : Char) : Option Nat :=
  if '0' ≤ c ∧ c ≤ '9' then some (c.toNat - '0'.toNat)
  else if 'a' ≤ c ∧ c ≤ 'f' then some (c.toNat - 'a'.toNat + 10)
  else if 'A' ≤ c ∧ c ≤ 'F' then some (c.toNat - 'A'.toNat + 10)
  else none

/-- Collects the bytes written by pairs of hexadecimal digits, last byte first. -/
def ofHexDigits? (collected : Bytes) : List Char → Option Bytes
  | [] => some collected.reverse
  | high :: low :: rest =>
    match hexValue? high, hexValue? low with
    | some h, some l => ofHexDigits? (UInt8.ofNat (16 * h + l) :: collected) rest
    | _, _ => none
  | [_] => none

/-- The bytes that a hexadecimal text spells, if it is one. -/
def ofHex? (text : String) : Option Bytes :=
  ofHexDigits? [] text.toList

/-- The `width` low-order bytes of a number, most significant first. -/
def bigEndian : (width : Nat) → (value : Nat) → Bytes
  | 0, _ => []
  | width + 1, value => UInt8.ofNat (value / Nat.pow 256 width) :: bigEndian width value

/-- The `width` low-order bytes of a number, least significant first. -/
def littleEndian : (width : Nat) → (value : Nat) → Bytes
  | 0, _ => []
  | width + 1, value => UInt8.ofNat value :: littleEndian width (value / 256)

/-- The number that bytes spell, most significant first. -/
def toNat (bytes : Bytes) : Nat :=
  bytes.foldl (fun value b => value * 256 + b.toNat) 0

end Bytes
end SourceIndex
