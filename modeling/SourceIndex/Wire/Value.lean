import SourceIndex.Bytes

/-!
# MessagePack values

MessagePack is a compact form of structured values: one leading byte tells the
shape and, for short values, the size; longer ones put the size or the number in
the bytes that follow.  This module holds the values, the writer and the reader.

The writer always takes the shortest form.  The reader takes any form and returns
the bytes behind the value.  Values may be nested `maxDepth` deep at most.  Sizes
are words of 32 bits; a part that is longer is written under a size that is too
small.
-/

namespace SourceIndex
namespace Wire

/-- A MessagePack value.  Numbers keep the signedness of the form they were
written in, and texts are bytes that need not be UTF-8. -/
inductive Value where
  | nil
  | bool (value : Bool)
  | uint (value : Nat)
  | sint (value : Int)
  | float
  | str (bytes : Bytes)
  | bin (bytes : Bytes)
  /-- Bytes of a kind that the tag tells. -/
  | ext (tag : UInt8) (bytes : Bytes)
  | array (items : List Value)
  /-- The keys and values in turn. -/
  | map (entries : List Value)
  deriving Repr, Inhabited

/-- A text as a value. -/
def Value.text (text : String) : Value :=
  .str (Bytes.ofText text)

/-! ## Writing -/

/-- The shortest form of a number below `2 ^ 64`. -/
def writeUint (value : Nat) : Bytes :=
  if value < 0x80 then [UInt8.ofNat value]
  else if value < 0x100 then 0xcc :: Bytes.bigEndian 1 value
  else if value < 0x10000 then 0xcd :: Bytes.bigEndian 2 value
  else if value < 0x100000000 then 0xce :: Bytes.bigEndian 4 value
  else 0xcf :: Bytes.bigEndian 8 value

/-- The shortest form of a negative number; others are written as unsigned. -/
def writeSint (value : Int) : Bytes :=
  if 0 ≤ value then writeUint value.toNat
  else
    let bits (limit : Int) : Nat := (value + limit).toNat
    if -0x20 ≤ value then [UInt8.ofNat (bits 0x100)]
    else if -0x80 ≤ value then 0xd0 :: Bytes.bigEndian 1 (bits 0x100)
    else if -0x8000 ≤ value then 0xd1 :: Bytes.bigEndian 2 (bits 0x10000)
    else if -0x80000000 ≤ value then 0xd2 :: Bytes.bigEndian 4 (bits 0x100000000)
    else 0xd3 :: Bytes.bigEndian 8 (bits 0x10000000000000000)

/-- The size that is written for what has `size` parts.  Sizes are words of 32 bits,
and of a larger size only the low-order bits are written. -/
def sizeWord (size : Nat) : Nat :=
  size % 0x100000000

/-- The head of a text of `size` bytes. -/
def writeStrHead (size : Nat) : Bytes :=
  if size < 32 then [UInt8.ofNat (0xa0 + size)]
  else if size < 0x100 then 0xd9 :: Bytes.bigEndian 1 size
  else if size < 0x10000 then 0xda :: Bytes.bigEndian 2 size
  else 0xdb :: Bytes.bigEndian 4 size

/-- The head of a blob of `size` bytes. -/
def writeBinHead (size : Nat) : Bytes :=
  if size < 0x100 then 0xc4 :: Bytes.bigEndian 1 size
  else if size < 0x10000 then 0xc5 :: Bytes.bigEndian 2 size
  else 0xc6 :: Bytes.bigEndian 4 size

/-- The head of tagged bytes, `size` of them, up to the tag. -/
def writeExtHead (size : Nat) : Bytes :=
  match size with
  | 1 => [0xd4]
  | 2 => [0xd5]
  | 4 => [0xd6]
  | 8 => [0xd7]
  | 16 => [0xd8]
  | _ =>
    if size < 0x100 then 0xc7 :: Bytes.bigEndian 1 size
    else if size < 0x10000 then 0xc8 :: Bytes.bigEndian 2 size
    else 0xc9 :: Bytes.bigEndian 4 size

/-- The head of an array of `size` items. -/
def writeArrayHead (size : Nat) : Bytes :=
  if size < 16 then [UInt8.ofNat (0x90 + size)]
  else if size < 0x10000 then 0xdc :: Bytes.bigEndian 2 size
  else 0xdd :: Bytes.bigEndian 4 size

/-- The head of a map of `size` entries. -/
def writeMapHead (size : Nat) : Bytes :=
  if size < 16 then [UInt8.ofNat (0x80 + size)]
  else if size < 0x10000 then 0xde :: Bytes.bigEndian 2 size
  else 0xdf :: Bytes.bigEndian 4 size

mutual

/-- The bytes of a value, in front of `rest`. -/
def Value.writeBefore : Value → Bytes → Bytes
  | .nil, rest => 0xc0 :: rest
  | .bool value, rest => (if value then 0xc3 else 0xc2) :: rest
  | .uint value, rest => writeUint value ++ rest
  | .sint value, rest => writeSint value ++ rest
  | .float, rest => 0xcb :: (Bytes.bigEndian 8 0 ++ rest)
  | .str bytes, rest => writeStrHead (sizeWord bytes.length) ++ (bytes ++ rest)
  | .bin bytes, rest => writeBinHead (sizeWord bytes.length) ++ (bytes ++ rest)
  | .ext tag bytes, rest => writeExtHead (sizeWord bytes.length) ++ tag :: (bytes ++ rest)
  | .array items, rest => writeArrayHead (sizeWord items.length) ++ writeAllBefore items rest
  | .map entries, rest =>
    writeMapHead (sizeWord (entries.length / 2)) ++ writeAllBefore entries rest

/-- The bytes of several values, in front of `rest`. -/
def writeAllBefore : List Value → Bytes → Bytes
  | [], rest => rest
  | value :: values, rest => value.writeBefore (writeAllBefore values rest)

end

/-- The bytes of a value. -/
def Value.write (value : Value) : Bytes :=
  value.writeBefore []

/-! ## Reading -/

/-- A reader returns what it read and the bytes behind it. -/
abbrev Reader (α : Type) := Bytes → Option (α × Bytes)

/-- Reads `count` bytes. -/
def readBytes (count : Nat) : Reader Bytes := fun bytes =>
  let (taken, rest) := bytes.splitAt count
  if taken.length = count then some (taken, rest) else none

/-- Reads a number of `width` bytes. -/
def readNat (width : Nat) : Reader Nat := fun bytes =>
  (readBytes width bytes).map fun (taken, rest) => (Bytes.toNat taken, rest)

/-- Reads a signed number of `width` bytes. -/
def readInt (width : Nat) : Reader Int := fun bytes =>
  (readNat width bytes).map fun (value, rest) =>
    let limit := Nat.pow 256 width
    (if value < limit / 2 then (value : Int) else (value : Int) - (limit : Int), rest)

/-- Reads `count` values in a row; those already read are given last first. -/
def readMany {α : Type} (readOne : Reader α) : (count : Nat) → List α → Reader (List α)
  | 0, read, bytes => some (read.reverse, bytes)
  | count + 1, read, bytes =>
    match readOne bytes with
    | none => none
    | some (value, rest) => readMany readOne count (value :: read) rest

/-- What the leading byte of a value announces. -/
inductive Head where
  | nil
  | bool (value : Bool)
  | smallUint (value : Nat)
  | smallSint (value : Int)
  | uint (width : Nat)
  | sint (width : Nat)
  | float (width : Nat)
  | str (size : Nat)
  | strSized (width : Nat)
  | binSized (width : Nat)
  | ext (size : Nat)
  | extSized (width : Nat)
  | array (size : Nat)
  | arraySized (width : Nat)
  | map (size : Nat)
  | mapSized (width : Nat)
  /-- The one byte that announces nothing. -/
  | reserved
  deriving DecidableEq, Repr

/-- The announcement of a leading byte. -/
def Head.ofByte (byte : UInt8) : Head :=
  let code := byte.toNat
  if code < 0x80 then .smallUint code
  else if code < 0x90 then .map (code - 0x80)
  else if code < 0xa0 then .array (code - 0x90)
  else if code < 0xc0 then .str (code - 0xa0)
  else if 0xe0 ≤ code then .smallSint ((code : Int) - 256)
  else
    match code with
    | 0xc0 => .nil
    | 0xc2 => .bool false
    | 0xc3 => .bool true
    | 0xc4 => .binSized 1
    | 0xc5 => .binSized 2
    | 0xc6 => .binSized 4
    | 0xc7 => .extSized 1
    | 0xc8 => .extSized 2
    | 0xc9 => .extSized 4
    | 0xca => .float 4
    | 0xcb => .float 8
    | 0xcc => .uint 1
    | 0xcd => .uint 2
    | 0xce => .uint 4
    | 0xcf => .uint 8
    | 0xd0 => .sint 1
    | 0xd1 => .sint 2
    | 0xd2 => .sint 4
    | 0xd3 => .sint 8
    | 0xd4 => .ext 1
    | 0xd5 => .ext 2
    | 0xd6 => .ext 4
    | 0xd7 => .ext 8
    | 0xd8 => .ext 16
    | 0xd9 => .strSized 1
    | 0xda => .strSized 2
    | 0xdb => .strSized 4
    | 0xdc => .arraySized 2
    | 0xdd => .arraySized 4
    | 0xde => .mapSized 2
    | 0xdf => .mapSized 4
    | _ => .reserved

/-- Reads a size of `width` bytes and then what has this size. -/
def readSized {α : Type} (width : Nat) (readBody : Nat → Reader α) : Reader α := fun bytes =>
  match readNat width bytes with
  | none => none
  | some (size, rest) => readBody size rest

/-- Reads a text of `size` bytes. -/
def readStr (size : Nat) : Reader Value := fun bytes =>
  (readBytes size bytes).map fun (taken, rest) => (.str taken, rest)

/-- Reads a blob of `size` bytes. -/
def readBin (size : Nat) : Reader Value := fun bytes =>
  (readBytes size bytes).map fun (taken, rest) => (.bin taken, rest)

/-- Reads a tag and `size` bytes behind it. -/
def readExt (size : Nat) : Reader Value
  | [] => none
  | tag :: bytes => (readBytes size bytes).map fun (taken, rest) => (.ext tag taken, rest)

/-- Reads an array of `size` items. -/
def readArray (readItem : Reader Value) (size : Nat) : Reader Value := fun bytes =>
  (readMany readItem size [] bytes).map fun (items, rest) => (.array items, rest)

/-- Reads a map of `size` entries. -/
def readMap (readItem : Reader Value) (size : Nat) : Reader Value := fun bytes =>
  (readMany readItem (2 * size) [] bytes).map fun (entries, rest) => (.map entries, rest)

/-- Reads what is behind the leading byte of a value, whose items are read by
`readItem`. -/
def Head.readBody (readItem : Reader Value) : Head → Reader Value
  | .nil, bytes => some (.nil, bytes)
  | .bool value, bytes => some (.bool value, bytes)
  | .smallUint value, bytes => some (.uint value, bytes)
  | .smallSint value, bytes => some (.sint value, bytes)
  | .uint width, bytes => (readNat width bytes).map fun (value, rest) => (.uint value, rest)
  | .sint width, bytes => (readInt width bytes).map fun (value, rest) => (.sint value, rest)
  | .float width, bytes => (readBytes width bytes).map fun (_, rest) => (.float, rest)
  | .str size, bytes => readStr size bytes
  | .strSized width, bytes => readSized width readStr bytes
  | .binSized width, bytes => readSized width readBin bytes
  | .ext size, bytes => readExt size bytes
  | .extSized width, bytes => readSized width readExt bytes
  | .array size, bytes => readArray readItem size bytes
  | .arraySized width, bytes => readSized width (readArray readItem) bytes
  | .map size, bytes => readMap readItem size bytes
  | .mapSized width, bytes => readSized width (readMap readItem) bytes
  | .reserved, _ => none

/-- Whether the value behind a leading byte is one level deeper than those
without parts.  Tagged bytes count as a pair of a tag and a blob. -/
def Head.isNesting : Head → Bool
  | .ext _ | .extSized _ | .array _ | .arraySized _ | .map _ | .mapSized _ => true
  | _ => false

/-- Reads one value whose parts are nested less than `depth` deep. -/
def Value.read : (depth : Nat) → Reader Value
  | 0, _ => none
  | _ + 1, [] => none
  | depth + 1, byte :: bytes =>
    let head := Head.ofByte byte
    if head.isNesting && depth == 0 then none
    else head.readBody (Value.read depth) bytes

/-- The parts of values must be nested less deep than this. -/
def maxDepth : Nat := 1024

/-- The value at the start of `bytes`; what follows it does not matter. -/
def decode (bytes : Bytes) : Option Value :=
  (Value.read maxDepth bytes).map Prod.fst

end Wire
end SourceIndex
