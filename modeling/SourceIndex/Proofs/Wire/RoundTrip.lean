import SourceIndex.Wire.Value

/-!
# Written values are read back

`Value.Portable depth value` says that a value fits the form it is written in:
numbers have at most eight bytes, sizes have at most four, and parts are nested
less than `depth` deep.  The main statement is `Value.read_writeBefore`: a
portable value in front of any bytes is read back, and exactly those bytes are
left.  So a reader never takes a byte that belongs to what follows.

Signed and tagged values are NOT portable here, because no file format of the
library writes them; a signed number that is not negative is written as an
unsigned one and does not come back as it was.
-/

namespace SourceIndex

/-! ## Numbers as bytes -/

namespace Bytes

@[simp] theorem bigEndian_length (width value : Nat) :
    (bigEndian width value).length = width := by
  induction width with
  | zero => rfl
  | succ width ih => simp [bigEndian, ih]

/-- Reading digits behind a number already read shifts that number up. -/
theorem foldl_bigEndian (width value start : Nat) :
    (bigEndian width value).foldl (fun value b => value * 256 + b.toNat) start =
      start * Nat.pow 256 width + value % Nat.pow 256 width := by
  induction width generalizing start with
  | zero => simp [bigEndian, Nat.mod_one]
  | succ width ih =>
      -- the leading digit is cut to a byte, which the remainder by the next power undoes
      have hdigit : (UInt8.ofNat (value / Nat.pow 256 width)).toNat =
          value / Nat.pow 256 width % 256 := by
        simp
      have hpow : Nat.pow 256 (width + 1) = Nat.pow 256 width * 256 := rfl
      have hsplit : value % (Nat.pow 256 width * 256) =
          value % Nat.pow 256 width + Nat.pow 256 width * (value / Nat.pow 256 width % 256) :=
        Nat.mod_mul
      rw [bigEndian, List.foldl_cons, ih, hdigit, hpow, hsplit, Nat.add_mul,
        Nat.mul_assoc, Nat.mul_comm 256 (Nat.pow 256 width),
        Nat.mul_comm (value / Nat.pow 256 width % 256) (Nat.pow 256 width)]
      omega

theorem toNat_bigEndian {width value : Nat} (hvalue : value < Nat.pow 256 width) :
    toNat (bigEndian width value) = value := by
  rw [toNat, foldl_bigEndian, Nat.mod_eq_of_lt hvalue]
  simp

/-- The number of bytes of a text. -/
@[simp] theorem length_ofText (text : String) : (ofText text).length = text.utf8ByteSize := by
  change text.toByteArray.data.toList.length = text.toByteArray.data.size
  rw [Array.length_toList]

/-- A text is found again in its bytes. -/
@[simp] theorem text?_ofText (text : String) : text? (ofText text) = some text := by
  have hbytes : (⟨(ofText text).toArray⟩ : ByteArray) = text.toByteArray := by
    simp [ofText]
  rw [text?, hbytes, String.fromUTF8?, dif_pos text.isValidUTF8]
  rfl

end Bytes

namespace Wire

theorem readBytes_append (bytes rest : Bytes) :
    readBytes bytes.length (bytes ++ rest) = some (bytes, rest) := by
  simp [readBytes, List.splitAt_eq]

theorem readNat_bigEndian {width value : Nat} (hvalue : value < Nat.pow 256 width) (rest : Bytes) :
    readNat width (Bytes.bigEndian width value ++ rest) = some (value, rest) := by
  have hread := readBytes_append (Bytes.bigEndian width value) rest
  rw [Bytes.bigEndian_length] at hread
  simp [readNat, hread, Bytes.toNat_bigEndian hvalue]

theorem readSized_bigEndian {α : Type} {width size : Nat} (hsize : size < Nat.pow 256 width)
    (readBody : Nat → Reader α) (rest : Bytes) :
    readSized width readBody (Bytes.bigEndian width size ++ rest) = readBody size rest := by
  simp [readSized, readNat_bigEndian hsize]

@[simp] theorem readStr_append (bytes rest : Bytes) :
    readStr bytes.length (bytes ++ rest) = some (.str bytes, rest) := by
  simp [readStr, readBytes_append]

@[simp] theorem readBin_append (bytes rest : Bytes) :
    readBin bytes.length (bytes ++ rest) = some (.bin bytes, rest) := by
  simp [readBin, readBytes_append]

/-! ## Values that fit their form -/

/-- Sizes of texts, blobs, arrays and maps are written in at most four bytes. -/
def sizeLimit : Nat := 0x100000000

theorem sizeWord_of_lt {size : Nat} (hsize : size < sizeLimit) : sizeWord size = size :=
  Nat.mod_eq_of_lt hsize

/-- Numbers are written in at most eight bytes. -/
def numberLimit : Nat := 0x10000000000000000

/-- Values whose numbers and sizes fit their form and whose parts are nested less
than `depth` deep.  A value with parts needs a level for them even if it has
none. -/
inductive Value.Portable : Nat → Value → Prop
  | nil (depth : Nat) : Portable (depth + 1) .nil
  | bool (depth : Nat) (value : Bool) : Portable (depth + 1) (.bool value)
  | uint (depth : Nat) {value : Nat} (hvalue : value < numberLimit) :
      Portable (depth + 1) (.uint value)
  | str (depth : Nat) {bytes : Bytes} (hsize : bytes.length < sizeLimit) :
      Portable (depth + 1) (.str bytes)
  | bin (depth : Nat) {bytes : Bytes} (hsize : bytes.length < sizeLimit) :
      Portable (depth + 1) (.bin bytes)
  | array {depth : Nat} {items : List Value} (hsize : items.length < sizeLimit)
      (hitems : ∀ item ∈ items, Portable (depth + 1) item) : Portable (depth + 2) (.array items)
  | map {depth : Nat} {entries : List Value} (size : Nat) (heven : entries.length = 2 * size)
      (hsize : size < sizeLimit) (hentries : ∀ entry ∈ entries, Portable (depth + 1) entry) :
      Portable (depth + 2) (.map entries)

/-! ## Leading bytes -/

/-- A value whose leading byte announces no parts is read by its announcement. -/
theorem Value.read_flat {byte : UInt8} (head : Head) (hhead : Head.ofByte byte = head)
    (hflat : head.isNesting = false) (depth : Nat) (bytes : Bytes) :
    Value.read (depth + 1) (byte :: bytes) = head.readBody (Value.read depth) bytes := by
  simp [Value.read, hhead, hflat]

/-- A value whose leading byte announces parts is read by its announcement if
there is a level left for the parts. -/
theorem Value.read_nesting {byte : UInt8} (head : Head) (hhead : Head.ofByte byte = head)
    (depth : Nat) (bytes : Bytes) :
    Value.read (depth + 2) (byte :: bytes) = head.readBody (Value.read (depth + 1)) bytes := by
  simp [Value.read, hhead]

theorem Head.ofByte_smallUint {value : Nat} (hvalue : value < 0x80) :
    Head.ofByte (UInt8.ofNat value) = .smallUint value := by
  have hcode : (UInt8.ofNat value).toNat = value :=
    UInt8.toNat_ofNat_of_lt (show _ < 256 by omega)
  simp [Head.ofByte, hcode, hvalue]

theorem Head.ofByte_str {size : Nat} (hsize : size < 32) :
    Head.ofByte (UInt8.ofNat (0xa0 + size)) = .str size := by
  have hcode : (UInt8.ofNat (0xa0 + size)).toNat = 0xa0 + size :=
    UInt8.toNat_ofNat_of_lt (show _ < 256 by omega)
  rw [Head.ofByte, hcode]
  simp only [show ¬(0xa0 + size < 0x80) by omega, show ¬(0xa0 + size < 0x90) by omega,
    show ¬(0xa0 + size < 0xa0) by omega, show 0xa0 + size < 0xc0 by omega, if_true, if_false]
  rw [Nat.add_sub_cancel_left]

theorem Head.ofByte_array {size : Nat} (hsize : size < 16) :
    Head.ofByte (UInt8.ofNat (0x90 + size)) = .array size := by
  have hcode : (UInt8.ofNat (0x90 + size)).toNat = 0x90 + size :=
    UInt8.toNat_ofNat_of_lt (show _ < 256 by omega)
  rw [Head.ofByte, hcode]
  simp only [show ¬(0x90 + size < 0x80) by omega, show ¬(0x90 + size < 0x90) by omega,
    show 0x90 + size < 0xa0 by omega, if_true, if_false]
  rw [Nat.add_sub_cancel_left]

theorem Head.ofByte_map {size : Nat} (hsize : size < 16) :
    Head.ofByte (UInt8.ofNat (0x80 + size)) = .map size := by
  have hcode : (UInt8.ofNat (0x80 + size)).toNat = 0x80 + size :=
    UInt8.toNat_ofNat_of_lt (show _ < 256 by omega)
  rw [Head.ofByte, hcode]
  simp only [show ¬(0x80 + size < 0x80) by omega, show 0x80 + size < 0x90 by omega,
    if_true, if_false]
  rw [Nat.add_sub_cancel_left]

/-! ## Numbers, texts and blobs -/

theorem Value.read_writeUint {value : Nat} (hvalue : value < numberLimit) (depth : Nat)
    (rest : Bytes) :
    Value.read (depth + 1) (writeUint value ++ rest) = some (.uint value, rest) := by
  have hlimit : value < Nat.pow 256 8 := hvalue
  unfold writeUint
  split
  next hsmall => exact Value.read_flat (.smallUint value) (Head.ofByte_smallUint hsmall) rfl depth rest
  next =>
    -- The widths 1, 2, 4 and 8 differ in the leading byte only.
    split
    next hone =>
      rw [List.cons_append, Value.read_flat (.uint 1) rfl rfl, Head.readBody,
        readNat_bigEndian hone]
      rfl
    next =>
      split
      next htwo =>
        rw [List.cons_append, Value.read_flat (.uint 2) rfl rfl, Head.readBody,
          readNat_bigEndian htwo]
        rfl
      next =>
        split
        next hfour =>
          rw [List.cons_append, Value.read_flat (.uint 4) rfl rfl, Head.readBody,
            readNat_bigEndian hfour]
          rfl
        next =>
          rw [List.cons_append, Value.read_flat (.uint 8) rfl rfl, Head.readBody,
            readNat_bigEndian hlimit]
          rfl

theorem Value.read_writeStr {bytes : Bytes} (hsize : bytes.length < sizeLimit) (depth : Nat)
    (rest : Bytes) :
    Value.read (depth + 1) (writeStrHead bytes.length ++ (bytes ++ rest)) =
      some (.str bytes, rest) := by
  have hlimit : bytes.length < Nat.pow 256 4 := hsize
  unfold writeStrHead
  split
  next hsmall =>
    rw [List.singleton_append, Value.read_flat (.str _) (Head.ofByte_str hsmall) rfl]
    exact readStr_append bytes rest
  next =>
    split
    next hone =>
      rw [List.cons_append, Value.read_flat (.strSized 1) rfl rfl, Head.readBody,
        readSized_bigEndian hone, readStr_append]
    next =>
      split
      next htwo =>
        rw [List.cons_append, Value.read_flat (.strSized 2) rfl rfl, Head.readBody,
          readSized_bigEndian htwo, readStr_append]
      next =>
        rw [List.cons_append, Value.read_flat (.strSized 4) rfl rfl, Head.readBody,
          readSized_bigEndian hlimit, readStr_append]

theorem Value.read_writeBin {bytes : Bytes} (hsize : bytes.length < sizeLimit) (depth : Nat)
    (rest : Bytes) :
    Value.read (depth + 1) (writeBinHead bytes.length ++ (bytes ++ rest)) =
      some (.bin bytes, rest) := by
  have hlimit : bytes.length < Nat.pow 256 4 := hsize
  unfold writeBinHead
  split
  next hone =>
    rw [List.cons_append, Value.read_flat (.binSized 1) rfl rfl, Head.readBody,
      readSized_bigEndian hone, readBin_append]
  next =>
    split
    next htwo =>
      rw [List.cons_append, Value.read_flat (.binSized 2) rfl rfl, Head.readBody,
        readSized_bigEndian htwo, readBin_append]
    next =>
      rw [List.cons_append, Value.read_flat (.binSized 4) rfl rfl, Head.readBody,
        readSized_bigEndian hlimit, readBin_append]

/-! ## Arrays and maps -/

/-- Reading as many values as were written gives them back, behind those already
read. -/
theorem readMany_writeAllBefore {readOne : Reader Value} {values : List Value}
    (hone : ∀ value ∈ values, ∀ rest, readOne (value.writeBefore rest) = some (value, rest))
    (before : List Value) (rest : Bytes) :
    readMany readOne values.length before (writeAllBefore values rest) =
      some (before.reverse ++ values, rest) := by
  -- the reader keeps what it has read in reverse, so `before` grows along the way
  induction values generalizing before with
  | nil => simp [readMany, writeAllBefore]
  | cons value values ih =>
      have hhead := hone value (by simp) (writeAllBefore values rest)
      have htail := ih (fun later hlater => hone later (by simp [hlater])) (value :: before)
      rw [List.length_cons, readMany, writeAllBefore, hhead]
      simpa using htail

theorem readArray_writeAllBefore {readOne : Reader Value} {items : List Value}
    (hone : ∀ item ∈ items, ∀ rest, readOne (item.writeBefore rest) = some (item, rest))
    (rest : Bytes) :
    readArray readOne items.length (writeAllBefore items rest) = some (.array items, rest) := by
  simp [readArray, readMany_writeAllBefore hone]

theorem readMap_writeAllBefore {readOne : Reader Value} {entries : List Value} {size : Nat}
    (heven : entries.length = 2 * size)
    (hone : ∀ entry ∈ entries, ∀ rest, readOne (entry.writeBefore rest) = some (entry, rest))
    (rest : Bytes) :
    readMap readOne size (writeAllBefore entries rest) = some (.map entries, rest) := by
  simp [readMap, ← heven, readMany_writeAllBefore hone]

theorem Value.read_writeArray {depth : Nat} {items : List Value}
    (hsize : items.length < sizeLimit)
    (hitems : ∀ item ∈ items, ∀ rest,
      Value.read (depth + 1) (item.writeBefore rest) = some (item, rest)) (rest : Bytes) :
    Value.read (depth + 2) (writeArrayHead items.length ++ writeAllBefore items rest) =
      some (.array items, rest) := by
  have hlimit : items.length < Nat.pow 256 4 := hsize
  unfold writeArrayHead
  split
  next hsmall =>
    rw [List.singleton_append, Value.read_nesting (.array _) (Head.ofByte_array hsmall)]
    exact readArray_writeAllBefore hitems rest
  next =>
    split
    next htwo =>
      rw [List.cons_append, Value.read_nesting (.arraySized 2) rfl, Head.readBody,
        readSized_bigEndian htwo, readArray_writeAllBefore hitems]
    next =>
      rw [List.cons_append, Value.read_nesting (.arraySized 4) rfl, Head.readBody,
        readSized_bigEndian hlimit, readArray_writeAllBefore hitems]

theorem Value.read_writeMap {depth size : Nat} {entries : List Value}
    (heven : entries.length = 2 * size) (hsize : size < sizeLimit)
    (hentries : ∀ entry ∈ entries, ∀ rest,
      Value.read (depth + 1) (entry.writeBefore rest) = some (entry, rest)) (rest : Bytes) :
    Value.read (depth + 2) (writeMapHead (entries.length / 2) ++ writeAllBefore entries rest) =
      some (.map entries, rest) := by
  have hlimit : size < Nat.pow 256 4 := hsize
  -- the size of a map counts pairs of a key and a value
  have hhalf : entries.length / 2 = size := by omega
  rw [hhalf]
  unfold writeMapHead
  split
  next hsmall =>
    rw [List.singleton_append, Value.read_nesting (.map _) (Head.ofByte_map hsmall)]
    exact readMap_writeAllBefore heven hentries rest
  next =>
    split
    next htwo =>
      rw [List.cons_append, Value.read_nesting (.mapSized 2) rfl, Head.readBody,
        readSized_bigEndian htwo, readMap_writeAllBefore heven hentries]
    next =>
      rw [List.cons_append, Value.read_nesting (.mapSized 4) rfl, Head.readBody,
        readSized_bigEndian hlimit, readMap_writeAllBefore heven hentries]

/-! ## The round trip -/

/-- A portable value is read back from the bytes in front of which it stands, and
nothing of what follows is touched. -/
theorem Value.read_writeBefore {depth : Nat} {value : Value} (hvalue : value.Portable depth)
    (rest : Bytes) : Value.read depth (value.writeBefore rest) = some (value, rest) := by
  -- over the derivation, not over the value: each level of parts takes one of `depth`
  induction hvalue generalizing rest with
  | nil depth =>
      rw [Value.writeBefore, Value.read_flat .nil rfl rfl]
      rfl
  | bool depth value =>
      cases value with
      | false => exact Value.read_flat (.bool false) rfl rfl depth rest
      | true => exact Value.read_flat (.bool true) rfl rfl depth rest
  | uint depth hvalue =>
      rw [Value.writeBefore]
      exact Value.read_writeUint hvalue depth rest
  | str depth hsize =>
      rw [Value.writeBefore, sizeWord_of_lt hsize]
      exact Value.read_writeStr hsize depth rest
  | bin depth hsize =>
      rw [Value.writeBefore, sizeWord_of_lt hsize]
      exact Value.read_writeBin hsize depth rest
  | array hsize _ ih =>
      rw [Value.writeBefore, sizeWord_of_lt hsize]
      exact Value.read_writeArray hsize ih rest
  | @map _ entries size heven hsize _ ih =>
      have hhalf : entries.length / 2 < sizeLimit := by
        rw [heven]
        omega
      rw [Value.writeBefore, sizeWord_of_lt hhalf]
      exact Value.read_writeMap heven hsize ih rest

mutual

/-- What stands behind a value does not change its bytes. -/
theorem Value.writeBefore_append (value : Value) (rest more : Bytes) :
    value.writeBefore (rest ++ more) = value.writeBefore rest ++ more := by
  cases value with
  | array items => simp [Value.writeBefore, writeAllBefore_append items rest more]
  | map entries => simp [Value.writeBefore, writeAllBefore_append entries rest more]
  | _ => simp [Value.writeBefore]

theorem writeAllBefore_append (values : List Value) (rest more : Bytes) :
    writeAllBefore values (rest ++ more) = writeAllBefore values rest ++ more := by
  cases values with
  | nil => rfl
  | cons value values =>
      simp only [writeAllBefore]
      rw [writeAllBefore_append values rest more, Value.writeBefore_append value]

end

/-- A portable value is decoded from its bytes, whatever follows them. -/
theorem decode_write_append {value : Value} (hvalue : value.Portable maxDepth) (rest : Bytes) :
    decode (value.write ++ rest) = some value := by
  have hbytes : value.write ++ rest = value.writeBefore rest := by
    rw [Value.write, ← Value.writeBefore_append, List.nil_append]
  rw [decode, hbytes, Value.read_writeBefore hvalue]
  rfl

end Wire
end SourceIndex
