import SourceIndex.Proofs.Wire.Shape

/-!
# Written forms are as long as their parts

Every text, blob and list within a value adds its own size to the written form of
the value (`Value.Within.extent_le`).  So the length of a file bounds all sizes in
it, and what a short file holds fits the format.

Nothing is asked of the value.  Of a size that does NOT fit the format only the
low-order bits are written, but what has this size is still written whole.
-/

namespace SourceIndex
namespace Wire

namespace Value

/-- A value is a part of itself and of every array or map with an item that it is a
part of. -/
inductive Within : Value → Value → Prop
  | self (value : Value) : Within value value
  | array {part item : Value} {items : List Value} (hitem : item ∈ items)
      (hpart : Within part item) : Within part (.array items)
  | map {part entry : Value} {entries : List Value} (hentry : entry ∈ entries)
      (hpart : Within part entry) : Within part (.map entries)

/-- The number of bytes or items that a value has besides its head. -/
def extent : Value → Nat
  | .str bytes | .bin bytes | .ext _ bytes => bytes.length
  | .array items => items.length
  | .map entries => entries.length
  | _ => 0

theorem writeBefore_eq (value : Value) (rest : Bytes) :
    value.writeBefore rest = value.write ++ rest := by
  rw [write, ← writeBefore_append, List.nil_append]

end Value

theorem writeAllBefore_eq (values : List Value) (rest : Bytes) :
    writeAllBefore values rest = values.flatMap Value.write ++ rest := by
  induction values with
  | nil => rfl
  | cons value values ih => rw [writeAllBefore, ih, Value.writeBefore_eq, List.flatMap_cons,
      List.append_assoc]

theorem writeUint_ne_nil (value : Nat) : writeUint value ≠ [] := by
  unfold writeUint
  repeat' split
  all_goals simp

theorem writeSint_ne_nil (value : Int) : writeSint value ≠ [] := by
  unfold writeSint
  split
  · exact writeUint_ne_nil _
  · dsimp only
    repeat' split
    all_goals simp

theorem writeStrHead_ne_nil (size : Nat) : writeStrHead size ≠ [] := by
  unfold writeStrHead
  repeat' split
  all_goals simp

theorem writeBinHead_ne_nil (size : Nat) : writeBinHead size ≠ [] := by
  unfold writeBinHead
  repeat' split
  all_goals simp

theorem writeArrayHead_ne_nil (size : Nat) : writeArrayHead size ≠ [] := by
  unfold writeArrayHead
  repeat' split
  all_goals simp

theorem writeMapHead_ne_nil (size : Nat) : writeMapHead size ≠ [] := by
  unfold writeMapHead
  repeat' split
  all_goals simp

namespace Value

/-- No value is written as nothing. -/
theorem write_ne_nil (value : Value) : value.write ≠ [] := by
  unfold write
  cases value with
  | nil => simp [writeBefore]
  | bool value => simp [writeBefore]
  | uint value => simp [writeBefore, writeUint_ne_nil]
  | sint value => simp [writeBefore, writeSint_ne_nil]
  | float => simp [writeBefore]
  | str bytes => simp [writeBefore, writeStrHead_ne_nil]
  | bin bytes => simp [writeBefore, writeBinHead_ne_nil]
  | ext tag bytes => simp [writeBefore]
  | array items => simp [writeBefore, writeArrayHead_ne_nil]
  | map entries => simp [writeBefore, writeMapHead_ne_nil]

/-- A list of values takes at least one byte for each of them. -/
theorem length_le_flatMap_write (values : List Value) :
    values.length ≤ (values.flatMap write).length := by
  induction values with
  | nil => exact Nat.le_refl 0
  | cons value values ih =>
      have hvalue : 0 < value.write.length := List.length_pos_iff.mpr value.write_ne_nil
      rw [List.flatMap_cons, List.length_append, List.length_cons]
      omega

theorem extent_le_length_write (value : Value) : value.extent ≤ value.write.length := by
  unfold write
  cases value with
  | str bytes => simp [extent, writeBefore]
  | bin bytes => simp [extent, writeBefore]
  | ext tag bytes =>
      simp [extent, writeBefore]
      omega
  | array items =>
      have hitems := length_le_flatMap_write items
      simp only [extent, writeBefore, writeAllBefore_eq, List.append_nil, List.length_append]
      omega
  | map entries =>
      have hentries := length_le_flatMap_write entries
      simp only [extent, writeBefore, writeAllBefore_eq, List.append_nil, List.length_append]
      omega
  | _ => exact Nat.zero_le _

/-- The written form of an item is within that of the list. -/
theorem length_write_le_of_mem {item : Value} {items : List Value} (hitem : item ∈ items) :
    item.write.length ≤ (writeAllBefore items []).length := by
  obtain ⟨front, back, rfl⟩ := List.append_of_mem hitem
  simp only [writeAllBefore_eq, List.flatMap_append, List.flatMap_cons, List.length_append]
  omega

theorem Within.length_le {part value : Value} (hpart : part.Within value) :
    part.write.length ≤ value.write.length := by
  induction hpart with
  | self => exact Nat.le_refl _
  | array hitem _ ih =>
      refine Nat.le_trans ih (Nat.le_trans (length_write_le_of_mem hitem) ?_)
      rw [write, writeBefore, List.length_append]
      exact Nat.le_add_left _ _
  | map hentry _ ih =>
      refine Nat.le_trans ih (Nat.le_trans (length_write_le_of_mem hentry) ?_)
      rw [write, writeBefore, List.length_append]
      exact Nat.le_add_left _ _

/-- What is within a value is no larger than its written form. -/
theorem Within.extent_le {part value : Value} (hpart : part.Within value) :
    part.extent ≤ value.write.length :=
  Nat.le_trans part.extent_le_length_write hpart.length_le

/-- A field of a structure. -/
theorem Within.field {part : Value} {items : List Value} (number : Nat)
    {item : Value} (hitem : items[number]? = some item) (hpart : part.Within item) :
    part.Within (.array items) :=
  .array (List.mem_of_getElem? hitem) hpart

/-- An item of a list. -/
theorem Within.list {α : Type} {form : α → Value} {part : Value} {items : List α} {item : α}
    (hitem : item ∈ items) (hpart : part.Within (form item)) :
    part.Within (.array (items.map form)) :=
  .array (List.mem_map_of_mem hitem) hpart

end Value

/-- The value behind the marks of a format is no longer than the file. -/
theorem Envelope.length_write_le (envelope : Envelope) (value : Value) :
    value.write.length ≤ (envelope.wrap value).length := by
  rw [wrap, List.length_append, List.length_cons]
  omega

end Wire
end SourceIndex
