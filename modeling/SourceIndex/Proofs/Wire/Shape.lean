import SourceIndex.Proofs.Wire.RoundTrip
import SourceIndex.Wire.Envelope
import SourceIndex.Wire.Shape

/-!
# Written shapes are recognized

The parts that domain values are written from are numbers, texts, lists and the
arrays of fields of structures.  For each of them there are two lemmas: what is
read out of the written form, and how deep and how large the written form may
be (`Value.Portable`).  The readers accept many more forms than these; nothing
is said about the others here.
-/

namespace SourceIndex
namespace Wire

/-- The bytes of a text can be counted in a size. -/
def ShortText (text : String) : Prop :=
  text.utf8ByteSize < sizeLimit

instance (text : String) : Decidable (ShortText text) :=
  inferInstanceAs (Decidable (text.utf8ByteSize < sizeLimit))

namespace Value

/-! ## What is read out of a written form -/

@[simp] theorem text?_text (text : String) : (Value.text text).text? = some text :=
  Bytes.text?_ofText text

@[simp] theorem word?_uint (word : UInt32) : (Value.uint word.toNat).word? = some word := by
  have hword : word.toNat < 0x100000000 := word.toNat_lt
  simp [word?, nat?, hword]

theorem index?_uint {number : Nat} (hnumber : number < sizeLimit) :
    (Value.uint number).index? = some number := by
  have hlimit : number < 0x100000000 := hnumber
  simp [index?, nat?, hlimit]

/-- A reader that undoes `form` on each item collects all items. -/
theorem collect_map {α : Type} {read : Value → Option α} {form : α → Value} {items : List α}
    (hread : ∀ item ∈ items, read (form item) = some item) (done : List α) :
    collect read (items.map form) done = some (done.reverse ++ items) := by
  induction items generalizing done with
  | nil => simp [collect]
  | cons item items ih =>
      have hhead := hread item (by simp)
      have htail := ih (fun later hlater => hread later (by simp [hlater])) (item :: done)
      rw [List.map_cons, collect, hhead]
      simpa using htail

theorem list?_array_map {α : Type} {read : Value → Option α} {form : α → Value}
    {items : List α} (hread : ∀ item ∈ items, read (form item) = some item) :
    (Value.array (items.map form)).list? read = some items := by
  simp [list?, collect_map hread]

theorem option?_of_ne_nil {α : Type} {value : Value} (hvalue : value ≠ .nil)
    (read : Value → Option α) : value.option? read = (read value).map some := by
  cases value with
  | nil => exact absurd rfl hvalue
  | _ => rfl

/-- Something that may be missing is written as nil or as what it is.  No form of
an item is nil. -/
theorem option?_getD {α : Type} {read : Value → Option α} {form : α → Value} {item : Option α}
    (hread : ∀ found ∈ item, read (form found) = some found)
    (hform : ∀ found, form found ≠ .nil) :
    ((item.map form).getD .nil).option? read = some item := by
  cases item with
  | none => rfl
  | some found =>
      change (form found).option? read = some (some found)
      rw [option?_of_ne_nil (hform found), hread found rfl]
      rfl

/-- The array of the fields of a structure gives all of them. -/
theorem fields?_array {names : List String} {items : List Value}
    (hlength : items.length = names.length) :
    (Value.array items).fields? names = some (items.map some) := by
  simp [fields?, hlength]

/-! ## How large a written form is -/

namespace Portable

theorem text (depth : Nat) {text : String} (htext : ShortText text) :
    (Value.text text).Portable (depth + 1) :=
  .str depth (by rw [Bytes.length_ofText]; exact htext)

theorem index (depth : Nat) {number : Nat} (hnumber : number < sizeLimit) :
    (Value.uint number).Portable (depth + 1) :=
  .uint depth (Nat.lt_trans hnumber (by decide))

theorem word (depth : Nat) (word : UInt32) : (Value.uint word.toNat).Portable (depth + 1) :=
  .index depth word.toNat_lt

theorem list {α : Type} {depth : Nat} {form : α → Value} {items : List α}
    (hsize : items.length < sizeLimit)
    (hitems : ∀ item ∈ items, (form item).Portable (depth + 1)) :
    (Value.array (items.map form)).Portable (depth + 2) := by
  refine .array (by simpa using hsize) ?_
  intro value hvalue
  obtain ⟨item, hitem, rfl⟩ := List.mem_map.mp hvalue
  exact hitems item hitem

theorem option {α : Type} {depth : Nat} {form : α → Value} {item : Option α}
    (hitem : ∀ found ∈ item, (form found).Portable (depth + 1)) :
    ((item.map form).getD .nil).Portable (depth + 1) := by
  cases item with
  | none => exact .nil depth
  | some found => exact hitem found rfl

end Portable
end Value

/-! ## Marked files -/

/-- Behind the marks of its own format stands the value, and what was behind it. -/
theorem Envelope.unwrap_wrap_append (envelope : Envelope) (value : Value) (rest : Bytes) :
    envelope.unwrap (envelope.wrap value ++ rest) = .ok (value.write ++ rest) := by
  simp [Envelope.unwrap, Envelope.wrap]

end Wire
end SourceIndex
