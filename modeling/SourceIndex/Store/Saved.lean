import SourceIndex.Store.Basic
import SourceIndex.Wire.Envelope
import SourceIndex.Wire.Shape

/-!
# Saved stores

A store is saved as four letters, a version byte and one MessagePack value: its
versions, its entries and the name of its key strategy, each of them nil if the
table is missing.
-/

namespace SourceIndex

open Wire (Value)

/-- A number as a MessagePack value. -/
def intValue (number : Int) : Value :=
  if 0 ≤ number then .uint number.toNat else .sint number

/-- The number a MessagePack value holds. -/
def intOfValue? : Value → Option Int
  | .uint value => some value
  | .sint value => some value
  | _ => none

namespace StoreEntry

/-- An entry as a MessagePack value. -/
def toValue (entry : StoreEntry) : Value :=
  .array [.bin entry.key.bytes, .text entry.path, .bin entry.value, intValue entry.indexedAt]

/-- The entry a MessagePack value holds. -/
def ofValue? : Value → Option StoreEntry
  | .array [key, path, value, indexedAt] => do
    let key ← key.bytes?
    let path ← path.text?
    let value ← value.bytes?
    let indexedAt ← intOfValue? indexedAt
    return { key := ⟨key⟩, path, value, indexedAt }
  | _ => none

end StoreEntry

namespace Store

/-- The marks of saved stores. -/
def envelope : Wire.Envelope where
  magic := Bytes.ofText "CXGI"
  version := 1

/-- What may be missing, as a MessagePack value: nil, or an array of one value. -/
def optionValue {α : Type} (toValue : α → Value) : Option α → Value
  | none => .nil
  | some item => .array [toValue item]

/-- What may be missing, out of a MessagePack value. -/
def optionOfValue? {α : Type} (ofValue? : Value → Option α) : Value → Option (Option α)
  | .nil => some none
  | .array [value] => (ofValue? value).map some
  | _ => none

/-- The bytes of a saved store. -/
def toBytes (store : Store) : Bytes :=
  envelope.wrap (.array
    [optionValue (fun versions => .array (versions.map intValue)) store.versions,
     optionValue (fun entries => .array (entries.map StoreEntry.toValue)) store.entries,
     optionValue (optionValue Value.text) store.strategyName])

/-- The store that bytes hold. -/
def ofBytes? (bytes : Bytes) : Option Store :=
  match envelope.unwrap bytes with
  | .error _ => none
  | .ok body =>
    match Wire.decode body with
    | some (.array [versions, entries, strategyName]) => do
      let versions ← optionOfValue? (Value.list? intOfValue?) versions
      let entries ← optionOfValue? (Value.list? StoreEntry.ofValue?) entries
      let strategyName ← optionOfValue? (optionOfValue? Value.text?) strategyName
      return { versions, entries, strategyName }
    | _ => none

end Store
end SourceIndex
