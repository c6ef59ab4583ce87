import SourceIndex.Proofs.Cursor.Saved
import SourceIndex.Record.Stored

/-!
# Stored records are read back

A record that fits the format (`Record.Fits`) is found again in its stored form,
whatever bytes follow.  So two records that fit the format and have one stored
form are equal.  Nothing is asked of the entries: locations may name any file,
and the saved tree may be any bytes.
-/

namespace SourceIndex

open Wire (Value ShortText sizeLimit)

/-! ## The values of a record are recognized -/

@[simp] theorem declarationOfValue?_declarationValue (location : Location) :
    declarationOfValue? (declarationValue location) = some location := by
  simp [declarationOfValue?, declarationValue, Value.fields?_array]

@[simp] theorem DefinitionEntry.ofValue?_toValue (entry : DefinitionEntry) :
    DefinitionEntry.ofValue? entry.toValue = some entry := by
  simp [DefinitionEntry.ofValue?, DefinitionEntry.toValue, Value.fields?_array]

@[simp] theorem ReferenceEntry.ofValue?_toValue (entry : ReferenceEntry) :
    ReferenceEntry.ofValue? entry.toValue = some entry := by
  simp [ReferenceEntry.ofValue?, ReferenceEntry.toValue, Value.fields?_array, Value.bool?]

@[simp] theorem HeaderEntry.ofValue?_toValue (entry : HeaderEntry) :
    HeaderEntry.ofValue? entry.toValue = some entry := by
  simp [HeaderEntry.ofValue?, HeaderEntry.toValue, Value.fields?_array]

theorem Record.ofValue?_toValue (record : Record) :
    Record.ofValue? record.toValue = some record := by
  have hflags : (Value.array (record.flags.map .text)).list? Value.text? = some record.flags :=
    Value.list?_array_map fun flag _ => Value.text?_text flag
  have hdeclarations : (Value.array (record.declarations.toList.map declarationValue)).list?
      declarationOfValue? = some record.declarations.toList :=
    Value.list?_array_map fun location _ => declarationOfValue?_declarationValue location
  have hdefinitions : (Value.array (record.definitions.toList.map DefinitionEntry.toValue)).list?
      DefinitionEntry.ofValue? = some record.definitions.toList :=
    Value.list?_array_map fun entry _ => DefinitionEntry.ofValue?_toValue entry
  have hreferences : (Value.array (record.references.toList.map ReferenceEntry.toValue)).list?
      ReferenceEntry.ofValue? = some record.references.toList :=
    Value.list?_array_map fun entry _ => ReferenceEntry.ofValue?_toValue entry
  have hheaders : (Value.array (record.headers.toList.map HeaderEntry.toValue)).list?
      HeaderEntry.ofValue? = some record.headers.toList :=
    Value.list?_array_map fun entry _ => HeaderEntry.ofValue?_toValue entry
  simp [Record.ofValue?, Record.toValue, Value.fields?_array, Record.fieldNames, Value.bytes?,
    hflags, hdeclarations, hdefinitions, hreferences, hheaders]

/-! ## The sizes of a record -/

namespace Record

/-- The texts of a record. -/
def texts (record : Record) : List String :=
  record.path :: record.flags ++ record.declarations.toList.map (fun location => location.file) ++
    record.definitions.toList.flatMap (fun entry => [entry.location.file, entry.definition.file]) ++
    record.references.toList.flatMap (fun entry => [entry.location.file, entry.referenced.file]) ++
    record.headers.toList.flatMap (fun entry => [entry.spelling, entry.includedFile])

/-- The sizes of a record fit the format: texts, lists and the saved tree can be
counted in a size. -/
structure Fits (record : Record) : Prop where
  texts : ∀ text ∈ record.texts, ShortText text
  flags : record.flags.length < sizeLimit
  declarations : record.declarations.size < sizeLimit
  definitions : record.definitions.size < sizeLimit
  references : record.references.size < sizeLimit
  headers : record.headers.size < sizeLimit
  savedTree : record.savedTree.length < sizeLimit

instance (record : Record) : Decidable record.Fits :=
  decidable_of_iff
    ((∀ text ∈ record.texts, ShortText text) ∧ record.flags.length < sizeLimit ∧
      record.declarations.size < sizeLimit ∧ record.definitions.size < sizeLimit ∧
      record.references.size < sizeLimit ∧ record.headers.size < sizeLimit ∧
      record.savedTree.length < sizeLimit)
    ⟨fun ⟨h₁, h₂, h₃, h₄, h₅, h₆, h₇⟩ => ⟨h₁, h₂, h₃, h₄, h₅, h₆, h₇⟩,
      fun ⟨h₁, h₂, h₃, h₄, h₅, h₆, h₇⟩ => ⟨h₁, h₂, h₃, h₄, h₅, h₆, h₇⟩⟩

end Record

theorem portable_declarationValue (depth : Nat) {location : Location}
    (hfile : ShortText location.file) : (declarationValue location).Portable (depth + 3) := by
  refine .array (by simp [sizeLimit]) ?_
  intro value hvalue
  rw [List.mem_singleton.mp hvalue]
  exact Location.portable_toValue depth hfile

theorem DefinitionEntry.portable_toValue (depth : Nat) {entry : DefinitionEntry}
    (hfile : ShortText entry.location.file) (htarget : ShortText entry.definition.file) :
    entry.toValue.Portable (depth + 3) := by
  refine .array (by simp [sizeLimit]) ?_
  intro value hvalue
  simp only [List.mem_cons, List.not_mem_nil, or_false] at hvalue
  rcases hvalue with rfl | rfl
  · exact Location.portable_toValue depth hfile
  · exact Location.portable_toValue depth htarget

theorem ReferenceEntry.portable_toValue (depth : Nat) {entry : ReferenceEntry}
    (hfile : ShortText entry.location.file) (htarget : ShortText entry.referenced.file) :
    entry.toValue.Portable (depth + 3) := by
  refine .array (by simp [sizeLimit]) ?_
  intro value hvalue
  simp only [List.mem_cons, List.not_mem_nil, or_false] at hvalue
  rcases hvalue with rfl | rfl | rfl
  · exact Location.portable_toValue depth hfile
  · exact Location.portable_toValue depth htarget
  · exact .bool (depth + 1) entry.isCall

theorem HeaderEntry.portable_toValue (depth : Nat) {entry : HeaderEntry}
    (hspelling : ShortText entry.spelling) (hfile : ShortText entry.includedFile) :
    entry.toValue.Portable (depth + 2) := by
  refine .array (by simp [sizeLimit]) ?_
  intro value hvalue
  simp only [List.mem_cons, List.not_mem_nil, or_false] at hvalue
  rcases hvalue with rfl | rfl
  · exact .text depth hspelling
  · exact .text depth hfile

namespace Record

theorem portable_toValue (depth : Nat) {record : Record} (hfits : record.Fits) :
    record.toValue.Portable (depth + 5) := by
  refine .array (by simp [sizeLimit]) ?_
  intro value hvalue
  simp only [List.mem_cons, List.not_mem_nil, or_false] at hvalue
  rcases hvalue with rfl | rfl | rfl | rfl | rfl | rfl | rfl
  · exact .text (depth + 3) (hfits.texts _ (by simp [texts]))
  · refine .list hfits.flags fun flag hflag => .text (depth + 2) (hfits.texts flag ?_)
    simp [texts, hflag]
  · refine .list (by simpa using hfits.declarations) fun location hlocation => ?_
    refine portable_declarationValue depth (hfits.texts _ ?_)
    simp only [texts, List.mem_append, List.mem_map]
    exact .inl (.inl (.inl (.inr ⟨location, hlocation, rfl⟩)))
  · refine .list (by simpa using hfits.definitions) fun entry hentry => ?_
    have hmem : ∀ text ∈ [entry.location.file, entry.definition.file], text ∈ record.texts := by
      intro text htext
      simp only [texts, List.mem_append, List.mem_flatMap]
      exact .inl (.inl (.inr ⟨entry, hentry, htext⟩))
    exact DefinitionEntry.portable_toValue depth (hfits.texts _ (hmem _ (by simp)))
      (hfits.texts _ (hmem _ (by simp)))
  · refine .list (by simpa using hfits.references) fun entry hentry => ?_
    have hmem : ∀ text ∈ [entry.location.file, entry.referenced.file], text ∈ record.texts := by
      intro text htext
      simp only [texts, List.mem_append, List.mem_flatMap]
      exact .inl (.inr ⟨entry, hentry, htext⟩)
    exact ReferenceEntry.portable_toValue depth (hfits.texts _ (hmem _ (by simp)))
      (hfits.texts _ (hmem _ (by simp)))
  · refine .list (by simpa using hfits.headers) fun entry hentry => ?_
    have hmem : ∀ text ∈ [entry.spelling, entry.includedFile], text ∈ record.texts := by
      intro text htext
      simp only [texts, List.mem_append, List.mem_flatMap]
      exact .inr ⟨entry, hentry, htext⟩
    exact HeaderEntry.portable_toValue (depth + 1) (hfits.texts _ (hmem _ (by simp)))
      (hfits.texts _ (hmem _ (by simp)))
  · exact .bin (depth + 3) hfits.savedTree

/-! ## The stored form -/

theorem ofBytes_toBytes_append {record : Record} (hfits : record.Fits) (rest : Bytes) :
    ofBytes (record.toBytes ++ rest) = .ok record := by
  have hdecode : Wire.decode (record.toValue.write ++ rest) = some record.toValue :=
    Wire.decode_write_append (portable_toValue 1019 hfits) rest
  rw [ofBytes, toBytes, Wire.Envelope.unwrap_wrap_append]
  simp [hdecode, ofValue?_toValue]

/-- **Stored records are read back.**  A record that fits the format is read back
from its stored form, whatever bytes follow, and no other record that fits the
format has the same stored form. -/
theorem stored_roundtrip (record : Record) (hfits : record.Fits) :
    (∀ rest, ofBytes (record.toBytes ++ rest) = .ok record) ∧
      ∀ other : Record, other.Fits → other.toBytes = record.toBytes → other = record := by
  refine ⟨ofBytes_toBytes_append hfits, ?_⟩
  intro other hother hbytes
  have hread := ofBytes_toBytes_append hother []
  rw [hbytes, ofBytes_toBytes_append hfits [], Except.ok.injEq] at hread
  exact hread.symm

/-- A record whose numbers and texts lie on both sides of the widths of their
forms. -/
def widthSample : Record where
  path := "/source/with/a/name/of/thirty/two"
  flags := ["", "-I", "/source/with/a/name/of/thirty1"]
  declarations := #[{ file := "a.c", line := 127, column := 128, offset := 255 }]
  definitions := #[⟨{ file := "a.c", line := 256 }, { file := "b.c", offset := 65535 }⟩]
  references := #[⟨{ file := "a.c", offset := 65536 }, .nowhere, true⟩]
  headers := #[⟨"stdio.h", ""⟩]
  savedTree := [0xc1, 0, 0xff]

theorem stored_roundtrip_widthSample :
    widthSample.Fits ∧ (∀ rest, ofBytes (widthSample.toBytes ++ rest) = .ok widthSample) ∧
      ∀ other : Record, other.Fits → other.toBytes = widthSample.toBytes →
        other = widthSample := by
  have hfits : widthSample.Fits := by decide
  exact ⟨hfits, stored_roundtrip widthSample hfits⟩

end Record
end SourceIndex
