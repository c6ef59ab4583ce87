import SourceIndex.Proofs.Wire.Shape

/-!
# Cut values are not read

A reader decides by the bytes that it takes.  If it has an answer for some bytes,
it has the same answer when more bytes follow, and exactly those are left over
(`Reader.Stable`).  Every reader of the format is stable, whatever form it meets:
this is NOT limited to the forms that are written.

So a value that was written and then cut is not read at all: an answer for the
part would be an answer for the whole, with bytes left over, but the whole is read
to its end (`Value.read_eq_none_of_cut`).
-/

namespace SourceIndex
namespace Wire

/-- Bytes behind those that a reader takes change nothing but what is left over. -/
def Reader.Stable {α : Type} (reader : Reader α) : Prop :=
  ∀ ⦃bytes rest : Bytes⦄ ⦃value : α⦄, reader bytes = some (value, rest) →
    ∀ more : Bytes, reader (bytes ++ more) = some (value, rest ++ more)

namespace Reader.Stable

/-- Changing what was read does not change what is left. -/
theorem map {α β : Type} {reader : Reader α} (hstable : reader.Stable) (form : α → β) :
    Reader.Stable fun bytes => (reader bytes).map fun found => (form found.1, found.2) := by
  intro bytes rest value hread more
  obtain ⟨⟨found, left⟩, hfound, hform⟩ := Option.map_eq_some_iff.mp hread
  obtain ⟨rfl, rfl⟩ := Prod.mk.inj hform
  simp [hstable hfound more]

/-- A reader that goes on with what an earlier one has read. -/
theorem andThen {α β : Type} {first : Reader α} (hfirst : first.Stable)
    {next : α → Reader β} (hnext : ∀ found, (next found).Stable) {reader : Reader β}
    (hnone : ∀ bytes, first bytes = none → reader bytes = none)
    (hsome : ∀ bytes found left, first bytes = some (found, left) →
      reader bytes = next found left) : reader.Stable := by
  intro bytes rest value hread more
  cases hfound : first bytes with
  | none =>
      rw [hnone bytes hfound] at hread
      cases hread
  | some answer =>
      obtain ⟨found, left⟩ := answer
      rw [hsome bytes found left hfound] at hread
      rw [hsome (bytes ++ more) found (left ++ more) (hfirst hfound more)]
      exact hnext found hread more

end Reader.Stable

/-! ## Readers of the format -/

theorem readBytes_stable (count : Nat) : (readBytes count).Stable := by
  intro bytes rest value hread more
  unfold readBytes at hread ⊢
  rw [List.splitAt_eq] at hread ⊢
  dsimp only at hread ⊢
  split at hread
  next htaken =>
    have hcount : count ≤ bytes.length := by
      rw [List.length_take] at htaken
      omega
    obtain ⟨rfl, rfl⟩ := Prod.mk.inj (Option.some.inj hread)
    rw [List.take_append_of_le_length hcount, List.drop_append_of_le_length hcount, if_pos htaken]
  next => cases hread

theorem readNat_stable (width : Nat) : (readNat width).Stable :=
  (readBytes_stable width).map Bytes.toNat

theorem readInt_stable (width : Nat) : (readInt width).Stable :=
  (readNat_stable width).map fun value =>
    if value < Nat.pow 256 width / 2 then (value : Int)
    else (value : Int) - (Nat.pow 256 width : Nat)

theorem readSized_stable {α : Type} (width : Nat) {readBody : Nat → Reader α}
    (hbody : ∀ size, (readBody size).Stable) : (readSized width readBody).Stable :=
  (readNat_stable width).andThen hbody (fun _ hnone => by simp [readSized, hnone])
    (fun _ _ _ hsome => by simp [readSized, hsome])

theorem readStr_stable (size : Nat) : (readStr size).Stable :=
  (readBytes_stable size).map Value.str

theorem readBin_stable (size : Nat) : (readBin size).Stable :=
  (readBytes_stable size).map Value.bin

theorem readExt_stable (size : Nat) : (readExt size).Stable := by
  intro bytes rest value hread more
  cases bytes with
  | nil => cases hread
  | cons tag bytes => exact (readBytes_stable size).map (Value.ext tag) hread more

theorem readMany_stable {α : Type} {readOne : Reader α} (hone : readOne.Stable) (count : Nat)
    (before : List α) : (readMany readOne count before).Stable := by
  induction count generalizing before with
  | zero =>
      intro bytes rest value hread more
      cases hread
      rfl
  | succ count ih =>
      -- one value, and then the rest with that value behind those already read
      exact hone.andThen (fun value => ih (value :: before))
        (fun _ hnone => by simp [readMany, hnone]) (fun _ _ _ hsome => by simp [readMany, hsome])

theorem readArray_stable {readItem : Reader Value} (hitem : readItem.Stable) (size : Nat) :
    (readArray readItem size).Stable :=
  (readMany_stable hitem size []).map Value.array

theorem readMap_stable {readItem : Reader Value} (hitem : readItem.Stable) (size : Nat) :
    (readMap readItem size).Stable :=
  (readMany_stable hitem (2 * size) []).map Value.map

theorem Head.readBody_stable {readItem : Reader Value} (hitem : readItem.Stable) (head : Head) :
    Reader.Stable (head.readBody readItem) := by
  cases head with
  | nil | bool _ | smallUint _ | smallSint _ =>
      intro bytes rest value hread more
      cases hread
      rfl
  | uint width => exact (readNat_stable width).map Value.uint
  | sint width => exact (readInt_stable width).map Value.sint
  | float width => exact (readBytes_stable width).map fun _ => Value.float
  | str size => exact readStr_stable size
  | strSized width => exact readSized_stable width readStr_stable
  | binSized width => exact readSized_stable width readBin_stable
  | ext size => exact readExt_stable size
  | extSized width => exact readSized_stable width readExt_stable
  | array size => exact readArray_stable hitem size
  | arraySized width => exact readSized_stable width (readArray_stable hitem)
  | map size => exact readMap_stable hitem size
  | mapSized width => exact readSized_stable width (readMap_stable hitem)
  | reserved =>
      intro bytes rest value hread
      cases hread

theorem Value.read_stable (depth : Nat) : (Value.read depth).Stable := by
  induction depth with
  | zero =>
      intro bytes rest value hread
      cases hread
  | succ depth ih =>
      intro bytes rest value hread more
      cases bytes with
      | nil => cases hread
      | cons byte bytes =>
          -- the leading byte alone tells how to go on, so it goes on in the same way
          rw [List.cons_append]
          simp only [Value.read] at hread ⊢
          split at hread
          next => cases hread
          next hlevel =>
            rw [if_neg hlevel]
            exact Head.readBody_stable ih _ hread more

/-! ## Cut values -/

/-- A value that was cut is not read. -/
theorem Value.read_eq_none_of_cut {depth : Nat} {value : Value} (hvalue : value.Portable depth)
    {cut : Bytes} (hcut : cut <+: value.write) (hless : cut ≠ value.write) :
    Value.read depth cut = none := by
  obtain ⟨more, hmore⟩ := hcut
  cases hread : Value.read depth cut with
  | none => rfl
  | some answer =>
      obtain ⟨found, rest⟩ := answer
      have hlonger : Value.read depth (cut ++ more) = some (found, rest ++ more) :=
        Value.read_stable depth hread more
      rw [hmore, Value.write, Value.read_writeBefore hvalue, Option.some.injEq] at hlonger
      -- nothing is left of the whole, so nothing was cut off
      have hnothing : more = [] :=
        (List.append_eq_nil_iff.mp (congrArg Prod.snd hlonger).symm).2
      rw [hnothing, List.append_nil] at hmore
      exact absurd hmore hless

theorem decode_eq_none_of_cut {value : Value} (hvalue : value.Portable maxDepth) {cut : Bytes}
    (hcut : cut <+: value.write) (hless : cut ≠ value.write) : decode cut = none := by
  rw [decode, Value.read_eq_none_of_cut hvalue hcut hless]
  rfl

namespace Envelope

/-- Bytes that end within the marks of a format do not carry them. -/
theorem unwrap_of_length_le (envelope : Envelope) {cut : Bytes}
    (hshort : cut.length ≤ envelope.magic.length) :
    envelope.unwrap cut = .error .badMagic := by
  unfold unwrap
  split
  next => rw [List.drop_eq_nil_of_le hshort]
  next => rfl

/-- What is left of a marked value that was cut behind its marks. -/
theorem exists_unwrap_of_cut (envelope : Envelope) {value : Value} {cut : Bytes}
    (hcut : cut <+: envelope.wrap value) (hless : cut ≠ envelope.wrap value)
    (hlong : envelope.magic.length < cut.length) :
    ∃ body, envelope.unwrap cut = .ok body ∧ body <+: value.write ∧ body ≠ value.write := by
  have hwhole : envelope.wrap value = (envelope.magic ++ [envelope.version]) ++ value.write := by
    simp [wrap]
  have hmarks : envelope.magic ++ [envelope.version] <+: cut := by
    refine List.prefix_of_prefix_length_le ⟨value.write, hwhole.symm⟩ hcut ?_
    rw [List.length_append, List.length_singleton]
    exact hlong
  obtain ⟨body, rfl⟩ := hmarks
  rw [hwhole] at hcut hless
  refine ⟨body, ?_, (List.prefix_append_right_inj _).mp hcut, fun hbody => hless (by rw [hbody])⟩
  simp [unwrap]

end Envelope
end Wire
end SourceIndex
