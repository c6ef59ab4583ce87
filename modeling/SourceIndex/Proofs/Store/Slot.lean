import SourceIndex.Store.Basic

/-!
# What a store has under a key

The slot of a key is the list of its entries, or nothing if the table of entries is
missing.  A lookup reads one slot, and a write replaces one slot and leaves the
others alone, if there is a row for the new entry at all (`Store.put_eq_ok_iff`).

A slot does NOT show where its entries stand among those of other keys, which is
what the order of the writes decides.
-/

namespace SourceIndex

/-- A row is as large as the value in it. -/
theorem StoreEntry.length_value_le {entry : StoreEntry} (hfits : entry.fits = true) :
    entry.value.length ≤ rowLimit := by
  have hrow : entry.rowSize ≤ rowLimit := of_decide_eq_true hfits
  have hvalue : entry.value.length ≤ entry.rowSize := by
    simp only [rowSize]
    omega
  exact Nat.le_trans hvalue hrow

namespace Store

/-- The entries under a key. -/
def slot (store : Store) (key : CacheKey) : Option (List StoreEntry) :=
  store.entries.map fun entries => entries.filter fun entry => entry.key == key

theorem has_eq_slot (store : Store) (key : CacheKey) :
    store.has key =
      match store.slot key with
      | none => .error .noTable
      | some found => .ok !found.isEmpty := by
  unfold has slot
  cases store.entries with
  | none => rfl
  | some entries =>
      have hany : (entries.any fun entry => entry.key == key) =
          !(entries.filter fun entry => entry.key == key).isEmpty := by
        rw [Bool.eq_iff_iff]
        simp
      exact congrArg Except.ok hany

theorem get_eq_slot (store : Store) (key : CacheKey) :
    store.get key =
      match store.slot key with
      | none => .error .noTable
      | some [] => .error (.notFound key)
      | some (entry :: _) => .ok entry.value := by
  unfold get slot
  cases store.entries with
  | none => rfl
  | some entries =>
      dsimp only [Option.map_some]
      rw [← List.head?_filter]
      cases entries.filter fun entry => entry.key == key <;> rfl

section
variable {store after : Store} {entries : List StoreEntry} {entry : StoreEntry}

theorem put_of_fits (hentries : store.entries = some entries) (hfits : entry.fits = true) :
    store.put entry.key entry.path entry.value entry.indexedAt =
      .ok { store with
        entries := some ((entries.filter fun other => other.key != entry.key) ++ [entry]) } := by
  unfold put
  rw [hentries]
  exact if_pos hfits

/-- No store takes an entry for which there is no row. -/
theorem put_of_not_fits (hfits : entry.fits = false) (store : Store) :
    store.put entry.key entry.path entry.value entry.indexedAt = .error .tooLarge := by
  unfold put
  cases store.entries with
  | none => rfl
  | some entries => exact if_neg (Bool.not_eq_true _ ▸ hfits)

/-- A write is possible if there is a table of entries and a row for the new one. -/
theorem put_eq_ok_iff {key : CacheKey} {path : String} {value : Bytes} {now : Int} :
    store.put key path value now = .ok after ↔
      ∃ entries, store.entries = some entries ∧
        StoreEntry.fits { key, path, value, indexedAt := now } = true ∧
        after = { store with
          entries := some ((entries.filter fun other => other.key != key) ++
            [{ key, path, value, indexedAt := now }]) } := by
  refine ⟨fun hput => ?_, ?_⟩
  · cases hfits : StoreEntry.fits { key, path, value, indexedAt := now } with
    | false => cases (put_of_not_fits hfits store).symm.trans hput
    | true =>
        cases hentries : store.entries with
        | none => simp [put, hentries] at hput
        | some entries =>
            exact ⟨entries, rfl, rfl,
              (Except.ok.inj ((put_of_fits hentries hfits).symm.trans hput)).symm⟩
  · rintro ⟨entries, hentries, hfits, rfl⟩
    have hput := put_of_fits hentries hfits
    exact hput

theorem exists_put_iff (hentries : store.entries = some entries) (entry : StoreEntry) :
    (∃ after, store.put entry.key entry.path entry.value entry.indexedAt = .ok after) ↔
      entry.fits = true := by
  simp [put_eq_ok_iff, hentries]

end

theorem put_eq_slot (store : Store) (key : CacheKey) (path : String) (value : Bytes) (now : Int) :
    (store.put key path value now).map (slot · key) =
      match store.slot key with
      | none => .error .noTable
      | some _ =>
        if StoreEntry.fits { key, path, value, indexedAt := now } then
          .ok (some [{ key, path, value, indexedAt := now }])
        else .error .tooLarge := by
  unfold put slot
  cases store.entries with
  | none => rfl
  | some entries =>
      dsimp only [Option.map_some]
      split
      · simp [Except.map, List.filter_append, List.filter_filter]
      · rfl

theorem slot_put_of_ne {store after : Store} {key other : CacheKey} {path : String}
    {value : Bytes} {now : Int} (hput : store.put key path value now = .ok after)
    (hother : other ≠ key) : after.slot other = store.slot other := by
  obtain ⟨entries, hentries, -, rfl⟩ := put_eq_ok_iff.mp hput
  have hnew : (key == other) = false := by simpa using hother.symm
  have hkept : ∀ entry : StoreEntry, (entry.key == other && entry.key != key) =
      (entry.key == other) := by
    intro entry
    by_cases hentry : entry.key = other
    · simp [hentry, hother]
    · simp [hentry]
  simp [slot, hentries, List.filter_append, List.filter_filter, hnew, hkept]

/-- A write adds one entry and leaves the strategy of the keys. -/
theorem mem_of_put {store after : Store} {key : CacheKey} {path : String} {value : Bytes}
    {now : Int} (hput : store.put key path value now = .ok after) :
    after.strategyName = store.strategyName ∧ ∀ entry ∈ after.entries.getD [],
      entry ∈ store.entries.getD [] ∨ entry = { key, path, value, indexedAt := now } := by
  obtain ⟨entries, hentries, -, rfl⟩ := put_eq_ok_iff.mp hput
  refine ⟨rfl, fun entry hentry => ?_⟩
  rcases List.mem_append.mp hentry with hkept | hnew
  · rw [hentries]
    exact .inl (List.mem_filter.mp hkept).1
  · exact .inr (List.mem_singleton.mp hnew)

/-- A value that was written is found. -/
theorem get_of_put {store after : Store} {key : CacheKey} {path : String} {value : Bytes}
    {now : Int} (hput : store.put key path value now = .ok after) :
    after.get key = .ok value := by
  obtain ⟨entries, -, -, rfl⟩ := put_eq_ok_iff.mp hput
  have hslot : Store.slot { store with
      entries := some ((entries.filter fun entry => entry.key != key) ++
        [{ key, path, value, indexedAt := now }]) } key =
      some [{ key, path, value, indexedAt := now }] := by
    simp [slot, List.filter_append, List.filter_filter]
  rw [get_eq_slot, hslot]

theorem has_of_get {store : Store} {key : CacheKey} {value : Bytes}
    (hget : store.get key = .ok value) : store.has key = .ok true := by
  rw [get_eq_slot] at hget
  rw [has_eq_slot]
  split at hget
  · cases hget
  · cases hget
  next entry rest hslot => rw [hslot]; rfl

end Store
end SourceIndex
