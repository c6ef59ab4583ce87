import Mathlib.Data.List.Induction
import SourceIndex.Proofs.Store.Slot

/-!
# The most recent entry of a path

Entries are put under keys and found by paths.  After a run of puts a store has those that it
took and that were not overwritten (`Store.lasting`), in the order in which they were put
(`Store.putAll_of_lasting`), and `Store.findByPath` goes by the times that they carry.

With a clock that does not go back, the entry found is as recent as the one put last, to the
second (`Store.findByPath_of_puts`).  It is NOT always the one put last: within one second the
first put of a path wins (`Store.last_put_not_found`).
-/

namespace SourceIndex

/-! ## Keys as they are shown -/

namespace Bytes

/-- The digits of `Bytes.toHex`. -/
def hexDigits : List Char :=
  "0123456789abcdef".toList

theorem hexValue?_hexDigit {value : Nat} (hvalue : value < 16) :
    hexValue? (hexDigit value) = some value := by
  revert value
  decide

theorem hexDigit_mem {value : Nat} (hvalue : value < 16) : hexDigit value ∈ hexDigits := by
  revert value
  decide

theorem div_sixteen_lt (byte : UInt8) : byte.toNat / 16 < 16 := by
  have hbyte : byte.toNat < 256 := byte.toNat_lt
  omega

theorem mod_sixteen_lt (byte : UInt8) : byte.toNat % 16 < 16 :=
  Nat.mod_lt _ (by decide)

theorem ofHexDigits?_flatMap (collected bytes : Bytes) :
    ofHexDigits? collected
        (bytes.flatMap fun b => [hexDigit (b.toNat / 16), hexDigit (b.toNat % 16)]) =
      some (collected.reverse ++ bytes) := by
  induction bytes generalizing collected with
  | nil => simp [ofHexDigits?]
  | cons byte rest ih =>
      have hbyte : UInt8.ofNat (16 * (byte.toNat / 16) + byte.toNat % 16) = byte := by
        rw [Nat.div_add_mod, UInt8.ofNat_toNat]
      rw [List.flatMap_cons, List.cons_append, List.cons_append, List.nil_append, ofHexDigits?,
        hexValue?_hexDigit (div_sixteen_lt byte), hexValue?_hexDigit (mod_sixteen_lt byte)]
      dsimp only
      rw [hbyte, ih, List.reverse_cons, List.append_assoc, List.singleton_append]

/-- Bytes can be read again from their digits. -/
theorem ofHex?_toHex (bytes : Bytes) : ofHex? (toHex bytes) = some bytes := by
  rw [ofHex?, toHex, String.toList_ofList, ofHexDigits?_flatMap]
  rfl

theorem mem_hexDigits_of_mem_toHex {bytes : Bytes} {c : Char} (hc : c ∈ (toHex bytes).toList) :
    c ∈ hexDigits := by
  rw [toHex, String.toList_ofList, List.mem_flatMap] at hc
  obtain ⟨byte, -, hdigit⟩ := hc
  simp only [List.mem_cons, List.not_mem_nil, or_false] at hdigit
  rcases hdigit with rfl | rfl
  · exact hexDigit_mem (div_sixteen_lt byte)
  · exact hexDigit_mem (mod_sixteen_lt byte)

end Bytes

namespace Store

/-! ## What a run of puts leaves -/

/-- Puts entries one after the other.  A put that is refused leaves the store as it is. -/
def putAll (store : Store) (puts : List StoreEntry) : Store :=
  puts.foldl (fun store entry =>
    (store.put entry.key entry.path entry.value entry.indexedAt).toOption.getD store) store

/-- A put is taken and not overwritten by a later one. -/
def lasts (entry : StoreEntry) (later : List StoreEntry) : Bool :=
  entry.fits && !later.any fun other => other.fits && other.key == entry.key

/-- The puts that are taken and not overwritten. -/
def lasting : List StoreEntry → List StoreEntry
  | [] => []
  | entry :: later => if lasts entry later then entry :: lasting later else lasting later

theorem lasting_sublist (puts : List StoreEntry) : (lasting puts).Sublist puts := by
  induction puts with
  | nil => exact List.Sublist.slnil
  | cons entry later ih =>
      rw [lasting]
      split
      · exact ih.cons_cons entry
      · exact ih.cons entry

/-- One more put that is taken overwrites what is under its key. -/
theorem lasting_concat {entry : StoreEntry} (hfits : entry.fits = true) (puts : List StoreEntry) :
    lasting (puts ++ [entry]) =
      (lasting puts).filter (fun other => other.key != entry.key) ++ [entry] := by
  induction puts with
  | nil => simp [lasting, lasts, hfits]
  | cons first rest ih =>
      have hlasts : lasts first (rest ++ [entry]) =
          (lasts first rest && first.key != entry.key) := by
        simp [lasts, hfits, Bool.and_assoc, bne, BEq.comm]
      rw [List.cons_append, lasting, lasting, ih, hlasts]
      cases lasts first rest with
      | false => simp
      | true => by_cases hkey : first.key = entry.key <;> simp [hkey]

/-- One that is refused overwrites nothing. -/
theorem lasting_concat_of_not_fits {entry : StoreEntry} (hfits : entry.fits = false)
    (puts : List StoreEntry) : lasting (puts ++ [entry]) = lasting puts := by
  induction puts with
  | nil => simp [lasting, lasts, hfits]
  | cons first rest ih => simp [lasting, lasts, ih, hfits]

/-- A put leaves what lasts, whether it is taken or refused. -/
theorem put_of_lasting {store : Store} {before : List StoreEntry}
    (hentries : store.entries = some (lasting before)) (entry : StoreEntry) :
    (store.put entry.key entry.path entry.value entry.indexedAt).toOption.getD store =
      { store with entries := some (lasting (before ++ [entry])) } := by
  cases hfits : entry.fits with
  | true =>
      rw [put_of_fits hentries hfits, lasting_concat hfits]
      rfl
  | false =>
      rw [put_of_not_fits hfits, lasting_concat_of_not_fits hfits, ← hentries]
      rfl

/-- So does a run of puts. -/
theorem putAll_of_lasting {store : Store} {before : List StoreEntry}
    (hentries : store.entries = some (lasting before)) (puts : List StoreEntry) :
    store.putAll puts = { store with entries := some (lasting (before ++ puts)) } := by
  induction puts generalizing store before with
  | nil =>
      rw [List.append_nil, ← hentries]
      rfl
  | cons entry rest ih =>
      rw [putAll, List.foldl_cons, put_of_lasting hentries]
      have hrest := @ih { store with entries := some (lasting (before ++ [entry])) }
        (before ++ [entry]) rfl
      rw [List.append_assoc, List.singleton_append] at hrest
      exact hrest

theorem putAll_fresh (puts : List StoreEntry) :
    fresh.putAll puts = { fresh with entries := some (lasting puts) } :=
  @putAll_of_lasting fresh [] rfl puts

/-! ## The entry that is found -/

/-- The times of entries do not go back. -/
def Ascending (entries : List StoreEntry) : Prop :=
  entries.Pairwise fun one next => one.indexedAt ≤ next.indexedAt

instance (entries : List StoreEntry) : Decidable (Ascending entries) :=
  inferInstanceAs (Decidable (entries.Pairwise fun one next => one.indexedAt ≤ next.indexedAt))

/-- The first entry of the last time. -/
def firstOfLast? (entries : List StoreEntry) : Option StoreEntry :=
  entries.getLast?.bind fun last => entries.find? fun entry => entry.indexedAt == last.indexedAt

theorem Ascending.le_last {entries : List StoreEntry} {last : StoreEntry}
    (hascending : Ascending entries) (hlast : entries.getLast? = some last) :
    ∀ entry ∈ entries, entry.indexedAt ≤ last.indexedAt := by
  obtain ⟨front, rfl⟩ := List.getLast?_eq_some_iff.mp hlast
  intro entry hentry
  rcases List.mem_append.mp hentry with hfront | hself
  · exact (List.pairwise_append.mp hascending).2.2 entry hfront last (by simp)
  · exact Int.le_of_eq (congrArg StoreEntry.indexedAt (List.mem_singleton.mp hself))

theorem exists_firstOfLast? {entries : List StoreEntry} {last : StoreEntry}
    (hlast : entries.getLast? = some last) :
    ∃ entry, firstOfLast? entries = some entry ∧ entry.indexedAt = last.indexedAt := by
  have hsome : (entries.find? fun entry => entry.indexedAt == last.indexedAt).isSome := by
    rw [List.find?_isSome]
    exact ⟨last, List.mem_of_getLast? hlast, beq_self_eq_true _⟩
  obtain ⟨entry, hentry⟩ := Option.isSome_iff_exists.mp hsome
  refine ⟨entry, by rw [firstOfLast?, hlast, Option.bind_some, hentry], ?_⟩
  simpa using List.find?_some hentry

theorem firstOfLast?_eq_none_iff {entries : List StoreEntry} :
    firstOfLast? entries = none ↔ entries = [] := by
  cases hlast : entries.getLast? with
  | none =>
      obtain rfl : entries = [] := List.getLast?_eq_none_iff.mp hlast
      exact ⟨fun _ => rfl, fun _ => rfl⟩
  | some last =>
      obtain ⟨entry, hentry, -⟩ := exists_firstOfLast? hlast
      have hne : entries ≠ [] := List.ne_nil_of_mem (List.mem_of_getLast? hlast)
      simp [hentry, hne]

/-- One more entry is the first of its time, or of the time of the one before. -/
theorem later_firstOfLast? {entries : List StoreEntry} {entry : StoreEntry}
    (hascending : Ascending (entries ++ [entry])) :
    later (firstOfLast? entries) entry = firstOfLast? (entries ++ [entry]) := by
  obtain ⟨hbefore, -, hafter⟩ := List.pairwise_append.mp hascending
  rw [firstOfLast?.eq_def (entries ++ [entry]), List.getLast?_concat, Option.bind_some,
    List.find?_append]
  cases hlast : entries.getLast? with
  | none =>
      obtain rfl : entries = [] := List.getLast?_eq_none_iff.mp hlast
      simp [firstOfLast?, later]
  | some last =>
      obtain ⟨best, hbest, htime⟩ := exists_firstOfLast? hlast
      have hle : last.indexedAt ≤ entry.indexedAt :=
        hafter last (List.mem_of_getLast? hlast) entry (by simp)
      rw [hbest, later]
      by_cases hnew : best.indexedAt < entry.indexedAt
      · have hnone : (entries.find? fun other => other.indexedAt == entry.indexedAt) = none := by
          rw [List.find?_eq_none]
          intro other hother
          have hother := Ascending.le_last hbefore hlast other hother
          simp only [beq_iff_eq]
          omega
        simp [hnew, hnone]
      · have hsame : entry.indexedAt = last.indexedAt := by omega
        rw [firstOfLast?, hlast, Option.bind_some] at hbest
        rw [if_neg hnew, hsame, hbest, Option.some_or]

theorem foldl_later_of_ascending {entries : List StoreEntry} (hascending : Ascending entries) :
    entries.foldl later none = firstOfLast? entries := by
  induction entries using List.reverseRecOn with
  | nil => rfl
  | append_singleton entries entry ih =>
      have hbefore : Ascending entries := (List.pairwise_append.mp hascending).1
      rw [List.foldl_append, ih hbefore, List.foldl_cons, List.foldl_nil,
        later_firstOfLast? hascending]

/-- The puts of a path that are taken and not overwritten. -/
def lastingAt (path : String) (puts : List StoreEntry) : List StoreEntry :=
  (lasting puts).filter fun entry => entry.path == path

theorem Ascending.lastingAt {puts : List StoreEntry} (hclock : Ascending puts) (path : String) :
    Ascending (Store.lastingAt path puts) :=
  (hclock.sublist (lasting_sublist puts)).sublist List.filter_sublist

theorem mem_lastingAt {path : String} {puts : List StoreEntry} {entry : StoreEntry} :
    entry ∈ lastingAt path puts ↔ entry ∈ lasting puts ∧ entry.path = path := by
  rw [lastingAt, List.mem_filter, beq_iff_eq]

/-- Looking for a path after a run of puts does not fail, whatever is put.  What is found is the
first entry put within the second of the last one. -/
theorem findByPath_putAll {puts : List StoreEntry} (hclock : Ascending puts) (path : String) :
    (fresh.putAll puts).findByPath path = .ok (firstOfLast? (lastingAt path puts)) := by
  rw [putAll_fresh, findByPath]
  exact congrArg Except.ok (foldl_later_of_ascending (hclock.lastingAt path))

/-- **The entry that is found for a path is as recent as the one put last, to the second.**  After
any run of puts with a clock that does not go back, another put is taken exactly if there is a row
for its entry, and something is found exactly if an entry of the path was taken and not
overwritten.  It is such an entry, unchanged, and its key is shown in lower-case digits.  Of the
entries within the second of the last one it is the first, so it is the last one if there is no
other. -/
theorem findByPath_of_puts {puts : List StoreEntry} (hclock : Ascending puts) (path : String) :
    ∃ found, (fresh.putAll puts).findByPath path = .ok found ∧
      (∀ next : StoreEntry, (∃ after, (fresh.putAll puts).put next.key next.path next.value
        next.indexedAt = .ok after) ↔ next.fits = true) ∧
      (found = none ↔ ∀ entry ∈ lasting puts, entry.path ≠ path) ∧
      ∀ entry, found = some entry →
        entry ∈ lasting puts ∧ entry.path = path ∧
        (Bytes.ofHex? entry.key.toHex = some entry.key.bytes ∧
          ∀ c ∈ entry.key.toHex.toList, c ∈ Bytes.hexDigits) ∧
        ∃ last, (lastingAt path puts).getLast? = some last ∧
          (lastingAt path puts).find? (fun other => other.indexedAt == last.indexedAt) =
            some entry ∧
          ((∀ other ∈ lastingAt path puts, other.indexedAt = last.indexedAt → other = last) →
            entry = last) := by
  have htable : (fresh.putAll puts).entries = some (lasting puts) := by rw [putAll_fresh]
  refine ⟨_, findByPath_putAll hclock path, exists_put_iff htable, ?_, fun entry hentry => ?_⟩
  · rw [firstOfLast?_eq_none_iff, lastingAt, List.filter_eq_nil_iff]
    simp only [beq_iff_eq, ne_eq]
  · obtain ⟨last, hlast, hfirst⟩ := Option.bind_eq_some_iff.mp hentry
    have hmem := List.mem_of_find?_eq_some hfirst
    have htime : entry.indexedAt = last.indexedAt := by simpa using List.find?_some hfirst
    obtain ⟨hlasting, hpath⟩ := mem_lastingAt.mp hmem
    exact ⟨hlasting, hpath, ⟨Bytes.ofHex?_toHex _, fun c => Bytes.mem_hexDigits_of_mem_toHex⟩,
      last, hlast, hfirst, fun honly => honly entry hmem htime⟩

/-- An entry, the second of a path in its second, that is moved to another path, and another one
of the path. -/
def movedSample : List StoreEntry :=
  [{ key := ⟨[1]⟩, path := "a.c", value := [1], indexedAt := 50 },
    { key := ⟨[2]⟩, path := "a.c", value := [2], indexedAt := 50 },
    { key := ⟨[2]⟩, path := "b.c", value := [3], indexedAt := 51 },
    { key := ⟨[3]⟩, path := "a.c", value := [4], indexedAt := 51 }]

theorem findByPath_of_puts_movedSample :
    ∃ entry, (fresh.putAll movedSample).findByPath "a.c" = .ok (some entry) ∧
      entry.value = [4] ∧ entry.key.toHex = "03" := by
  obtain ⟨found, hfind, -, hnone, hfound⟩ :=
    @findByPath_of_puts movedSample (by decide) "a.c"
  have hsome : found ≠ none := by
    intro hmissing
    exact absurd (hnone.mp hmissing) (by decide)
  obtain ⟨entry, rfl⟩ := Option.ne_none_iff_exists'.mp hsome
  obtain ⟨-, -, -, last, hlast, -, honly⟩ := hfound entry rfl
  cases hlast
  obtain rfl := honly (by decide)
  exact ⟨_, hfind, rfl, by decide⟩

/-- Two entries of one path, put within a second. -/
def tieSample : List StoreEntry :=
  [{ key := ⟨[1]⟩, path := "a.c", value := [1], indexedAt := 50 },
    { key := ⟨[2]⟩, path := "a.c", value := [2], indexedAt := 50 }]

/-- The entry put last is NOT always found: of two within a second, it is the first. -/
theorem last_put_not_found :
    ¬∀ (puts : List StoreEntry) (path : String) (last : StoreEntry),
      Ascending puts → (lastingAt path puts).getLast? = some last →
      (fresh.putAll puts).findByPath path = .ok (some last) := by
  intro hlast
  have hfound := hlast tieSample "a.c" _ (by decide) rfl
  rw [@findByPath_putAll tieSample (by decide) "a.c"] at hfound
  exact absurd hfound (by decide)

end Store
end SourceIndex
