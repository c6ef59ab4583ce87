import Mathlib.Algebra.BigOperators.Group.Finset.Basic
import Mathlib.Order.Bounds.Basic
import SourceIndex.Proofs.Store.Reopen
import SourceIndex.Proofs.Store.Slot

/-!
# A store is a map

What an opened store answers is determined by its history: the operations that were made on it,
of which those before the last `StoreStep.clear` no longer count.  The entry of a key is the one
that was put last (`StoreStep.lastPut?`), and the numbers about the store are those of these
entries.  A put that the store refuses, because there is no row for the entry, does not count.

* `Store.Mirrors` says that the tables of a store are those of a history.
* `OpenedStore.Tracks.perform?` is the step: the tables follow the history, and no operation is
  in the way of the next.
* `OpenedStore.answers_of_history` is the whole run.

Opening a store again changes nothing about a store on disk.  A store that is on no disk
(`FileTree.passingStores`) can NOT be opened again, since it is gone when it is closed.
-/

namespace SourceIndex

/-- An operation that changes a store, or that closes it and opens it again. -/
inductive StoreStep where
  | put (entry : StoreEntry)
  | setKeyStrategy (strategy : KeyStrategy)
  | clear
  | reopen
  deriving DecidableEq, Repr

/-! ## Histories -/

namespace StoreStep

/-- The entry that an operation puts, if there is a row for it. -/
def entry? : StoreStep → Option StoreEntry
  | .put entry => if entry.fits then some entry else none
  | _ => none

/-- The strategy that an operation sets. -/
def strategy? : StoreStep → Option KeyStrategy
  | .setKeyStrategy strategy => some strategy
  | _ => none

/-- The operations since the last clear, the last one first. -/
def sinceClear (steps : List StoreStep) : List StoreStep :=
  steps.reverse.takeWhile (· ≠ .clear)

/-- The last put of a key since the last clear. -/
def lastPut? (steps : List StoreStep) (key : CacheKey) : Option StoreEntry :=
  ((sinceClear steps).filterMap entry?).find? (·.key = key)

/-- The strategy that was set last since the last clear. -/
def lastStrategy? (steps : List StoreStep) : Option KeyStrategy :=
  ((sinceClear steps).filterMap strategy?).head?

/-- The keys that were put since the last clear. -/
def keys (steps : List StoreStep) : Finset CacheKey :=
  (((sinceClear steps).filterMap entry?).map (·.key)).toFinset

/-- The length of the value that was put last under a key. -/
def lastSize (steps : List StoreStep) (key : CacheKey) : Nat :=
  (lastPut? steps key).elim 0 (·.value.length)

/-- The times of the last puts of all keys. -/
def lastTimes (steps : List StoreStep) : Set Int :=
  {time | ∃ key entry, lastPut? steps key = some entry ∧ entry.indexedAt = time}

theorem mem_keys_iff {steps : List StoreStep} {key : CacheKey} :
    key ∈ keys steps ↔ ∃ entry, lastPut? steps key = some entry := by
  rw [← Option.isSome_iff_exists, lastPut?, List.find?_isSome]
  simp [keys]

theorem sinceClear_concat (steps : List StoreStep) (step : StoreStep) :
    sinceClear (steps ++ [step]) = if step = .clear then [] else step :: sinceClear steps := by
  rw [sinceClear, List.reverse_concat, List.takeWhile_cons]
  by_cases hclear : step = .clear <;> simp [hclear, sinceClear]

theorem lastPut?_put {entry : StoreEntry} (hfits : entry.fits = true) (steps : List StoreStep)
    (key : CacheKey) :
    lastPut? (steps ++ [.put entry]) key =
      if entry.key = key then some entry else lastPut? steps key := by
  have hentry : entry? (.put entry) = some entry := if_pos hfits
  rw [lastPut?, sinceClear_concat, if_neg nofun, List.filterMap_cons_some hentry, List.find?_cons]
  by_cases hkey : entry.key = key <;> simp [hkey, lastPut?]

theorem lastPut?_of_none (steps : List StoreStep) (step : StoreStep) (hclear : step ≠ .clear)
    (hentry : step.entry? = none) : lastPut? (steps ++ [step]) = lastPut? steps := by
  funext key
  rw [lastPut?, sinceClear_concat, if_neg hclear, List.filterMap_cons_none hentry, lastPut?]

theorem lastStrategy?_setKeyStrategy (steps : List StoreStep) (strategy : KeyStrategy) :
    lastStrategy? (steps ++ [.setKeyStrategy strategy]) = some strategy := by
  rw [lastStrategy?, sinceClear_concat]
  rfl

theorem lastStrategy?_of_none (steps : List StoreStep) (step : StoreStep)
    (hclear : step ≠ .clear) (hstrategy : step.strategy? = none) :
    lastStrategy? (steps ++ [step]) = lastStrategy? steps := by
  rw [lastStrategy?, sinceClear_concat, if_neg hclear, List.filterMap_cons_none hstrategy,
    lastStrategy?]

theorem sinceClear_clear (steps : List StoreStep) : sinceClear (steps ++ [.clear]) = [] := by
  rw [sinceClear_concat, if_pos rfl]

end StoreStep

/-! ## Tables -/

open StoreStep (lastPut? lastStrategy? lastSize lastTimes)

/-- The tables of a store are those of a history. -/
structure Store.Mirrors (store : Store) (steps : List StoreStep) : Prop where
  versions : store.versions = some [layoutVersion]
  strategyName : store.strategyName = some ((lastStrategy? steps).map KeyStrategy.name)
  entries : ∃ entries, store.entries = some entries ∧ (entries.map (·.key)).Nodup ∧
    ∀ key entry, lastPut? steps key = some entry ↔ entry ∈ entries ∧ entry.key = key

namespace Store.Mirrors

variable {store : Store} {steps : List StoreStep}

/-- A store is empty at first, and after it was cleared. -/
theorem of_sinceClear (hnone : StoreStep.sinceClear steps = []) : Store.fresh.Mirrors steps where
  versions := rfl
  strategyName := by
    rw [lastStrategy?, hnone]
    rfl
  entries := by
    refine ⟨[], rfl, List.nodup_nil, fun key entry => ?_⟩
    rw [lastPut?, hnone]
    simp

/-- An operation that puts nothing and sets nothing leaves the tables as they are. -/
theorem of_none (hmirrors : store.Mirrors steps) {step : StoreStep} (hclear : step ≠ .clear)
    (hentry : step.entry? = none) (hstrategy : step.strategy? = none) :
    store.Mirrors (steps ++ [step]) where
  versions := hmirrors.versions
  strategyName := by
    rw [StoreStep.lastStrategy?_of_none steps step hclear hstrategy]
    exact hmirrors.strategyName
  entries := by
    rw [StoreStep.lastPut?_of_none steps step hclear hentry]
    exact hmirrors.entries

theorem exists_put_iff (hmirrors : store.Mirrors steps) (entry : StoreEntry) :
    (∃ after, store.put entry.key entry.path entry.value entry.indexedAt = .ok after) ↔
      entry.fits = true := by
  obtain ⟨-, -, entries, hentries, -⟩ := hmirrors
  exact Store.exists_put_iff hentries entry

theorem put (hmirrors : store.Mirrors steps) {entry : StoreEntry} (hfits : entry.fits = true) :
    ∃ after, store.put entry.key entry.path entry.value entry.indexedAt = .ok after ∧
      after.Mirrors (steps ++ [.put entry]) := by
  obtain ⟨hversions, hstrategy, entries, hentries, hkeys, hlast⟩ := hmirrors
  refine ⟨_, Store.put_of_fits hentries hfits, hversions, ?_, _, rfl, ?_, fun key other => ?_⟩
  · rw [StoreStep.lastStrategy?_of_none steps (.put entry) nofun rfl]
    exact hstrategy
  · -- the keys that are kept are other keys
    rw [List.map_append, List.map_singleton, List.nodup_append]
    refine ⟨hkeys.sublist (List.filter_sublist.map _), List.nodup_singleton _, ?_⟩
    intro key hkey other hother
    obtain ⟨kept, hkept, rfl⟩ := List.mem_map.mp hkey
    rw [List.mem_singleton.mp hother]
    simpa using List.of_mem_filter hkept
  · rw [StoreStep.lastPut?_put hfits, List.mem_append, List.mem_singleton, List.mem_filter]
    by_cases hkey : entry.key = key
    · subst hkey
      simp only [if_true, Option.some.injEq, bne_iff_ne]
      grind
    · simp only [hkey, if_false, hlast, bne_iff_ne]
      grind

theorem setKeyStrategy (hmirrors : store.Mirrors steps) (strategy : KeyStrategy) :
    ∃ after, store.setKeyStrategy strategy = .ok after ∧
      after.Mirrors (steps ++ [.setKeyStrategy strategy]) := by
  have hset : store.setKeyStrategy strategy =
      .ok { store with strategyName := some (some strategy.name) } := by
    rw [Store.setKeyStrategy, hmirrors.strategyName]
  refine ⟨_, hset, hmirrors.versions, ?_, ?_⟩
  · rw [StoreStep.lastStrategy?_setKeyStrategy]
    rfl
  · rw [StoreStep.lastPut?_of_none steps (.setKeyStrategy strategy) nofun rfl]
    exact hmirrors.entries

/-- A store that mirrors a history lacks nothing. -/
theorem setUp?_eq (hmirrors : store.Mirrors steps) : store.setUp? = some store := by
  obtain ⟨versions, entries, strategyName⟩ := store
  obtain rfl : versions = some [layoutVersion] := hmirrors.versions
  rfl

/-! ## Answers -/

/-- The entry under a key is the one that was put last. -/
theorem find?_eq {entries : List StoreEntry}
    (hlast : ∀ key entry, lastPut? steps key = some entry ↔ entry ∈ entries ∧ entry.key = key)
    (key : CacheKey) : entries.find? (fun entry => entry.key == key) = lastPut? steps key := by
  cases hfound : entries.find? fun entry => entry.key == key with
  | none =>
      rw [List.find?_eq_none] at hfound
      refine (Option.eq_none_iff_forall_ne_some.mpr fun entry hentry => ?_).symm
      obtain ⟨hmem, hkey⟩ := (hlast key entry).mp hentry
      exact hfound entry hmem (beq_iff_eq.mpr hkey)
  | some entry =>
      have hkey : entry.key = key := by simpa using List.find?_some hfound
      exact ((hlast key entry).mpr ⟨List.mem_of_find?_eq_some hfound, hkey⟩).symm

theorem get_eq (hmirrors : store.Mirrors steps) (key : CacheKey) :
    store.get key = (lastPut? steps key).elim (.error (.notFound key)) (.ok ·.value) := by
  obtain ⟨-, -, entries, hentries, -, hlast⟩ := hmirrors
  simp only [Store.get, hentries, find?_eq hlast]
  cases lastPut? steps key <;> rfl

theorem has_eq (hmirrors : store.Mirrors steps) (key : CacheKey) :
    store.has key = .ok (lastPut? steps key).isSome := by
  obtain ⟨-, -, entries, hentries, -, hlast⟩ := hmirrors
  rw [← find?_eq hlast]
  simp only [Store.has, hentries, Except.ok.injEq]
  rw [Bool.eq_iff_iff, List.any_eq_true, List.find?_isSome]

theorem keyStrategy_eq (hmirrors : store.Mirrors steps) :
    store.keyStrategy = .ok (lastStrategy? steps) := by
  have hnames : ∀ strategy : KeyStrategy, KeyStrategy.ofName? strategy.name = some strategy := by
    intro strategy
    cases strategy <;> rfl
  rw [Store.keyStrategy, hmirrors.strategyName]
  cases lastStrategy? steps with
  | none => rfl
  | some strategy => exact congrArg Except.ok (hnames strategy)

end Store.Mirrors

theorem Store.greatest_concat (numbers : List Int) (number : Int) :
    greatest (numbers ++ [number]) = some ((greatest numbers).elim number (max · number)) := by
  rw [greatest, List.foldl_concat, ← greatest]
  cases greatest numbers with
  | none => rfl
  | some best => exact congrArg some (max_def_lt best number).symm

theorem Store.greatest_eq_none_iff {numbers : List Int} :
    greatest numbers = none ↔ numbers = [] := by
  cases numbers using List.reverseRecOn with
  | nil => exact ⟨fun _ => rfl, fun _ => rfl⟩
  | append_singleton numbers number => simp [greatest_concat]

theorem Store.isGreatest_of_greatest {numbers : List Int} {number : Int}
    (hgreatest : greatest numbers = some number) : IsGreatest {other | other ∈ numbers} number := by
  induction numbers using List.reverseRecOn generalizing number with
  | nil => cases hgreatest
  | append_singleton numbers last ih =>
      have hset : {other | other ∈ numbers ++ [last]} = insert last {other | other ∈ numbers} := by
        ext other
        simp [or_comm]
      rw [greatest_concat, Option.some.injEq] at hgreatest
      rw [← hgreatest, hset]
      cases hbest : greatest numbers with
      | none => simp [greatest_eq_none_iff.mp hbest]
      | some best =>
          rw [Option.elim_some, max_comm]
          exact IsGreatest.insert last (ih hbest)

theorem Store.greatest_eq_some_iff {numbers : List Int} {number : Int} :
    greatest numbers = some number ↔ IsGreatest {other | other ∈ numbers} number := by
  refine ⟨isGreatest_of_greatest, fun hnumber => ?_⟩
  cases hbest : greatest numbers with
  | none =>
      have hmem : number ∈ numbers := hnumber.1
      rw [greatest_eq_none_iff.mp hbest] at hmem
      cases hmem
  | some best => rw [(isGreatest_of_greatest hbest).unique hnumber]

/-- The numbers that a history gives. -/
structure StoreStats.Describes (stats : StoreStats) (steps : List StoreStep) : Prop where
  totalEntries : stats.totalEntries = (StoreStep.keys steps).card
  totalBytes : stats.totalBytes = ∑ key ∈ StoreStep.keys steps, lastSize steps key
  lastIndexed : ∀ time, stats.lastIndexed = some time ↔ IsGreatest (lastTimes steps) time
  neverIndexed : stats.lastIndexed = none ↔ StoreStep.keys steps = ∅

theorem Store.Mirrors.exists_stats {store : Store} {steps : List StoreStep}
    (hmirrors : store.Mirrors steps) :
    ∃ stats, store.stats = .ok stats ∧ stats.Describes steps := by
  obtain ⟨-, -, entries, hentries, hnodup, hlast⟩ := hmirrors
  have hkeys : StoreStep.keys steps = (entries.map (·.key)).toFinset := by
    ext key
    simp only [StoreStep.mem_keys_iff, hlast, List.mem_toFinset, List.mem_map]
  have htimes : lastTimes steps = {time | time ∈ entries.map (·.indexedAt)} := by
    ext time
    simp [lastTimes, hlast]
  have hsizes : entries.map (lastSize steps ∘ (·.key)) = entries.map (·.value.length) := by
    refine List.map_congr_left fun entry hentry => ?_
    rw [Function.comp_apply, lastSize, (hlast entry.key entry).mpr ⟨hentry, rfl⟩, Option.elim_some]
  refine ⟨_, by rw [Store.stats, hentries], ?_, ?_, fun time => ?_, ?_⟩
  · rw [hkeys, List.toFinset_card_of_nodup hnodup, List.length_map]
  · rw [hkeys, List.sum_toFinset _ hnodup, List.map_map, hsizes, List.sum_eq_foldl, List.foldl_map]
  · rw [htimes]
    exact Store.greatest_eq_some_iff
  · rw [hkeys, List.toFinset_eq_empty_iff, List.map_eq_nil_iff, Store.greatest_eq_none_iff,
      List.map_eq_nil_iff]

/-! ## Layouts -/

theorem Store.currentVersion_nonneg_of_mem {versions : List Int} (hmem : layoutVersion ∈ versions) :
    0 ≤ currentVersion versions := by
  unfold currentVersion
  cases hgreatest : greatest versions with
  | none => exact le_refl 0
  | some version =>
      have hle : layoutVersion ≤ version := (isGreatest_of_greatest hgreatest).2 hmem
      rw [layoutVersion] at hle
      dsimp only
      split_ifs <;> omega

/-- A store with all tables and the version of this layout lacks nothing. -/
theorem Store.setUp?_of_mem {versions : List Int} (hmem : layoutVersion ∈ versions)
    (entries : List StoreEntry) (name : Option String) :
    setUp? { versions := some versions, entries := some entries, strategyName := some name } =
      some { versions := some versions, entries := some entries, strategyName := some name } := by
  have hnonneg := currentVersion_nonneg_of_mem hmem
  simp only [setUp?, Option.getD_some, List.contains_iff_mem.mpr hmem, if_true]
  rw [if_neg hnonneg.not_gt, ite_self]

/-- What was set up once has nothing more to be set up. -/
theorem Store.setUp?_of_setUp? {store set : Store} (hset : store.setUp? = some set) :
    set.setUp? = some set := by
  simp only [setUp?] at hset
  split_ifs at hset with hcurrent hbroken hcontains
  · cases hset
    simp only [setUp?, Option.getD_some, if_pos hcurrent]
  · cases hset
    exact setUp?_of_mem (List.contains_iff_mem.mp hcontains) _ _
  · cases hset
    exact setUp?_of_mem (List.mem_append_right _ List.mem_cons_self) _ _

/-! ## Runs -/

/-- An opened store, and the files among which it stands. -/
structure OpenedStore where
  files : FileTree
  store : Store
  deriving DecidableEq, Repr

namespace OpenedStore

/-- Keeps what an operation made of the store. -/
def write (path : String) (opened : OpenedStore) (store : Store) : OpenedStore where
  files := opened.files.writeStore path store
  store := store

/-- Performs an operation on the store at a path.  A put that is refused changes nothing.  There
is no answer if another operation fails. -/
def perform? (path : String) (opened : OpenedStore) : StoreStep → Option OpenedStore
  | .put entry =>
    match opened.store.put entry.key entry.path entry.value entry.indexedAt with
    | .ok after => some (opened.write path after)
    | .error _ => some opened
  | .setKeyStrategy strategy =>
    (opened.store.setKeyStrategy strategy).toOption.map (opened.write path)
  | .clear => some (opened.write path opened.store.clear)
  | .reopen =>
    match opened.files.openStore path with
    | .done (store, files) => some { files, store }
    | .failed _ => none
    | .crashed => none

/-- Performs operations one after the other. -/
def performAll? (path : String) (opened : OpenedStore) (steps : List StoreStep) :
    Option OpenedStore :=
  steps.foldlM (perform? path) opened

/-- The store follows a history, and it is on disk as it is, if its path leads to a disk. -/
structure Tracks (path : String) (opened : OpenedStore) (steps : List StoreStep) : Prop where
  mirrors : opened.store.Mirrors steps
  holds : path ∉ FileTree.passingStores → opened.files.Holds path opened.store

variable {path : String} {opened : OpenedStore} {before steps : List StoreStep} {step : StoreStep}

theorem Tracks.write (htracks : opened.Tracks path before) {store : Store}
    (hmirrors : store.Mirrors (before ++ [step])) :
    (opened.write path store).Tracks path (before ++ [step]) where
  mirrors := hmirrors
  holds hpath := (htracks.holds hpath).writeStore hpath store

/-- A store on disk is the same when it is opened again. -/
theorem Tracks.reopen (htracks : opened.Tracks path before)
    (hpath : path ∉ FileTree.passingStores) :
    ∃ files, opened.perform? path .reopen = some { opened with files } ∧
      OpenedStore.Tracks path { opened with files } (before ++ [.reopen]) := by
  obtain ⟨files, hopen⟩ := (htracks.holds hpath).openStore_eq hpath htracks.mirrors.setUp?_eq
  refine ⟨files, by rw [perform?, hopen], htracks.mirrors.of_none nofun rfl rfl, fun _ => ?_⟩
  exact FileTree.holds_of_openStore hpath hopen

/-- A put changes nothing if there is no row for its entry. -/
theorem Tracks.put_of_not_fits (htracks : opened.Tracks path before) {entry : StoreEntry}
    (hfits : entry.fits = false) :
    opened.perform? path (.put entry) = some opened ∧
      opened.Tracks path (before ++ [.put entry]) := by
  have hentry : StoreStep.entry? (.put entry) = none := if_neg (by simp [hfits])
  refine ⟨?_, htracks.mirrors.of_none nofun hentry rfl, htracks.holds⟩
  rw [perform?, Store.put_of_not_fits hfits]

/-- An operation leaves a store that follows the history. -/
theorem Tracks.perform? (htracks : opened.Tracks path before)
    (hdisk : path ∈ FileTree.passingStores → step ≠ .reopen) :
    ∃ after, opened.perform? path step = some after ∧ after.Tracks path (before ++ [step]) := by
  cases step with
  | put entry =>
      cases hfits : entry.fits with
      | true =>
          obtain ⟨after, hput, hmirrors⟩ := htracks.mirrors.put hfits
          exact ⟨_, by rw [OpenedStore.perform?, hput], htracks.write hmirrors⟩
      | false => exact ⟨opened, htracks.put_of_not_fits hfits⟩
  | setKeyStrategy strategy =>
      obtain ⟨after, hset, hmirrors⟩ := htracks.mirrors.setKeyStrategy strategy
      exact ⟨_, by rw [OpenedStore.perform?, hset]; rfl, htracks.write hmirrors⟩
  | clear =>
      exact ⟨_, rfl, htracks.write (.of_sinceClear (StoreStep.sinceClear_clear before))⟩
  | reopen =>
      obtain ⟨files, hreopen, hafter⟩ := htracks.reopen fun hpassing => hdisk hpassing rfl
      exact ⟨_, hreopen, hafter⟩

theorem Tracks.performAll? (htracks : opened.Tracks path before)
    (hdisk : path ∈ FileTree.passingStores → .reopen ∉ steps) :
    ∃ last, opened.performAll? path steps = some last ∧ last.Tracks path (before ++ steps) := by
  induction steps generalizing opened before with
  | nil => exact ⟨opened, rfl, by rwa [List.append_nil]⟩
  | cons step rest ih =>
      have hfirst : path ∈ FileTree.passingStores → step ≠ .reopen :=
        fun hpassing hreopen => hdisk hpassing (hreopen ▸ List.mem_cons_self)
      obtain ⟨after, hstep, hafter⟩ := htracks.perform? hfirst
      obtain ⟨last, hrest, hlast⟩ := ih hafter
        fun hpassing hmem => hdisk hpassing (List.mem_cons_of_mem _ hmem)
      refine ⟨last, ?_, by simpa using hlast⟩
      rw [OpenedStore.performAll?, List.foldlM_cons, hstep]
      exact hrest

/-- **A store is a map from keys to the values that were put last.**  On a store that has just
been made, operations can be performed in any order, whatever the keys, paths, values and times;
only a store that is on no disk cannot be opened again.  At the end the answers are those of the
history since the last clear: whether a key is there, its value, the numbers about the store and
the key strategy.  Puts that were refused do not count, and another put is taken exactly if there
is a row for its entry.  To open the store once more changes no answer, since what was set up
stays set up. -/
theorem answers_of_history {files made : FileTree}
    (hopen : files.openStore path = .done (.fresh, made)) (steps : List StoreStep)
    (hdisk : path ∈ FileTree.passingStores → .reopen ∉ steps) :
    ∃ last, OpenedStore.performAll? path { files := made, store := .fresh } steps = some last ∧
      (∀ key, last.store.has key = .ok true ↔ ∃ value, last.store.get key = .ok value) ∧
      (∀ key, ∃ found, last.store.has key = .ok found) ∧
      (∀ key, last.store.get key =
        (lastPut? steps key).elim (.error (.notFound key)) (.ok ·.value)) ∧
      (∃ stats, last.store.stats = .ok stats ∧ stats.Describes steps) ∧
      last.store.keyStrategy = .ok (lastStrategy? steps) ∧
      (∀ next : StoreEntry, (∃ after, last.store.put next.key next.path next.value
        next.indexedAt = .ok after) ↔ next.fits = true) ∧
      (path ∉ FileTree.passingStores → ∃ again, last.perform? path .reopen = some again ∧
        again.store = last.store) ∧
      ∀ store set : Store, store.setUp? = some set → set.setUp? = some set := by
  have hstart : OpenedStore.Tracks path { files := made, store := .fresh } [] :=
    ⟨.of_sinceClear rfl, fun hpath => FileTree.holds_of_openStore hpath hopen⟩
  obtain ⟨last, hrun, hlast⟩ := hstart.performAll? hdisk
  have hmirrors : last.store.Mirrors steps := hlast.mirrors
  refine ⟨last, hrun, fun key => ?_, fun key => ⟨_, hmirrors.has_eq key⟩, hmirrors.get_eq,
    hmirrors.exists_stats, hmirrors.keyStrategy_eq, hmirrors.exists_put_iff, fun hpath => ?_,
    fun store set => Store.setUp?_of_setUp?⟩
  · rw [hmirrors.has_eq, hmirrors.get_eq]
    cases lastPut? steps key <;> simp
  · obtain ⟨files, hreopen, -⟩ := hlast.reopen hpath
    exact ⟨_, hreopen, rfl⟩

/-- A key that is put twice, with a store that is opened again in between, and a key that is put
before the store is cleared. -/
def stepsSample : List StoreStep :=
  [.put { key := ⟨[2]⟩, path := "b.c", value := [7, 7], indexedAt := 90 }, .clear,
    .put { key := ⟨[1]⟩, path := "a.c", value := [1, 2, 3], indexedAt := 50 },
    .setKeyStrategy .content, .reopen,
    .put { key := ⟨[1]⟩, path := "a.c", value := [4], indexedAt := 20 }]

theorem answers_of_history_stepsSample :
    ∃ made last stats, FileTree.openStore {} "index.db" = .done (.fresh, made) ∧
      performAll? "index.db" { files := made, store := .fresh } stepsSample = some last ∧
      last.store.get ⟨[1]⟩ = .ok [4] ∧ last.store.get ⟨[2]⟩ = .error (.notFound ⟨[2]⟩) ∧
      last.store.stats = .ok stats ∧ stats.totalEntries = 1 ∧ stats.totalBytes = 1 ∧
      last.store.keyStrategy = .ok (some .content) := by
  have hopen : FileTree.openStore {} "index.db" =
      .done (.fresh, { entries := [(["index.db"], .store .fresh)] }) := by rfl
  obtain ⟨last, hrun, -, -, hget, ⟨stats, hstats, hdescribes⟩, hstrategy, -⟩ :=
    answers_of_history hopen stepsSample (by decide)
  exact ⟨_, last, stats, hopen, hrun, hget _, hget _, hstats, hdescribes.totalEntries,
    hdescribes.totalBytes, hstrategy⟩

end OpenedStore

end SourceIndex
