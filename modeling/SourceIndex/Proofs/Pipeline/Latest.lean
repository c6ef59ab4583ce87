import Mathlib.Data.List.Induction
import SourceIndex.Command.Show
import SourceIndex.Proofs.Pipeline.Endings

/-!
# The record that is found for a file

Under the content strategy a file has one entry for each content and flags it was
indexed with, and a look-up by path takes the entry with the latest time.  So what is
found is what was *written* last (`FileHistory.findByPath_eq`).

* `Attempt.written?` is the entry that a call adds to the store, if any, and
  `Store.writes` lists the entries of a history of calls with the calls that wrote
  them.
* `FileHistory.entries_eq`: the calls of a history only ever add entries.  A call never
  replaces an entry, because an entry under its key would have been a hit.

A hit writes nothing, and therefore does NOT make the entry that was hit the latest
one: a file that is back at an earlier content is found with the record of the later
content (`FileHistory.not_always_current`).
-/

namespace SourceIndex

/-! ## Entries in the order of their times -/

theorem Store.foldl_later {entries : List StoreEntry}
    (hascending : entries.Pairwise fun one next => one.indexedAt < next.indexedAt) :
    entries.foldl later none = entries.getLast? := by
  induction entries using List.reverseRecOn with
  | nil => rfl
  | append_singleton entries entry ih =>
      obtain ⟨hbefore, -, hlast⟩ := List.pairwise_append.mp hascending
      rw [List.foldl_append, ih hbefore, List.getLast?_concat, List.foldl_cons, List.foldl_nil]
      cases hfound : entries.getLast? with
      | none => rfl
      | some best =>
          have hearlier := hlast best (List.mem_of_getLast? hfound) entry (by simp)
          rw [later, if_pos hearlier]

/-- A key that is there yields the value of one of its entries. -/
theorem Store.exists_entry_of_has {store : Store} {key : CacheKey}
    (hhas : store.has key = .ok true) :
    ∃ entry ∈ store.entries.getD [], entry.key = key ∧ store.get key = .ok entry.value := by
  rw [has_eq_slot] at hhas
  rw [get_eq_slot]
  cases hslot : store.slot key with
  | none => simp [hslot] at hhas
  | some found =>
      cases found with
      | nil => simp [hslot] at hhas
      | cons entry rest =>
          obtain ⟨entries, hentries, hfilter⟩ := Option.map_eq_some_iff.mp hslot
          have hmem : entry ∈ entries.filter fun entry => entry.key == key := by simp [hfilter]
          obtain ⟨hentry, hkey⟩ := List.mem_filter.mp hmem
          exact ⟨entry, by simpa [hentries] using hentry, by simpa using hkey, rfl⟩

theorem Store.has_of_mem {store : Store} {entry : StoreEntry}
    (hentry : entry ∈ store.entries.getD []) : store.has entry.key = .ok true := by
  unfold has
  cases hentries : store.entries with
  | none => simp [hentries] at hentry
  | some entries =>
      rw [hentries, Option.getD_some] at hentry
      exact congrArg Except.ok (List.any_eq_true.mpr ⟨entry, hentry, by simp⟩)

/-! ## What calls write -/

/-- A parse is no hit. -/
theorem Indexer.parseStep_ne_hit {σ : Type} (indexer : Indexer σ) (state : IndexState σ)
    (job : Job) (key : CacheKey) :
    (indexer.parseStep state job key).1 ≠ .ended (.done .cacheHit) := by
  unfold parseStep
  dsimp only
  split
  · nofun
  · nofun
  · dsimp only
    unfold afterParse
    split
    · split <;> nofun
    · nofun

namespace Attempt

/-- The entry that a call adds to the store: its record, under its key and with its
time, if it has a record and the store takes it. -/
def written? (attempt : Attempt) (store : Store) : Option StoreEntry :=
  match (attempt.perform store).1, attempt.key? with
  | .done (.indexed record true), some key =>
    some { key, path := attempt.call.job.file, value := record.toBytes,
           indexedAt := attempt.call.now }
  | _, _ => none

/-- What a call writes, and when. -/
structure Writes (attempt : Attempt) (store : Store) (entry : StoreEntry) : Prop where
  key : attempt.key? = some entry.key
  path : entry.path = attempt.call.job.file
  time : entry.indexedAt = attempt.call.now
  restorable : Restorable entry.value
  missed : attempt.indexer.cache.record? store entry.key = none
  put : store.put entry.key entry.path entry.value entry.indexedAt =
    .ok (attempt.perform store).2.cache

/-- A record that the store takes is written. -/
theorem exists_writes {attempt : Attempt} {store : Store} {record : Record}
    (hdone : (attempt.perform store).1 = .done (.indexed record true)) :
    ∃ entry, attempt.written? store = some entry ∧ attempt.Writes store entry := by
  obtain ⟨⟨unit, hunit, hsaved⟩, -⟩ := Indexer.stored_of_indexFile hdone
  have hends := attempt.indexer.ends_indexFile attempt.call.job (attempt.call.start store)
  change Indexer.Ends _ _ _ (attempt.perform store).1 (attempt.perform store).2 at hends
  rw [hdone] at hends
  generalize hafter : (attempt.perform store).2 = after at hends
  cases hends with
  | parsed hkey hmiss hparse hwithout => exact absurd rfl (hwithout record true)
  | @stored key _ tally cache hkey hmiss hparse hput =>
      have hown : attempt.key? = some key := hkey
      have hsize := (attempt.get_of_put hput).2
      refine ⟨⟨key, attempt.call.job.file, record.toBytes, attempt.call.now⟩, ?_, ?_⟩
      · rw [written?, hdone, hown]
      · exact
          { key := hown
            path := rfl
            time := rfl
            restorable := restorable_of_wellLinked (attempt.wellLinked_of_parsed hunit) hsaved
              (Nat.lt_of_le_of_lt hsize (by decide))
            missed := hmiss
            put := by
              rw [hafter]
              exact Cache.put_of_refusing hput }

theorem writes_of_written? {attempt : Attempt} {store : Store} {entry : StoreEntry}
    (hwritten : attempt.written? store = some entry) : attempt.Writes store entry := by
  have hdone : ∃ record, (attempt.perform store).1 = .done (.indexed record true) := by
    unfold written? at hwritten
    split at hwritten
    next record _ hdone _ => exact ⟨record, hdone⟩
    next => cases hwritten
  obtain ⟨record, hdone⟩ := hdone
  obtain ⟨other, hother, hwrites⟩ := exists_writes hdone
  obtain rfl : other = entry := Option.some.inj (hother.symm.trans hwritten)
  exact hwrites

/-- A call that writes no entry leaves the store as it is. -/
theorem cache_perform {attempt : Attempt} {store : Store}
    (hwritten : attempt.written? store = none) : (attempt.perform store).2.cache = store := by
  have hends := attempt.indexer.ends_indexFile attempt.call.job (attempt.call.start store)
  change Indexer.Ends _ _ _ (attempt.perform store).1 (attempt.perform store).2 at hends
  generalize hperformed : attempt.perform store = ended at hends ⊢
  obtain ⟨result, after⟩ := ended
  cases hends with
  | stored hkey hmiss hparse hput =>
      obtain ⟨entry, hentry, -⟩ := exists_writes (congrArg Prod.fst hperformed)
      rw [hwritten] at hentry
      cases hentry
  | _ => rfl

/-- A hit is on an entry of the store. -/
theorem exists_entry_of_hit {attempt : Attempt} {store : Store}
    (hdone : (attempt.perform store).1 = .done .cacheHit) :
    ∃ entry ∈ store.entries.getD [], attempt.key? = some entry.key := by
  have hends := attempt.indexer.ends_indexFile attempt.call.job (attempt.call.start store)
  change Indexer.Ends _ _ _ (attempt.perform store).1 (attempt.perform store).2 at hends
  rw [hdone] at hends
  generalize (attempt.perform store).2 = after at hends
  cases hends with
  | hit hkey hrecord htree =>
      obtain ⟨entry, hentry, hsame, -⟩ :=
        Store.exists_entry_of_has (Cache.record?_eq_some_iff.mp hrecord).1
      exact ⟨entry, hentry, hsame ▸ hkey⟩
  | parsed hkey hmiss hparse hwithout => exact absurd hparse (Indexer.parseStep_ne_hit _ _ _ _)

/-- A call whose key has a record that can be restored writes nothing. -/
theorem Writes.notMem {attempt : Attempt} {store : Store} {entry : StoreEntry}
    (hwrites : attempt.Writes store entry)
    (hstored : ∀ other ∈ store.entries.getD [], other.key = entry.key → Restorable other.value) :
    ∀ other ∈ store.entries.getD [], other.key ≠ entry.key := by
  intro other hother hkey
  have hhas : store.has entry.key = .ok true := hkey ▸ Store.has_of_mem hother
  obtain ⟨found, hfound, hsame, hget⟩ := Store.exists_entry_of_has hhas
  obtain ⟨record, -, hrecord, -⟩ := hstored found hfound hsame
  have hmissed := hwrites.missed
  rw [Cache.record?_eq_some_iff.mpr ⟨hhas, found.value, hget, hrecord⟩] at hmissed
  cases hmissed

/-- The bytes that the key of a file covers under the content strategy. -/
def preimage? (attempt : Attempt) : Option Bytes :=
  (attempt.call.files.read attempt.call.job.file).toOption.map fun content =>
    CacheKey.contentPreimage attempt.call.job.file content attempt.call.job.flags

theorem key?_eq_preimage? {attempt : Attempt}
    (hcontent : attempt.call.options.keyStrategy = .content) :
    attempt.key? = attempt.preimage?.map fun preimage => ⟨Blake3.hash preimage⟩ := by
  change (attempt.call.options.keyStrategy.derive attempt.call.files attempt.call.job.file
    attempt.call.job.flags).toOption = _
  rw [hcontent, KeyStrategy.derive, preimage?]
  cases attempt.call.files.read attempt.call.job.file <;> rfl

theorem preimage?_of_read {attempt : Attempt} {content : Bytes}
    (hread : attempt.call.files.read attempt.call.job.file = .ok content) :
    attempt.preimage? = some (CacheKey.contentPreimage attempt.call.job.file content
      attempt.call.job.flags) := by
  rw [preimage?, hread, Except.toOption, Option.map_some]

theorem key?_of_read {attempt : Attempt} {content : Bytes}
    (hcontent : attempt.call.options.keyStrategy = .content)
    (hread : attempt.call.files.read attempt.call.job.file = .ok content) :
    attempt.key? = some (.ofContent attempt.call.job.file content attempt.call.job.flags) := by
  rw [key?_eq_preimage? hcontent, preimage?_of_read hread, Option.map_some, CacheKey.ofContent]

/-- A file that ends well could be read. -/
theorem exists_read {attempt : Attempt} {store : Store} {outcome : FileOutcome}
    (hcontent : attempt.call.options.keyStrategy = .content)
    (hdone : (attempt.perform store).1 = .done outcome) :
    ∃ content, attempt.call.files.read attempt.call.job.file = .ok content := by
  cases hread : attempt.call.files.read attempt.call.job.file with
  | ok content => exact ⟨content, rfl⟩
  | error fault =>
      have hderived : attempt.indexer.options.keyStrategy.derive (attempt.call.start store).files
          attempt.call.job.file attempt.call.job.flags = .error fault := by
        change attempt.call.options.keyStrategy.derive attempt.call.files _ _ = _
        rw [hcontent, KeyStrategy.derive, hread]
      rw [perform, Indexer.indexFile_of_no_key hderived] at hdone
      cases hdone

end Attempt

/-! ## Histories -/

/-- The entries that calls write one after the other, each with the call that wrote
it. -/
def Store.writes (store : Store) : List Attempt → List (Attempt × StoreEntry)
  | [] => []
  | attempt :: rest =>
    ((attempt.written? store).map fun entry => (attempt, entry)).toList ++
      (attempt.perform store).2.cache.writes rest

theorem Store.writes_append (store : Store) (first second : List Attempt) :
    store.writes (first ++ second) =
      store.writes first ++ (store.afterAttempts first).writes second := by
  induction first generalizing store with
  | nil => rfl
  | cons attempt rest ih => rw [List.cons_append, writes, writes, ih, List.append_assoc]; rfl

/-- The calls that write are some of the calls, in their order. -/
theorem Store.writes_sublist (store : Store) (attempts : List Attempt) :
    ((store.writes attempts).map Prod.fst).Sublist attempts := by
  induction attempts generalizing store with
  | nil => exact .slnil
  | cons attempt rest ih =>
      rw [writes, List.map_append]
      cases attempt.written? store with
      | none => exact (ih _).cons attempt
      | some entry => exact (ih _).cons_cons attempt

theorem Store.exists_writes_of_mem {store : Store} {attempts : List Attempt}
    {writer : Attempt} {entry : StoreEntry} (hmem : (writer, entry) ∈ store.writes attempts) :
    ∃ before, writer.Writes before entry := by
  induction attempts generalizing store with
  | nil => cases hmem
  | cons attempt rest ih =>
      rw [writes, List.mem_append] at hmem
      rcases hmem with hfirst | hlater
      · obtain ⟨written, hwritten, hpair⟩ := Option.map_eq_some_iff.mp (Option.mem_toList.mp hfirst)
        cases hpair
        exact ⟨store, Attempt.writes_of_written? hwritten⟩
      · exact ih hlater

/-- A file is indexed again and again under the content strategy, with the content and
the flags that it has at each time, into a store that had nothing of it at first.  The
clock goes on from call to call, and different bytes have different digests as far as
the keys of these calls go. -/
structure FileHistory (path : String) (start : Store) (attempts : List Attempt) : Prop where
  file : ∀ attempt ∈ attempts, attempt.call.job.file = path
  content : ∀ attempt ∈ attempts, attempt.call.options.keyStrategy = .content
  clock : attempts.Pairwise fun one next => one.call.now < next.call.now
  untouched : ∀ entry ∈ start.entries.getD [],
    entry.path ≠ path ∧ ∀ attempt ∈ attempts, attempt.key? ≠ some entry.key
  digests : ∀ one ∈ attempts, ∀ other ∈ attempts,
    one.key? = other.key? → one.preimage? = other.preimage?

namespace FileHistory

variable {path : String} {start : Store} {attempts earlier : List Attempt} {current : Attempt}

theorem before (hhistory : FileHistory path start (earlier ++ [current])) :
    FileHistory path start earlier where
  file := fun attempt hmem => hhistory.file attempt (List.mem_append_left _ hmem)
  content := fun attempt hmem => hhistory.content attempt (List.mem_append_left _ hmem)
  clock := (List.pairwise_append.mp hhistory.clock).1
  untouched := fun entry hentry => ⟨(hhistory.untouched entry hentry).1, fun attempt hmem =>
    (hhistory.untouched entry hentry).2 attempt (List.mem_append_left _ hmem)⟩
  digests := fun one hone other hother =>
    hhistory.digests one (List.mem_append_left _ hone) other (List.mem_append_left _ hother)

/-- The calls of a history only add entries. -/
theorem entries_eq (hhistory : FileHistory path start attempts) :
    (start.afterAttempts attempts).entries.getD [] =
      start.entries.getD [] ++ (start.writes attempts).map Prod.snd := by
  induction attempts using List.reverseRecOn with
  | nil => simp [Store.afterAttempts, Store.writes]
  | append_singleton earlier current ih =>
      have hbefore := ih hhistory.before
      have hafter : start.afterAttempts (earlier ++ [current]) =
          (current.perform (start.afterAttempts earlier)).2.cache := by
        simp [Store.afterAttempts]
      rw [hafter, Store.writes_append, Store.writes, Store.writes, List.append_nil]
      generalize start.afterAttempts earlier = store at hbefore
      cases hwritten : current.written? store with
      | none => simp [Attempt.cache_perform hwritten, hbefore]
      | some entry =>
          have hwrites := Attempt.writes_of_written? hwritten
          -- an entry under the key would be one of this history, and so a hit
          have hfree := hwrites.notMem fun other hother hkey => by
            rw [hbefore, List.mem_append] at hother
            rcases hother with hold | hnew
            · refine absurd ?_ ((hhistory.untouched other hold).2 current (by simp))
              rw [hkey]
              exact hwrites.key
            · obtain ⟨⟨writer, written⟩, hmem, rfl⟩ := List.mem_map.mp hnew
              obtain ⟨_, hearlier⟩ := Store.exists_writes_of_mem hmem
              exact hearlier.restorable
          obtain ⟨entries, hentries, -, hput⟩ := Store.put_eq_ok_iff.mp hwrites.put
          rw [hentries, Option.getD_some] at hbefore hfree
          have hkept : (entries.filter fun other => other.key != entry.key) = entries :=
            List.filter_eq_self.mpr fun other hother => by simpa using hfree other hother
          rw [hput, Option.getD_some, hkept, hbefore]
          simp

/-- What is found for the file is what was written last. -/
theorem findByPath_eq (hhistory : FileHistory path start attempts)
    (htable : (start.afterAttempts attempts).entries.isSome) :
    (start.afterAttempts attempts).findByPath path =
      .ok ((start.writes attempts).map Prod.snd).getLast? := by
  obtain ⟨entries, hentries⟩ := Option.isSome_iff_exists.mp htable
  have hall := hhistory.entries_eq
  rw [hentries, Option.getD_some] at hall
  have hpaths : ∀ entry ∈ (start.writes attempts).map Prod.snd, entry.path = path := by
    intro entry hentry
    obtain ⟨⟨writer, written⟩, hmem, rfl⟩ := List.mem_map.mp hentry
    obtain ⟨_, hwrites⟩ := Store.exists_writes_of_mem hmem
    have hwriter := (start.writes_sublist attempts).subset (List.mem_map_of_mem hmem)
    rw [hwrites.path]
    exact hhistory.file writer hwriter
  -- the entries of the file are those of this history, and they ascend by the clock
  have hfile : (entries.filter fun entry => entry.path == path) =
      (start.writes attempts).map Prod.snd := by
    have hold : (start.entries.getD []).filter (fun entry => entry.path == path) = [] := by
      refine List.filter_eq_nil_iff.mpr fun entry hentry => ?_
      simpa using (hhistory.untouched entry hentry).1
    rw [hall, List.filter_append, hold, List.nil_append]
    exact List.filter_eq_self.mpr fun entry hentry => by simpa using hpaths entry hentry
  have htimes : ((start.writes attempts).map Prod.snd).Pairwise
      fun one next => one.indexedAt < next.indexedAt := by
    have hcalls := hhistory.clock.sublist (start.writes_sublist attempts)
    rw [List.pairwise_map] at hcalls ⊢
    refine hcalls.imp_of_mem ?_
    rintro ⟨one, first⟩ ⟨next, second⟩ hone hnext hclock
    obtain ⟨_, hfirst⟩ := Store.exists_writes_of_mem hone
    obtain ⟨_, hsecond⟩ := Store.exists_writes_of_mem hnext
    rw [hfirst.time, hsecond.time]
    exact hclock
  rw [Store.findByPath, hentries]
  dsimp only
  rw [hfile, Store.foldl_later htimes]

/-- After a hit, or once a record was taken, something was written. -/
theorem exists_last (hhistory : FileHistory path start (earlier ++ [current]))
    {outcome : FileOutcome}
    (hdone : (current.perform (start.afterAttempts earlier)).1 = .done outcome)
    (houtcome : outcome = .cacheHit ∨ ∃ record, outcome = .indexed record true) :
    (start.afterAttempts (earlier ++ [current])).entries.isSome ∧
      ∃ writer entry, (start.writes (earlier ++ [current])).getLast? = some (writer, entry) ∧
        (outcome ≠ .cacheHit → writer = current) := by
  have hafter : start.afterAttempts (earlier ++ [current]) =
      (current.perform (start.afterAttempts earlier)).2.cache := by
    simp [Store.afterAttempts]
  have hentries := hhistory.before.entries_eq
  rw [hafter, Store.writes_append, Store.writes, Store.writes, List.append_nil]
  generalize start.afterAttempts earlier = store at hdone hentries
  rcases houtcome with rfl | ⟨record, rfl⟩
  · obtain ⟨entry, hentry, hkey⟩ := Attempt.exists_entry_of_hit hdone
    have hnone : current.written? store = none := by rw [Attempt.written?, hdone]
    have htable : store.entries.isSome := by
      cases htable : store.entries with
      | none => simp [htable] at hentry
      | some entries => rfl
    rw [hnone, Attempt.cache_perform hnone]
    refine ⟨htable, ?_⟩
    -- the entry that was hit was written by this history, so there is a last one
    rw [hentries, List.mem_append] at hentry
    rcases hentry with hold | hnew
    · exact absurd hkey ((hhistory.untouched entry hold).2 current (by simp))
    · cases hlast : (start.writes earlier).getLast? with
      | none => simp [List.getLast?_eq_none_iff.mp hlast] at hnew
      | some last => exact ⟨last.1, last.2, by simp [hlast], fun hother => absurd rfl hother⟩
  · obtain ⟨entry, hwritten, hwrites⟩ := Attempt.exists_writes hdone
    refine ⟨?_, current, entry, by simp [hwritten], fun _ => rfl⟩
    obtain ⟨entries, -, -, hput⟩ := Store.put_eq_ok_iff.mp hwrites.put
    rw [hput]
    rfl

/-- The file is found with the entry that was written last, which has the present key
exactly if it was written for the same bytes. -/
theorem exists_found (hhistory : FileHistory path start (earlier ++ [current]))
    {outcome : FileOutcome}
    (hdone : (current.perform (start.afterAttempts earlier)).1 = .done outcome)
    (houtcome : outcome = .cacheHit ∨ ∃ record, outcome = .indexed record true) :
    ∃ writer entry, (start.writes (earlier ++ [current])).getLast? = some (writer, entry) ∧
      (start.afterAttempts (earlier ++ [current])).findByPath path = .ok (some entry) ∧
      (current.key? = some entry.key ↔ writer.preimage? = current.preimage?) ∧
      (outcome ≠ .cacheHit → writer = current) := by
  obtain ⟨htable, writer, entry, hlast, hown⟩ := hhistory.exists_last hdone houtcome
  have hcurrent : current ∈ earlier ++ [current] := by simp
  have hmem := List.mem_of_getLast? hlast
  have hwriter := (start.writes_sublist _).subset (List.mem_map_of_mem hmem)
  obtain ⟨_, hwrites⟩ := Store.exists_writes_of_mem hmem
  refine ⟨writer, entry, hlast, ?_, ?_, hown⟩
  · rw [hhistory.findByPath_eq htable, List.getLast?_map, hlast]
    rfl
  · rw [← hwrites.key]
    constructor
    · intro hkeys
      exact hhistory.digests writer hwriter current hcurrent hkeys.symm
    · intro hbytes
      rw [Attempt.key?_eq_preimage? (hhistory.content current hcurrent),
        Attempt.key?_eq_preimage? (hhistory.content writer hwriter), hbytes]

/-- **The record that was written last is found.**  After a call of a history that was
a hit or had its record taken, the file is found, by its path and by a list of paths that
starts with it, with the entry that was written last.  This is the entry for the present
content and flags if the present call wrote it, and after a hit exactly if the call that
wrote last had the same bytes under its key. -/
theorem finds_last_written (hhistory : FileHistory path start (earlier ++ [current]))
    {outcome : FileOutcome}
    (hdone : (current.perform (start.afterAttempts earlier)).1 = .done outcome)
    (houtcome : outcome = .cacheHit ∨ ∃ record, outcome = .indexed record true) :
    ∃ content writer entry, current.call.files.read path = .ok content ∧
      (start.writes (earlier ++ [current])).getLast? = some (writer, entry) ∧
      (start.afterAttempts (earlier ++ [current])).findByPath path = .ok (some entry) ∧
      (∀ others, (start.afterAttempts (earlier ++ [current])).findFirst (path :: others) =
        .ok (some entry)) ∧
      (entry.key = .ofContent path content current.call.job.flags ↔
        writer.preimage? = some (CacheKey.contentPreimage path content current.call.job.flags)) ∧
      (outcome ≠ .cacheHit →
        writer = current ∧ entry.key = .ofContent path content current.call.job.flags) := by
  obtain ⟨writer, entry, hlast, hfind, hsame, hown⟩ := hhistory.exists_found hdone houtcome
  obtain ⟨content, hread⟩ := Attempt.exists_read (hhistory.content current (by simp)) hdone
  have hkey := Attempt.key?_of_read (hhistory.content current (by simp)) hread
  have hbytes := Attempt.preimage?_of_read hread
  rw [hhistory.file current (by simp)] at hread hkey hbytes
  rw [hkey, hbytes, Option.some.injEq] at hsame
  refine ⟨content, writer, entry, hread, hlast, hfind, fun others => ?_, ?_, fun hother => ?_⟩
  · rw [Store.findFirst, hfind]
  · rw [← hsame]
    exact eq_comm
  · obtain rfl := hown hother
    exact ⟨rfl, (hsame.mpr hbytes).symm⟩

end FileHistory

namespace Attempt

/-- A file is indexed with some flags at some time, under a key of its content. -/
def flagSample (flags : List String) (now : Int) : Attempt :=
  ofCall { Store.callSample "f.c" with
    options := { keyStrategy := .content }
    now
    job := { file := "f.c", flags } }

/-- The flags of a file are changed. -/
def changeSample : List Attempt :=
  [flagSample [] 1, flagSample ["-DX"] 2]

/-- The flags of the file are changed back. -/
def backSample : Attempt :=
  flagSample [] 3

end Attempt

open Attempt (flagSample changeSample backSample)

theorem FileHistory.sample : FileHistory "f.c" Store.fresh (changeSample ++ [backSample]) where
  file := by decide +kernel
  content := by decide +kernel
  clock := by decide +kernel
  untouched := by nofun
  digests := by decide +kernel

/-- The last call is a hit, and the one before it was the last to write. -/
theorem Attempt.backSample_hit :
    (backSample.perform (Store.fresh.afterAttempts changeSample)).1 = .done .cacheHit ∧
      (Store.fresh.writes (changeSample ++ [backSample])).getLast?.map
        (fun write => (write.1.preimage?, write.2.indexedAt)) =
          some ((flagSample ["-DX"] 2).preimage?, 2) := by
  decide +kernel

theorem FileHistory.finds_last_written_backSample :
    FileHistory "f.c" Store.fresh (changeSample ++ [backSample]) ∧
      (backSample.perform (Store.fresh.afterAttempts changeSample)).1 = .done .cacheHit ∧
      ∃ entry, (Store.fresh.afterAttempts (changeSample ++ [backSample])).findByPath "f.c" =
        .ok (some entry) ∧ entry.indexedAt = 2 := by
  obtain ⟨hhit, hwrites⟩ := Attempt.backSample_hit
  obtain ⟨content, writer, entry, -, hlast, hfind, -⟩ :=
    finds_last_written sample hhit (.inl rfl)
  rw [hlast, Option.map_some, Option.some.injEq] at hwrites
  exact ⟨sample, hhit, entry, hfind, congrArg Prod.snd hwrites⟩

/-- What is found need NOT be the entry for the present content and flags: it is not after
a hit on an earlier entry. -/
theorem FileHistory.not_always_current :
    ¬∀ (path : String) (start : Store) (earlier : List Attempt) (current : Attempt)
        (outcome : FileOutcome) (content : Bytes),
      FileHistory path start (earlier ++ [current]) →
      (current.perform (start.afterAttempts earlier)).1 = .done outcome →
      (outcome = .cacheHit ∨ ∃ record, outcome = .indexed record true) →
      current.call.files.read path = .ok content →
      ∃ entry, (start.afterAttempts (earlier ++ [current])).findByPath path = .ok (some entry) ∧
        entry.key = .ofContent path content current.call.job.flags := by
  intro hcurrent
  obtain ⟨hhit, hwrites⟩ := Attempt.backSample_hit
  have hread : backSample.call.files.read "f.c" = .ok ParseSample.content := by decide +kernel
  obtain ⟨found, hpresent, hkey⟩ := hcurrent "f.c" Store.fresh changeSample backSample .cacheHit
    ParseSample.content sample hhit (.inl rfl) hread
  obtain ⟨writer, entry, hlast, hfind, hsame, -⟩ := sample.exists_found hhit (.inl rfl)
  obtain rfl : found = entry := Option.some.inj (Except.ok.inj (hpresent.symm.trans hfind))
  -- the present key would be that of the call with the other flags
  have hown : backSample.key? = some found.key := by
    rw [hkey]
    exact Attempt.key?_of_read rfl hread
  rw [hlast, Option.map_some, Option.some.injEq, Prod.mk.injEq, hsame.mp hown] at hwrites
  exact absurd hwrites.1 (by decide +kernel)

end SourceIndex
