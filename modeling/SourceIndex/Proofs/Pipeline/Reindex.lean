import SourceIndex.Proofs.Pipeline.Coherence
import SourceIndex.Proofs.Pipeline.Steps
import SourceIndex.Proofs.Record.Size

/-!
# Indexing a file again

A file whose record the store has taken is a hit from then on.  Two facts carry
this.  What a parse has the store take can be restored (`restorable_of_wellLinked`),
since no row has a value whose sizes the format could not hold.  And a value
that can be decoded is never replaced: a call with the key of the value stops at it
(`Indexer.indexFile_of_present`), and a call with another key leaves it alone
(`Indexer.under_indexFile`).

Nothing is assumed about the calls in between.  Their files, flags, options and
grammars may be any, their scratch files may be refused, and so may their writes.
Keys need NOT be different for different files: a file that happens to have the key
of another is a hit on the other's record, but it does not replace it.
-/

namespace SourceIndex

open Wire (sizeLimit)

/-! ## Values that can be restored -/

/-- A stored value holds a record whose saved tree can be restored. -/
def Restorable (value : Bytes) : Prop :=
  ∃ record tree, Record.ofBytes value = .ok record ∧
    CursorTree.ofBytes record.savedTree = .ok tree

theorem restorable_of_wellLinked {record : Record} {tree : CursorTree}
    (hlinked : tree.WellLinked) (hsaved : record.savedTree = tree.toBytes)
    (hsize : record.toBytes.length < sizeLimit) : Restorable record.toBytes := by
  have hrecord := Record.ofBytes_toBytes_append (Record.fits_of_length_lt hsize) []
  have hfile : tree.toBytes.length < sizeLimit := by
    have hpart := record.length_savedTree_le
    rw [hsaved] at hpart
    exact Nat.lt_of_le_of_lt hpart hsize
  have htree := CursorTree.ofBytes_toBytes_eq (hlinked.fits hfile) []
  rw [List.append_nil, (CursorTree.linkFault?_eq_none_iff tree).mpr hlinked] at htree
  rw [List.append_nil] at hrecord
  exact ⟨record, tree, hrecord, by rw [hsaved]; exact htree⟩

namespace Indexer

variable {σ : Type} {indexer : Indexer σ} {job : Job} {state : IndexState σ}

/-! ## Where a stored record comes from -/

/-- The saved tree of a record is what the parser gave for a file. -/
def Parsed (indexer : Indexer σ) (files : FileTree) (job : Job) (record : Record) : Prop :=
  ∃ unit, indexer.parser files job indexer.options.parsing = .done unit ∧
    record.savedTree = unit.tree.toBytes

/-- How far a file has come from `files` on: it works with its own key, a record that
is about to be written was parsed, and one that the cache took was the last write. -/
structure Sourced (indexer : Indexer σ) (files : FileTree) (job : Job) (stage : IndexStage)
    (state : IndexState σ) : Prop where
  files_eq : state.files = files
  owns : indexer.Owns files job stage
  parsed : ∀ key record, stage = .persist key record → indexer.Parsed files job record
  stored : ∀ record, stage = .ended (.done (.indexed record true)) →
    indexer.Parsed files job record ∧ ∃ key ∈ indexer.key? files job, ∃ before,
      indexer.cache.put before key job.file record.toBytes = .ok state.cache

theorem Sourced.start (indexer : Indexer σ) (state : IndexState σ) (job : Job) :
    indexer.Sourced state.files job (indexer.firstStage state.files job) state where
  files_eq := rfl
  owns := indexer.owns_firstStage state.files job
  parsed := by
    intro key record hstage
    unfold firstStage at hstage
    split at hstage <;> cases hstage
  stored := by
    intro record hstage
    unfold firstStage at hstage
    split at hstage <;> cases hstage

theorem Sourced.step {files : FileTree} {stage next : IndexStage} {after : IndexState σ}
    (hstep : Advances indexer job state stage next after)
    (hsourced : indexer.Sourced files job stage state) : indexer.Sourced files job next after := by
  refine ⟨hstep.files_eq.trans hsourced.files_eq, hstep.owns hsourced.owns, ?_, ?_⟩
  · intro key record hnext
    cases hstep with
    | lookup hstage => rcases hstage with rfl | rfl <;> cases hnext
    | fetch hstage => rcases hstage with rfl | ⟨result, rfl, -⟩ <;> cases hnext
    | parse htally hstage =>
        rcases hstage with ⟨unit, parsed, rfl, hparse, hsaved⟩ | ⟨result, rfl, -⟩
        · cases hnext
          exact ⟨unit, by rw [← hsourced.files_eq]; exact hparse, hsaved⟩
        · cases hnext
    | refused hput => cases hnext
    | stored hput => cases hnext
    | ended result => cases hnext
  · intro record hnext
    cases hstep with
    | lookup hstage => rcases hstage with rfl | rfl <;> cases hnext
    | fetch hstage =>
        rcases hstage with rfl | ⟨result, rfl, hresult⟩
        · cases hnext
        · exact absurd (IndexStage.ended.inj hnext) (hresult record true)
    | parse htally hstage =>
        rcases hstage with ⟨unit, parsed, rfl, -⟩ | ⟨result, rfl, hresult⟩
        · cases hnext
        · exact absurd (IndexStage.ended.inj hnext) (hresult record true)
    | refused hput => cases hnext
    | stored hput =>
        cases hnext
        exact ⟨hsourced.parsed _ record rfl, _, hsourced.owns _ rfl, _, hput⟩
    | ended result => exact hsourced.stored record hnext

/-- A record that the cache took was parsed, and was written under the key of the
file. -/
theorem stored_of_indexFile {record : Record}
    (hresult : (indexer.indexFile state job).1 = .done (.indexed record true)) :
    indexer.Parsed state.files job record ∧ ∃ key ∈ indexer.key? state.files job, ∃ before,
      indexer.cache.put before key job.file record.toBytes =
        .ok (indexer.indexFile state job).2.cache := by
  have hsourced := indexer.advanceBy_induct job (indexer.Sourced state.files job) Sourced.step
    maxSteps _ state (Sourced.start indexer state job)
  rw [advanceBy_maxSteps] at hsourced
  exact hsourced.stored record (by rw [hresult])

/-! ## Files whose key is there -/

/-- A call stops at a value that can be decoded, and changes nothing. -/
theorem indexFile_of_present {key : CacheKey} {value : Bytes} {record : Record}
    (hkey : key ∈ indexer.key? state.files job)
    (hhas : indexer.cache.has state.cache key = .ok true)
    (hget : indexer.cache.get state.cache key = .ok value)
    (hrecord : Record.ofBytes value = .ok record) :
    indexer.indexFile state job =
      (match (deserialize indexer.scratch state.files record.savedTree).1 with
        | .ok _ => .done .cacheHit
        | .error fault => .failed (.codec fault), state) := by
  have hfirst := firstStage_of_key? hkey
  have hlookup : indexer.lookupStep state key = .fetch key := by
    rw [lookupStep, hhas]
  have hfetch : indexer.fetchStep state key =
      (.ended (match (deserialize indexer.scratch state.files record.savedTree).1 with
        | .ok _ => .done .cacheHit
        | .error fault => .failed (.codec fault)), state) := by
    simp only [fetchStep, hget, hrecord, deserialize_files]
    cases (deserialize indexer.scratch state.files record.savedTree).1 <;> rfl
  have hsteps : indexer.advanceBy job 2 (indexer.firstStage state.files job) state =
      indexer.fetchStep state key := by
    rw [hfirst, advanceBy_succ, advance, hlookup, advanceBy_succ, advance]
    rfl
  exact indexFile_of_ended (hsteps.trans hfetch)

/-- A value that can be restored makes a hit. -/
theorem indexFile_of_restorable {key : CacheKey} {value : Bytes} {record : Record}
    {tree : CursorTree} (hkey : key ∈ indexer.key? state.files job)
    (hhas : indexer.cache.has state.cache key = .ok true)
    (hget : indexer.cache.get state.cache key = .ok value)
    (hrecord : Record.ofBytes value = .ok record)
    (htree : CursorTree.ofBytes record.savedTree = .ok tree)
    (hscratch : indexer.scratch.Usable state.files) :
    indexer.indexFile state job = (.done .cacheHit, state) := by
  rw [indexFile_of_present hkey hhas hget hrecord, deserialize_of_usable htree hscratch]

end Indexer

/-! ## Calls on a store that may refuse writes -/

/-- A cache that refuses to take some values. -/
def Cache.refusing {σ : Type} (cache : Cache σ) (refusal : Bytes → Option StoreFault) : Cache σ where
  has := cache.has
  get := cache.get
  put := fun state key path value =>
    match refusal value with
    | some fault => .error fault
    | none => cache.put state key path value

theorem Cache.put_of_refusing {σ : Type} {cache : Cache σ} {refusal : Bytes → Option StoreFault}
    {before after : σ} {key : CacheKey} {path : String} {value : Bytes}
    (hput : (cache.refusing refusal).put before key path value = .ok after) :
    cache.put before key path value = .ok after := by
  simp only [refusing] at hput
  split at hput
  · cases hput
  · exact hput

theorem Cache.KeyedBy.refusing {σ τ : Type} {cache : Cache σ} {slot : σ → CacheKey → τ}
    (hkeyed : cache.KeyedBy slot) (refusal : Bytes → Option StoreFault) :
    (cache.refusing refusal).KeyedBy slot where
  has_eq := hkeyed.has_eq
  get_eq := hkeyed.get_eq
  put_eq := by
    intro first second key path value hslot
    simp only [Cache.refusing]
    cases refusal value with
    | none => exact hkeyed.put_eq path value hslot
    | some fault => rfl
  put_other := fun hput hother => hkeyed.put_other (put_of_refusing hput) hother

/-- A call to index a file.  The store may refuse to take any value, also one for
which there is a row. -/
structure Attempt where
  call : IndexCall
  refusal : Bytes → Option StoreFault

namespace Attempt

/-- The indexer of a call. -/
def indexer (attempt : Attempt) : Indexer Store :=
  { attempt.call.indexer with cache := attempt.call.indexer.cache.refusing attempt.refusal }

/-- Indexes the file of a call. -/
def perform (attempt : Attempt) (store : Store) :
    Outcome IndexFault FileOutcome × IndexState Store :=
  attempt.indexer.indexFile (attempt.call.start store) attempt.call.job

/-- The key of the file. -/
def key? (attempt : Attempt) : Option CacheKey :=
  attempt.indexer.key? attempt.call.files attempt.call.job

theorem keyedBy_slot (attempt : Attempt) : attempt.indexer.cache.KeyedBy Store.slot :=
  (Cache.keyedBy_ofStore attempt.call.now).refusing attempt.refusal

/-- What the parser of a call gives has sound links. -/
theorem wellLinked_of_parsed (attempt : Attempt) {files : FileTree} {job : Job}
    {options : ParseOptions} {unit : SourceUnit}
    (hparse : attempt.indexer.parser files job options = .done unit) : unit.tree.WellLinked := by
  change UnitParser.ofGrammars attempt.call.grammars files job options = .done unit at hparse
  unfold UnitParser.ofGrammars at hparse
  split at hparse
  · cases hparse
  next hfile =>
    cases hparse
    exact (parseFile_preordered hfile).2

/-- A value that was written is found, and it is not larger than a row. -/
theorem get_of_put (attempt : Attempt) {store after : Store} {key : CacheKey} {path : String}
    {value : Bytes} (hput : attempt.indexer.cache.put store key path value = .ok after) :
    after.get key = .ok value ∧ value.length ≤ StoreEntry.rowLimit := by
  have hstored := Cache.put_of_refusing hput
  obtain ⟨-, -, hfits, -⟩ := Store.put_eq_ok_iff.mp hstored
  exact ⟨Store.get_of_put hstored, StoreEntry.length_value_le hfits⟩

/-- A value that can be decoded stays under its key, and no call tries to replace
it. -/
theorem get_perform {store : Store} {key : CacheKey} {value : Bytes} {record : Record}
    (hget : store.get key = .ok value) (hrecord : Record.ofBytes value = .ok record)
    (attempt : Attempt) :
    (attempt.perform store).2.cache.get key = .ok value ∧
      ∀ path other, .put key path other ∉ (attempt.perform store).2.log := by
  by_cases hkey : key ∈ attempt.indexer.key? (attempt.call.start store).files attempt.call.job
  · have hstop := Indexer.indexFile_of_present hkey (Store.has_of_get hget) hget hrecord
    rw [perform, hstop]
    exact ⟨hget, fun path other => List.not_mem_nil⟩
  · have hunder := Indexer.under_indexFile attempt.keyedBy_slot hkey
    refine ⟨?_, fun path other hlog => ?_⟩
    · rw [perform, Store.get_eq_slot, (Prod.mk.inj hunder).1]
      exact (Store.get_eq_slot store key).symm.trans hget
    · exact List.not_mem_nil ((Indexer.mem_log_iff_of_under hunder rfl).mp hlog)

end Attempt

/-- The store after some calls, each of which may succeed or fail. -/
def Store.afterAttempts (store : Store) (attempts : List Attempt) : Store :=
  attempts.foldl (fun store attempt => (attempt.perform store).2.cache) store

theorem Store.get_afterAttempts {store : Store} {key : CacheKey} {value : Bytes}
    {record : Record} (hget : store.get key = .ok value)
    (hrecord : Record.ofBytes value = .ok record) (attempts : List Attempt) :
    (store.afterAttempts attempts).get key = .ok value := by
  induction attempts generalizing store with
  | nil => exact hget
  | cons attempt rest ih => exact ih (Attempt.get_perform hget hrecord attempt).1

/-- Two calls have the same input as far as the keys tell: the same file under the
path strategy, and also the same flags and content under the content strategy. -/
structure IndexCall.SameInput (first again : IndexCall) : Prop where
  strategy : again.options.keyStrategy = first.options.keyStrategy
  file : again.job.file = first.job.file
  content : first.options.keyStrategy = .content →
    again.job.flags = first.job.flags ∧
      again.files.read first.job.file = first.files.read first.job.file

theorem IndexCall.SameInput.key?_eq {first again : IndexCall} (hsame : first.SameInput again) :
    again.indexer.key? again.files again.job = first.indexer.key? first.files first.job := by
  change (again.options.keyStrategy.derive again.files again.job.file again.job.flags).toOption =
    (first.options.keyStrategy.derive first.files first.job.file first.job.flags).toOption
  rw [hsame.strategy, hsame.file]
  cases hstrategy : first.options.keyStrategy with
  | path => rfl
  | content =>
      obtain ⟨hflags, hread⟩ := hsame.content hstrategy
      rw [hflags, KeyStrategy.derive, KeyStrategy.derive, hread]

/-- **Indexing again is a hit.**  Once a call has had its record taken by the store,
then after any other calls a call with the same input is a hit that neither parses
nor writes and leaves all as it was, the record is still there as it was written
first, and no call at all writes under its key. -/
theorem Attempt.perform_again {first again : Attempt} {before : Store} {record : Record}
    (hfirst : (first.perform before).1 = .done (.indexed record true)) (others : List Attempt)
    (hsame : first.call.SameInput again.call)
    (hscratch : again.call.scratch.Usable again.call.files) :
    ∃ key, first.key? = some key ∧ again.key? = some key ∧
      ((first.perform before).2.cache.afterAttempts others).get key = .ok record.toBytes ∧
      again.perform ((first.perform before).2.cache.afterAttempts others) =
        (.done .cacheHit, again.call.start ((first.perform before).2.cache.afterAttempts others)) ∧
      ∀ (attempt : Attempt) (path : String) (value : Bytes), .put key path value ∉
        (attempt.perform ((first.perform before).2.cache.afterAttempts others)).2.log := by
  obtain ⟨⟨unit, hparse, hsaved⟩, key, hkey, earlier, hput⟩ := Indexer.stored_of_indexFile hfirst
  have hlinked := first.wellLinked_of_parsed hparse
  obtain ⟨hstored, hsize⟩ := first.get_of_put hput
  obtain ⟨decoded, tree, hrecord, htree⟩ :=
    restorable_of_wellLinked hlinked hsaved (Nat.lt_of_le_of_lt hsize (by decide))
  have hget : ((first.perform before).2.cache.afterAttempts others).get key =
      .ok record.toBytes := Store.get_afterAttempts hstored hrecord others
  generalize (first.perform before).2.cache.afterAttempts others = store at hget
  have hagain : key ∈ again.indexer.key? (again.call.start store).files again.call.job :=
    hsame.key?_eq.trans hkey
  refine ⟨key, hkey, hagain, hget, ?_, fun attempt =>
    (Attempt.get_perform hget hrecord attempt).2⟩
  exact Indexer.indexFile_of_restorable hagain (Store.has_of_get hget) hget hrecord htree hscratch

namespace Attempt

/-- A call on a store that takes every value for which there is a row. -/
def ofCall (call : IndexCall) : Attempt where
  call := call
  refusal := fun _ => none

/-- A file is indexed for the first time. -/
def firstSample : Attempt :=
  ofCall (Store.callSample "f.c")

/-- A file that cannot be read, and the first file under a key of its content, which
the store refuses to take. -/
def otherSamples : List Attempt :=
  [ofCall (Store.callSample "missing.c"),
    { call := { Store.callSample "f.c" with options := { keyStrategy := .content } }
      refusal := fun _ => some .refused }]

/-- The first file again, with other flags and after it was deleted. -/
def againSample : Attempt :=
  ofCall { Store.callSample "f.c" with
    files := { entries := [(["tmp"], .directory)] }
    job := { file := "f.c", flags := [] } }

/-- The record that the first call gives. -/
def recordSample : Record :=
  match (firstSample.perform Store.fresh).1 with
  | .done (.indexed record _) => record
  | _ => { path := "" }

theorem perform_again_againSample :
    (firstSample.perform Store.fresh).1 = .done (.indexed recordSample true) ∧
      firstSample.call.SameInput againSample.call ∧
      againSample.call.scratch.Usable againSample.call.files ∧
      (againSample.perform ((firstSample.perform Store.fresh).2.cache.afterAttempts
        otherSamples)).1 = .done .cacheHit := by
  have hfirst : (firstSample.perform Store.fresh).1 = .done (.indexed recordSample true) := by
    decide +kernel
  have hsame : firstSample.call.SameInput againSample.call := ⟨rfl, rfl, by nofun⟩
  have hscratch : againSample.call.scratch.Usable againSample.call.files := by decide +kernel
  refine ⟨hfirst, hsame, hscratch, ?_⟩
  obtain ⟨key, -, -, -, hhit, -⟩ := perform_again hfirst otherSamples hsame hscratch
  rw [hhit]

end Attempt
end SourceIndex
