import SourceIndex.Proofs.Pipeline.Reindex

/-!
# How the indexing of a file ends

A file that is indexed alone ends in one of six ways (`Indexer.Ends`): its key cannot
be derived; the cache yields a record that can, or cannot, be restored; there is no
record and the parse ends without one; or the parse makes a record that the cache
refuses, or takes.  All that a file leaves behind is read off these six ways.

A cache yields a record under a key only if all goes well (`Cache.record?`).  Whether
it does not have the key, cannot be read, or has something there that is no record
makes NO difference: the file is parsed as it would be on an empty cache.
-/

namespace SourceIndex

/-! ## Caches -/

namespace Cache

variable {σ τ : Type}

/-- The record that a cache yields under a key. -/
def record? (cache : Cache σ) (state : σ) (key : CacheKey) : Option Record :=
  match cache.has state key with
  | .ok true =>
    match cache.get state key with
    | .ok bytes => (Record.ofBytes bytes).toOption
    | .error _ => none
  | .ok false | .error _ => none

theorem record?_eq_some_iff {cache : Cache σ} {state : σ} {key : CacheKey} {record : Record} :
    cache.record? state key = some record ↔ cache.has state key = .ok true ∧
      ∃ bytes, cache.get state key = .ok bytes ∧ Record.ofBytes bytes = .ok record := by
  unfold record?
  cases hhas : cache.has state key with
  | error fault => simp
  | ok present =>
      cases present with
      | false => simp
      | true =>
          cases hget : cache.get state key with
          | error fault => simp
          | ok bytes => cases hbytes : Record.ofBytes bytes <;> simp [Except.toOption, hbytes]

/-- A write changes no answer about other keys. -/
def KeepsOthers (cache : Cache σ) : Prop :=
  ∀ (before after : σ) (key other : CacheKey) (path : String) (value : Bytes),
    cache.put before key path value = .ok after → other ≠ key →
      cache.has after other = cache.has before other ∧
        cache.get after other = cache.get before other

theorem KeyedBy.keepsOthers {cache : Cache σ} {slot : σ → CacheKey → τ}
    (hkeyed : cache.KeyedBy slot) : cache.KeepsOthers := by
  intro before after key other path value hput hother
  have hslot := hkeyed.put_other hput hother
  exact ⟨hkeyed.has_eq hslot, hkeyed.get_eq hslot⟩

end Cache

/-! ## The six ways -/

namespace IndexState

variable {σ : Type}

/-- The files that were parsed, the last one first. -/
def parses (state : IndexState σ) : List Job :=
  state.log.filterMap fun action =>
    match action with
    | .parse job => some job
    | .put _ _ _ => none

/-- The keys, paths and values that were to be written, the last one first. -/
def puts (state : IndexState σ) : List (CacheKey × String × Bytes) :=
  state.log.filterMap fun action =>
    match action with
    | .parse _ => none
    | .put key path value => some (key, path, value)

end IndexState

namespace Indexer

variable {σ τ : Type} {indexer : Indexer σ} {job : Job} {state : IndexState σ} {key : CacheKey}

/-- How the indexing of a file can end, and what it leaves behind. -/
inductive Ends (indexer : Indexer σ) (job : Job) (state : IndexState σ) :
    Outcome IndexFault FileOutcome → IndexState σ → Prop
  | unreadable {fault : IoFault}
      (hkey : indexer.options.keyStrategy.derive state.files job.file job.flags = .error fault) :
      Ends indexer job state (.failed (.unreadable job.file fault)) state
  | hit {key : CacheKey} {record : Record} {tree : CursorTree}
      (hkey : indexer.key? state.files job = some key)
      (hrecord : indexer.cache.record? state.cache key = some record)
      (htree : (deserialize indexer.scratch state.files record.savedTree).1 = .ok tree) :
      Ends indexer job state (.done .cacheHit) state
  | unrestored {key : CacheKey} {record : Record} {fault : CodecFault}
      (hkey : indexer.key? state.files job = some key)
      (hrecord : indexer.cache.record? state.cache key = some record)
      (hfault : (deserialize indexer.scratch state.files record.savedTree).1 = .error fault) :
      Ends indexer job state (.failed (.codec fault)) state
  | parsed {key : CacheKey} {result : Outcome IndexFault FileOutcome} {tally : Option Tally}
      (hkey : indexer.key? state.files job = some key)
      (hmiss : indexer.cache.record? state.cache key = none)
      (hparse : (indexer.parseStep state job key).1 = .ended result)
      (hwithout : ∀ record persisted, result ≠ .done (.indexed record persisted)) :
      Ends indexer job state result { state with log := .parse job :: state.log, tally }
  | refused {key : CacheKey} {record : Record} {tally : Option Tally} {fault : StoreFault}
      (hkey : indexer.key? state.files job = some key)
      (hmiss : indexer.cache.record? state.cache key = none)
      (hparse : (indexer.parseStep state job key).1 = .persist key record)
      (hput : indexer.cache.put state.cache key job.file record.toBytes = .error fault) :
      Ends indexer job state (.done (.indexed record false))
        { state with
          log := .put key job.file record.toBytes :: .parse job :: state.log
          tally }
  | stored {key : CacheKey} {record : Record} {tally : Option Tally} {cache : σ}
      (hkey : indexer.key? state.files job = some key)
      (hmiss : indexer.cache.record? state.cache key = none)
      (hparse : (indexer.parseStep state job key).1 = .persist key record)
      (hput : indexer.cache.put state.cache key job.file record.toBytes = .ok cache) :
      Ends indexer job state (.done (.indexed record true))
        { state with
          log := .put key job.file record.toBytes :: .parse job :: state.log
          tally, cache }

/-- A file without a record comes to be parsed, and nothing has changed by then. -/
theorem advanceBy_of_miss (hkey : indexer.key? state.files job = some key)
    (hmiss : indexer.cache.record? state.cache key = none) :
    ∃ steps, indexer.advanceBy job steps (indexer.firstStage state.files job) state =
      (.parse key, state) := by
  rw [firstStage_of_key? hkey]
  by_cases hhas : indexer.cache.has state.cache key = .ok true
  · refine ⟨2, ?_⟩
    have hlookup : indexer.lookupStep state key = .fetch key := by
      rw [lookupStep, hhas]
    have hfetch : indexer.fetchStep state key = (.parse key, state) := by
      unfold fetchStep
      split
      · rfl
      next bytes hget =>
        split
        · rfl
        next record hrecord =>
          rw [Cache.record?_eq_some_iff.mpr ⟨hhas, bytes, hget, hrecord⟩] at hmiss
          cases hmiss
    rw [advanceBy_succ, advance, hlookup, advanceBy_succ, advance, hfetch]
    rfl
  · refine ⟨1, ?_⟩
    rw [advanceBy_succ, advance, lookupStep]
    cases hanswer : indexer.cache.has state.cache key with
    | error fault => rfl
    | ok present =>
        cases present with
        | false => rfl
        | true => exact absurd hanswer hhas

/-- How a file without a record ends. -/
theorem ends_of_miss (hkey : indexer.key? state.files job = some key)
    (hmiss : indexer.cache.record? state.cache key = none) :
    Ends indexer job state (indexer.indexFile state job).1 (indexer.indexFile state job).2 := by
  obtain ⟨steps, hsteps⟩ := advanceBy_of_miss hkey hmiss
  have hadvance : ∀ more, indexer.advanceBy job (steps + (more + 1))
      (indexer.firstStage state.files job) state = indexer.advanceBy job more
        (indexer.parseStep state job key).1 (indexer.parseStep state job key).2 := by
    intro more
    rw [advanceBy_add, hsteps]
    rfl
  have hstep := indexer.advances_parseStep job state key
  generalize hstage : (indexer.parseStep state job key).1 = stage at hadvance hstep
  generalize (indexer.parseStep state job key).2 = after at hadvance hstep
  cases hstep with
  | parse htally hnext =>
      rcases hnext with ⟨unit, record, rfl, -, -⟩ | ⟨result, rfl, hwithout⟩
      · -- a record is left to be written
        cases hput : indexer.cache.put state.cache key job.file record.toBytes with
        | error fault =>
            rw [indexFile_of_ended ((hadvance 1).trans (by
              rw [advanceBy_succ, advance, persistStep, hput]; rfl))]
            exact .refused hkey hmiss hstage hput
        | ok cache =>
            rw [indexFile_of_ended ((hadvance 1).trans (by
              rw [advanceBy_succ, advance, persistStep, hput]; rfl))]
            exact .stored hkey hmiss hstage hput
      · rw [indexFile_of_ended (hadvance 0)]
        exact .parsed hkey hmiss hstage hwithout

/-- A file whose key cannot be derived ends at once. -/
theorem indexFile_of_no_key {fault : IoFault}
    (hderived : indexer.options.keyStrategy.derive state.files job.file job.flags = .error fault) :
    indexer.indexFile state job = (.failed (.unreadable job.file fault), state) := by
  have hended : indexer.advanceBy job 0 (indexer.firstStage state.files job) state =
      (.ended (.failed (.unreadable job.file fault)), state) := by
    rw [firstStage, hderived]
    rfl
  exact indexFile_of_ended hended

theorem ends_indexFile (indexer : Indexer σ) (job : Job) (state : IndexState σ) :
    Ends indexer job state (indexer.indexFile state job).1 (indexer.indexFile state job).2 := by
  cases hderived : indexer.options.keyStrategy.derive state.files job.file job.flags with
  | error fault =>
      rw [indexFile_of_no_key hderived]
      exact .unreadable hderived
  | ok key =>
      have hkey : indexer.key? state.files job = some key := by
        rw [key?, hderived]
        rfl
      cases hrecord : indexer.cache.record? state.cache key with
      | none => exact ends_of_miss hkey hrecord
      | some record =>
          obtain ⟨hhas, bytes, hget, hbytes⟩ := Cache.record?_eq_some_iff.mp hrecord
          rw [indexFile_of_present hkey hhas hget hbytes]
          cases hrestored : (deserialize indexer.scratch state.files record.savedTree).1 with
          | ok tree => exact .hit hkey hrecord hrestored
          | error fault => exact .unrestored hkey hrecord hrestored

/-! ## Writes -/

/-- **A file is written at most once, and only as a whole.**  A file that ends without
a record has the cache asked to write nothing and leaves it as it was.  A file that ends
with a record has the cache asked once, to write the bytes of this record under the key
of the file; whether the record counts as persisted is what the cache answered, and the
cache is what this one write has made of it. -/
theorem indexFile_writes_once (indexer : Indexer σ) (state : IndexState σ) (job : Job) :
    match indexer.indexFile state job with
    | (.done (.indexed record persisted), after) =>
      ∃ key, indexer.key? state.files job = some key ∧
        after.puts = (key, job.file, record.toBytes) :: state.puts ∧
        (match indexer.cache.put state.cache key job.file record.toBytes with
          | .ok cache => persisted = true ∧ after.cache = cache
          | .error _ => persisted = false ∧ after.cache = state.cache) ∧
        (indexer.cache.KeepsOthers → ∀ other, other ≠ key →
          indexer.cache.has after.cache other = indexer.cache.has state.cache other ∧
            indexer.cache.get after.cache other = indexer.cache.get state.cache other)
    | (.done .cacheHit, after) | (.failed _, after) | (.crashed, after) =>
      after.puts = state.puts ∧ after.cache = state.cache := by
  have hends := indexer.ends_indexFile job state
  generalize indexer.indexFile state job = ended at hends ⊢
  obtain ⟨result, after⟩ := ended
  cases hends with
  | unreadable hkey => exact ⟨rfl, rfl⟩
  | hit hkey hrecord htree => exact ⟨rfl, rfl⟩
  | unrestored hkey hrecord hfault => exact ⟨rfl, rfl⟩
  | parsed hkey hmiss hparse hwithout =>
      cases result with
      | failed fault => exact ⟨rfl, rfl⟩
      | crashed => exact ⟨rfl, rfl⟩
      | done outcome =>
          cases outcome with
          | cacheHit => exact ⟨rfl, rfl⟩
          | indexed record persisted => exact absurd rfl (hwithout record persisted)
  | @refused key record tally fault hkey hmiss hparse hput =>
      refine ⟨key, hkey, rfl, ?_, fun _ _ _ => ⟨rfl, rfl⟩⟩
      rw [hput]
      exact ⟨rfl, rfl⟩
  | @stored key record tally cache hkey hmiss hparse hput =>
      refine ⟨key, hkey, rfl, ?_, fun hkeeps other hother => hkeeps _ _ _ _ _ _ hput hother⟩
      rw [hput]
      exact ⟨rfl, rfl⟩

theorem indexFile_writes_once_callSample :
    ∃ after, (Store.callSample "f.c").indexer.indexFile
        ((Store.callSample "f.c").start Store.fresh) (Store.callSample "f.c").job =
          (.done (.indexed Attempt.recordSample true), after) ∧
      after.puts = [(.ofPath "f.c", "f.c", Attempt.recordSample.toBytes)] ∧
      ∀ other, other ≠ .ofPath "f.c" → after.cache.get other = Store.fresh.get other := by
  have hresult : ((Store.callSample "f.c").indexer.indexFile
      ((Store.callSample "f.c").start Store.fresh) (Store.callSample "f.c").job).1 =
        .done (.indexed Attempt.recordSample true) := by
    decide +kernel
  -- with the call in view, the type of the theorem would be evaluated
  generalize hindexer : (Store.callSample "f.c").indexer = indexer at hresult ⊢
  generalize hstate : (Store.callSample "f.c").start Store.fresh = state at hresult ⊢
  have honce := indexFile_writes_once indexer state (Store.callSample "f.c").job
  cases hfile : indexer.indexFile state (Store.callSample "f.c").job with
  | mk result after =>
      rw [hfile] at hresult honce
      obtain rfl : result = .done (.indexed Attempt.recordSample true) := hresult
      obtain ⟨key, hkey, hputs, -, hothers⟩ := honce
      subst hindexer hstate
      obtain rfl : CacheKey.ofPath "f.c" = key := Option.some.inj hkey
      refine ⟨after, rfl, hputs, fun other hother => ?_⟩
      exact (hothers (Cache.keyedBy_ofStore 0).keepsOthers other hother).2

/-! ## Caches without a record -/

/-- The same answer, up to whether the cache took the record. -/
inductive SameAnswer : Outcome IndexFault FileOutcome → Outcome IndexFault FileOutcome → Prop
  | same (result : Outcome IndexFault FileOutcome) : SameAnswer result result
  | flag (record : Record) (first second : Bool) :
      SameAnswer (.done (.indexed record first)) (.done (.indexed record second))

theorem SameAnswer.done_iff {first second : Outcome IndexFault FileOutcome}
    (hsame : SameAnswer first second) :
    (∃ outcome, first = .done outcome) ↔ ∃ outcome, second = .done outcome := by
  cases hsame with
  | same => rfl
  | flag => simp

/-- A file without a record is parsed once and ends as its parse has it. -/
theorem indexFile_of_miss (hkey : indexer.key? state.files job = some key)
    (hmiss : indexer.cache.record? state.cache key = none) :
    (indexer.indexFile state job).2.parses = job :: state.parses ∧
      ((indexer.parseStep state job key).1 = .ended (indexer.indexFile state job).1 ∨
        ∃ record persisted, (indexer.parseStep state job key).1 = .persist key record ∧
          (indexer.indexFile state job).1 = .done (.indexed record persisted)) := by
  have hends := indexer.ends_indexFile job state
  generalize (indexer.indexFile state job).1 = result at hends
  generalize (indexer.indexFile state job).2 = after at hends
  have hsame : ∀ {own : CacheKey}, indexer.key? state.files job = some own → key = own :=
    fun hown => Option.some.inj (hkey.symm.trans hown)
  have hnone : ∀ {own : CacheKey} {record : Record}, indexer.key? state.files job = some own →
      indexer.cache.record? state.cache own ≠ some record := by
    intro own record hown hrecord
    rw [← hsame hown, hmiss] at hrecord
    cases hrecord
  cases hends with
  | unreadable hderived =>
      rw [key?, hderived] at hkey
      cases hkey
  | hit hown hrecord htree => exact absurd hrecord (hnone hown)
  | unrestored hown hrecord hfault => exact absurd hrecord (hnone hown)
  | parsed hown hmiss hparse hwithout =>
      obtain rfl := hsame hown
      exact ⟨rfl, .inl hparse⟩
  | refused hown hmiss hparse hput =>
      obtain rfl := hsame hown
      exact ⟨rfl, .inr ⟨_, _, hparse, rfl⟩⟩
  | stored hown hmiss hparse hput =>
      obtain rfl := hsame hown
      exact ⟨rfl, .inr ⟨_, _, hparse, rfl⟩⟩

/-- On caches without a record a file ends alike, whatever the caches are. -/
theorem sameAnswer_of_miss {other : Cache τ} {first : IndexState σ} {second : IndexState τ}
    (hfiles : first.files = second.files)
    (hfirst : ∀ key ∈ indexer.key? first.files job, indexer.cache.record? first.cache key = none)
    (hsecond : ∀ key ∈ indexer.key? first.files job, other.record? second.cache key = none) :
    SameAnswer (indexer.indexFile first job).1
      ((indexer.withCache other).indexFile second job).1 := by
  cases hderived : indexer.options.keyStrategy.derive first.files job.file job.flags with
  | error fault =>
      have hother : (indexer.withCache other).options.keyStrategy.derive second.files job.file
          job.flags = .error fault := by
        rw [← hfiles]
        exact hderived
      rw [indexFile_of_no_key hderived, indexFile_of_no_key hother]
      exact .same _
  | ok key =>
      have hkey : indexer.key? first.files job = some key := by
        rw [key?, hderived]
        rfl
      have hother : (indexer.withCache other).key? second.files job = some key := by
        rw [← hfiles]
        exact hkey
      have hparse := parseStep_alike hfiles indexer other job key
      obtain ⟨-, hone⟩ := indexFile_of_miss hkey (hfirst key hkey)
      obtain ⟨-, htwo⟩ := indexFile_of_miss hother (hsecond key hkey)
      rw [← hparse] at htwo
      rcases hone with hended | ⟨record, persisted, hpersist, hresult⟩
      · rcases htwo with hsame | ⟨record, persisted, hpersist, -⟩
        · rw [hended, IndexStage.ended.injEq] at hsame
          rw [hsame]
          exact .same _
        · rw [hended] at hpersist
          cases hpersist
      · rcases htwo with hended | ⟨again, taken, hsame, hagain⟩
        · rw [hpersist] at hended
          cases hended
        · rw [hpersist, IndexStage.persist.injEq] at hsame
          obtain ⟨-, rfl⟩ := hsame
          rw [hresult, hagain]
          exact .flag record persisted taken

/-- **Trouble with a cache is a miss.**  Let a second cache yield no record under the
key of a file.  If the first one yields none either, whether it lacks the key, cannot
be read or has no record there, the file has the same answer on both, up to whether the
record was taken, and with a key it is parsed once on each.  And a file that ends well
on the second cache and not on the first has a record on the first that cannot be
restored; then it was not parsed, and nothing has changed. -/
theorem indexFile_without_record {other : Cache τ} {first : IndexState σ} {second : IndexState τ}
    (hfiles : first.files = second.files)
    (hsecond : ∀ key ∈ indexer.key? first.files job, other.record? second.cache key = none) :
    ((∀ key ∈ indexer.key? first.files job, indexer.cache.record? first.cache key = none) →
      SameAnswer (indexer.indexFile first job).1
        ((indexer.withCache other).indexFile second job).1 ∧
      ∀ key ∈ indexer.key? first.files job,
        (indexer.indexFile first job).2.parses = job :: first.parses ∧
          ((indexer.withCache other).indexFile second job).2.parses = job :: second.parses) ∧
    ((¬∃ outcome, (indexer.indexFile first job).1 = .done outcome) →
      (∃ outcome, ((indexer.withCache other).indexFile second job).1 = .done outcome) →
      ∃ key record fault, indexer.key? first.files job = some key ∧
        indexer.cache.record? first.cache key = some record ∧
        (deserialize indexer.scratch first.files record.savedTree).1 = .error fault ∧
        indexer.indexFile first job = (.failed (.codec fault), first)) := by
  refine ⟨fun hfirst => ⟨sameAnswer_of_miss hfiles hfirst hsecond, fun key hkey => ⟨?_, ?_⟩⟩, ?_⟩
  · exact (indexFile_of_miss hkey (hfirst key hkey)).1
  · have hother : (indexer.withCache other).key? second.files job = some key := by
      rw [← hfiles]
      exact hkey
    exact (indexFile_of_miss hother (hsecond key hkey)).1
  · intro hfails hdone
    by_cases hmiss : ∀ key ∈ indexer.key? first.files job,
        indexer.cache.record? first.cache key = none
    · -- without a record the first cache would have had the answer of the second
      exact absurd ((sameAnswer_of_miss hfiles hmiss hsecond).done_iff.mpr hdone) hfails
    · push Not at hmiss
      obtain ⟨key, hkey, hsome⟩ := hmiss
      obtain ⟨record, hrecord⟩ := Option.ne_none_iff_exists'.mp hsome
      obtain ⟨hhas, bytes, hget, hbytes⟩ := Cache.record?_eq_some_iff.mp hrecord
      have hpresent := indexFile_of_present hkey hhas hget hbytes
      cases hrestored : (deserialize indexer.scratch first.files record.savedTree).1 with
      | ok tree =>
          rw [hrestored] at hpresent
          exact absurd ⟨_, congrArg Prod.fst hpresent⟩ hfails
      | error fault =>
          rw [hrestored] at hpresent
          exact ⟨key, record, fault, hkey, hrecord, hrestored, hpresent⟩

/-- A cache that has one value under all keys and takes no other. -/
def fixedSample (value : Bytes) : Cache Unit where
  has := fun _ _ => .ok true
  get := fun _ _ => .ok value
  put := fun _ _ _ _ => .error .noTable

/-- A file is indexed with a cache in an empty state. -/
def stateSample (σ : Type) [Inhabited σ] : IndexState σ where
  files := (Store.callSample "f.c").files
  cache := default

/-- A record that cannot be restored. -/
def unrestorableSample : Bytes :=
  ({ path := "f.c", savedTree := [1] } : Record).toBytes

/-- An indexer of the file with a cache. -/
def indexerSample {σ : Type} (cache : Cache σ) : Indexer σ :=
  (Store.callSample "f.c").indexer.withCache cache

theorem indexFile_without_record_fixedSample :
    SameAnswer
        ((indexerSample (fixedSample [1])).indexFile (stateSample Unit)
          (Store.callSample "f.c").job).1
        ((indexerSample Memory.cache).indexFile (stateSample Memory)
          (Store.callSample "f.c").job).1 ∧
      ∃ fault, (indexerSample (fixedSample unrestorableSample)).indexFile (stateSample Unit)
        (Store.callSample "f.c").job = (.failed (.codec fault), stateSample Unit) := by
  have hjunk : (Record.ofBytes [1]).toOption = none := by decide +kernel
  have hempty : ∀ key ∈ (Store.callSample "f.c").indexer.key? (Store.callSample "f.c").files
      (Store.callSample "f.c").job, Memory.cache.record? (stateSample Memory).cache key = none :=
    fun _ _ => rfl
  have hfailed : ((indexerSample (fixedSample unrestorableSample)).indexFile (stateSample Unit)
      (Store.callSample "f.c").job).1 =
        .failed (.codec (.unit (.malformed "/tmp/restore-aaaaaa.ast" .missingHeader))) := by
    decide +kernel
  have hdone : ((indexerSample Memory.cache).indexFile (stateSample Memory)
      (Store.callSample "f.c").job).1 = .done (.indexed Attempt.recordSample true) := by
    decide +kernel
  have hpassed := @indexFile_without_record _ _ (indexerSample (fixedSample [1])) _ Memory.cache
    (stateSample Unit) (stateSample Memory) rfl hempty
  have hstopped := @indexFile_without_record _ _ (indexerSample (fixedSample unrestorableSample)) _
    Memory.cache (stateSample Unit) (stateSample Memory) rfl hempty
  have hnever : ¬∃ outcome, ((indexerSample (fixedSample unrestorableSample)).indexFile
      (stateSample Unit) (Store.callSample "f.c").job).1 = .done outcome := by
    rintro ⟨outcome, houtcome⟩
    rw [hfailed] at houtcome
    cases houtcome
  obtain ⟨key, record, fault, -, -, -, hfile⟩ := hstopped.2 hnever ⟨_, hdone⟩
  exact ⟨(hpassed.1 fun _ _ => hjunk).1, fault, hfile⟩

end Indexer
end SourceIndex
