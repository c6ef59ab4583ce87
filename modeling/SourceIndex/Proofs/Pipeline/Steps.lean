import SourceIndex.Pipeline.Index
import SourceIndex.Proofs.Pipeline.Unit
import SourceIndex.Proofs.Record.Tally
import SourceIndex.Proofs.Store.Slot

/-!
# What the steps of a file read and change

`Indexer.Advances` says what a step can do: how the stage moves on, that nothing but
the log, the tally and the cache changes, and that the cache changes by the one
write of a record.  What a file leaves alone follows from it: all files, and
everything under other keys than its own (`Indexer.under`), in the cache and in the
log.

For the converse, what a file depends on, the cache must be keyed
(`Cache.KeyedBy`): what stands under a key is all that an operation on the key reads
and changes.  Then a step does the same in all states that agree on the files and on
the key of the file (`Indexer.advance_alike`).  The tally need NOT agree; no outcome
depends on it.
-/

namespace SourceIndex

/-! ## Keyed caches -/

/-- Operations on different keys are independent.  What an operation answers and
leaves under its key depends on nothing but what was under the key (`slot`), and it
leaves other keys alone. -/
structure Cache.KeyedBy {σ τ : Type} (cache : Cache σ) (slot : σ → CacheKey → τ) : Prop where
  has_eq : ∀ {first second : σ} {key : CacheKey}, slot first key = slot second key →
    cache.has first key = cache.has second key
  get_eq : ∀ {first second : σ} {key : CacheKey}, slot first key = slot second key →
    cache.get first key = cache.get second key
  put_eq : ∀ {first second : σ} {key : CacheKey} (path : String) (value : Bytes),
    slot first key = slot second key →
    (cache.put first key path value).map (slot · key) =
      (cache.put second key path value).map (slot · key)
  put_other : ∀ {before after : σ} {key other : CacheKey} {path : String} {value : Bytes},
    cache.put before key path value = .ok after → other ≠ key → slot after other = slot before other

theorem Cache.keyedBy_ofStore (now : Int) : (Cache.ofStore now).KeyedBy Store.slot where
  has_eq := by
    intro first second key hslot
    change first.has key = second.has key
    rw [Store.has_eq_slot, Store.has_eq_slot, hslot]
  get_eq := by
    intro first second key hslot
    change first.get key = second.get key
    rw [Store.get_eq_slot, Store.get_eq_slot, hslot]
  put_eq := by
    intro first second key path value hslot
    change (first.put key path value now).map (Store.slot · key) =
      (second.put key path value now).map (Store.slot · key)
    rw [Store.put_eq_slot, Store.put_eq_slot, hslot]
  put_other := fun hput hother => Store.slot_put_of_ne hput hother

/-! ## Stages -/

namespace IndexStage

/-- The key that a file still works with. -/
def key? : IndexStage → Option CacheKey
  | .lookup key | .fetch key | .parse key | .persist key _ => some key
  | .ended _ => none

/-- What the next step of a file puts into the log. -/
def actions (job : Job) : IndexStage → List IndexAction
  | .parse _ => [.parse job]
  | .persist key record => [.put key job.file record.toBytes]
  | .lookup _ | .fetch _ | .ended _ => []

/-- The number of steps that a file may still need. -/
def rank : IndexStage → Nat
  | .lookup _ => 4
  | .fetch _ => 3
  | .parse _ => 2
  | .persist _ _ => 1
  | .ended _ => 0

/-- A file has ended, and not with a record. -/
def EndedWithout (stage : IndexStage) : Prop :=
  ∃ result, stage = .ended result ∧ ∀ record persisted, result ≠ .done (.indexed record persisted)

theorem EndedWithout.failed (fault : IndexFault) : EndedWithout (.ended (.failed fault)) :=
  ⟨_, rfl, by nofun⟩

theorem EndedWithout.crashed : EndedWithout (.ended .crashed) :=
  ⟨_, rfl, by nofun⟩

theorem EndedWithout.cacheHit : EndedWithout (.ended (.done .cacheHit)) :=
  ⟨_, rfl, by nofun⟩

theorem exists_ended_of_rank {stage : IndexStage} (hrank : stage.rank = 0) :
    ∃ result, stage = .ended result := by
  cases stage with
  | ended result => exact ⟨result, rfl⟩
  | _ => cases hrank

end IndexStage

namespace Indexer

variable {σ τ : Type} {indexer : Indexer σ} {job : Job} {stage : IndexStage}
  {state : IndexState σ}

/-- The key of a file, if it can be derived. -/
def key? (indexer : Indexer σ) (files : FileTree) (job : Job) : Option CacheKey :=
  (indexer.options.keyStrategy.derive files job.file job.flags).toOption

@[simp] theorem key?_firstStage (indexer : Indexer σ) (files : FileTree) (job : Job) :
    (indexer.firstStage files job).key? = indexer.key? files job := by
  unfold firstStage key?
  cases indexer.options.keyStrategy.derive files job.file job.flags <;> rfl

/-- A file that has a key starts with it. -/
theorem firstStage_of_key? {files : FileTree} {key : CacheKey}
    (hkey : key ∈ indexer.key? files job) : indexer.firstStage files job = .lookup key := by
  unfold key? at hkey
  unfold firstStage
  cases hderived : indexer.options.keyStrategy.derive files job.file job.flags with
  | error fault =>
      rw [hderived] at hkey
      cases hkey
  | ok derived =>
      rw [hderived] at hkey
      cases hkey
      rfl

/-- The same indexer on another cache. -/
def withCache (indexer : Indexer σ) (cache : Cache τ) : Indexer τ where
  parser := indexer.parser
  cache := cache
  options := indexer.options
  scratch := indexer.scratch

/-- The names that the parse of a file counts. -/
def ignoredNames (indexer : Indexer σ) (files : FileTree) (job : Job) : List String :=
  match indexer.parser files job indexer.options.parsing with
  | .done unit => unit.tree.ignoredNames job.file job.flags
  | .failed _ | .crashed => []

/-- What one step of a file can do. -/
inductive Advances (indexer : Indexer σ) (job : Job) (state : IndexState σ) :
    IndexStage → IndexStage → IndexState σ → Prop
  | lookup {key : CacheKey} {next : IndexStage} (hnext : next = .fetch key ∨ next = .parse key) :
      Advances indexer job state (.lookup key) next state
  | fetch {key : CacheKey} {next : IndexStage}
      (hnext : next = .parse key ∨ next.EndedWithout) :
      Advances indexer job state (.fetch key) next state
  | parse {key : CacheKey} {next : IndexStage} {tally : Option Tally}
      (htally : tally = state.tally.map (·.countAll (indexer.ignoredNames state.files job)))
      (hnext : (∃ unit record, next = .persist key record ∧
        indexer.parser state.files job indexer.options.parsing = .done unit ∧
        record.savedTree = unit.tree.toBytes) ∨ next.EndedWithout) :
      Advances indexer job state (.parse key) next
        { state with log := .parse job :: state.log, tally }
  | refused {key : CacheKey} {record : Record} {fault : StoreFault}
      (hput : indexer.cache.put state.cache key job.file record.toBytes = .error fault) :
      Advances indexer job state (.persist key record) (.ended (.done (.indexed record false)))
        { state with log := .put key job.file record.toBytes :: state.log }
  | stored {key : CacheKey} {record : Record} {cache : σ}
      (hput : indexer.cache.put state.cache key job.file record.toBytes = .ok cache) :
      Advances indexer job state (.persist key record) (.ended (.done (.indexed record true)))
        { state with log := .put key job.file record.toBytes :: state.log, cache }
  | ended (result : Outcome IndexFault FileOutcome) :
      Advances indexer job state (.ended result) (.ended result) state

theorem advances_fetchStep (indexer : Indexer σ) (job : Job) (state : IndexState σ)
    (key : CacheKey) :
    Advances indexer job state (.fetch key) (indexer.fetchStep state key).1
      (indexer.fetchStep state key).2 := by
  unfold fetchStep
  split
  · exact .fetch (.inl rfl)
  split
  · exact .fetch (.inl rfl)
  dsimp only
  rw [deserialize_files]
  split
  · exact .fetch (.inr (.failed _))
  · exact .fetch (.inr .cacheHit)

/-- A record is made of a unit that was saved. -/
theorem afterParse_cases (key : CacheKey) (saved : Outcome CodecFault Bytes) (record : Record)
    (walk : WalkEnd) :
    (∃ bytes, saved = .done bytes ∧
      afterParse key saved record walk = .persist key { record with savedTree := bytes }) ∨
      (afterParse key saved record walk).EndedWithout := by
  unfold afterParse
  split
  · split
    · exact .inr (.failed _)
    · exact .inr (.failed _)
    · exact .inl ⟨_, rfl, rfl⟩
  · exact .inr .crashed

theorem advances_parseStep (indexer : Indexer σ) (job : Job) (state : IndexState σ)
    (key : CacheKey) :
    Advances indexer job state (.parse key) (indexer.parseStep state job key).1
      (indexer.parseStep state job key).2 := by
  unfold parseStep
  dsimp only
  split
  next hparse => exact .parse (by simp [ignoredNames, hparse]) (.inr (.failed _))
  next hparse => exact .parse (by simp [ignoredNames, hparse]) (.inr .crashed)
  next unit hparse =>
    dsimp only
    rw [serialize_files]
    refine .parse (by rw [tally_extract, ignoredNames, hparse]) ?_
    rcases afterParse_cases key (serialize indexer.scratch state.files unit).1
        (extract unit.tree job.file job.flags state.tally).1.record
        (extract unit.tree job.file job.flags state.tally).2 with ⟨bytes, hsaved, hstage⟩ | hended
    · exact .inl ⟨unit, _, hstage, hparse, eq_toBytes_of_serialize hsaved⟩
    · exact .inr hended

theorem advances_advance (indexer : Indexer σ) (job : Job) (stage : IndexStage)
    (state : IndexState σ) :
    Advances indexer job state stage (indexer.advance job stage state).1
      (indexer.advance job stage state).2 := by
  cases stage with
  | lookup key =>
      refine .lookup ?_
      unfold advance lookupStep
      dsimp only
      split
      · exact .inl rfl
      · exact .inr rfl
      · exact .inr rfl
  | fetch key => exact indexer.advances_fetchStep job state key
  | parse key => exact indexer.advances_parseStep job state key
  | persist key record =>
      unfold advance persistStep
      dsimp only
      split
      next hput => exact .refused hput
      next hput => exact .stored hput
  | ended result => exact .ended result

namespace Advances

variable {next : IndexStage} {after : IndexState σ}

theorem files_eq (hstep : Advances indexer job state stage next after) :
    after.files = state.files := by
  cases hstep <;> rfl

theorem key?_of_mem (hstep : Advances indexer job state stage next after) {key : CacheKey}
    (hkey : key ∈ next.key?) : key ∈ stage.key? := by
  cases hstep with
  | lookup hnext => rcases hnext with rfl | rfl <;> exact hkey
  | fetch hnext =>
      rcases hnext with rfl | ⟨result, rfl, -⟩
      · exact hkey
      · cases hkey
  | parse htally hnext =>
      rcases hnext with ⟨unit, record, rfl, -⟩ | ⟨result, rfl, -⟩
      · exact hkey
      · cases hkey
  | refused hput => cases hkey
  | stored hput => cases hkey
  | ended result => exact hkey

theorem rank_le (hstep : Advances indexer job state stage next after) :
    next.rank ≤ stage.rank - 1 := by
  cases hstep with
  | lookup hnext => rcases hnext with rfl | rfl <;> simp [IndexStage.rank]
  | fetch hnext => rcases hnext with rfl | ⟨result, rfl, -⟩ <;> simp [IndexStage.rank]
  | parse htally hnext =>
      rcases hnext with ⟨unit, record, rfl, -⟩ | ⟨result, rfl, -⟩ <;> simp [IndexStage.rank]
  | refused hput => simp [IndexStage.rank]
  | stored hput => simp [IndexStage.rank]
  | ended result => simp [IndexStage.rank]

/-- A step that is not the write of a record leaves the cache as it was. -/
theorem cache_eq (hstep : Advances indexer job state stage next after)
    (hwrite : ∀ key record, stage ≠ .persist key record) : after.cache = state.cache := by
  cases hstep with
  | stored hput => exact absurd rfl (hwrite _ _)
  | _ => rfl

/-- A step leaves alone what is under keys that the file does not work with. -/
theorem slot_eq {slot : σ → CacheKey → τ} (hkeyed : indexer.cache.KeyedBy slot)
    (hstep : Advances indexer job state stage next after) {key : CacheKey}
    (hkey : key ∉ stage.key?) : slot after.cache key = slot state.cache key := by
  cases hstep with
  | stored hput =>
      refine hkeyed.put_other hput ?_
      rintro rfl
      exact hkey rfl
  | _ => rfl

theorem log_eq (hstep : Advances indexer job state stage next after) :
    after.log = stage.actions job ++ state.log := by
  cases hstep <;> rfl

end Advances

/-! ## Keys -/

/-- The key that an action is about. -/
def keyOf? (indexer : Indexer σ) (files : FileTree) : IndexAction → Option CacheKey
  | .parse job => indexer.key? files job
  | .put key _ _ => some key

/-- All there is to a key: what the cache has under it, and what was done about it. -/
def under (indexer : Indexer σ) (slot : σ → CacheKey → τ) (files : FileTree)
    (state : IndexState σ) (key : CacheKey) : τ × List IndexAction :=
  (slot state.cache key, state.log.filter fun action => indexer.keyOf? files action == some key)

/-- A file works with its own key only. -/
def Owns (indexer : Indexer σ) (files : FileTree) (job : Job) (stage : IndexStage) : Prop :=
  ∀ key ∈ stage.key?, key ∈ indexer.key? files job

theorem owns_firstStage (indexer : Indexer σ) (files : FileTree) (job : Job) :
    indexer.Owns files job (indexer.firstStage files job) := by
  intro key hkey
  rwa [key?_firstStage] at hkey

variable {slot : σ → CacheKey → τ} {files : FileTree}

theorem mem_log_iff_of_under {first second : IndexState σ} {key : CacheKey}
    (hunder : indexer.under slot files first key = indexer.under slot files second key)
    {action : IndexAction} (habout : indexer.keyOf? files action = some key) :
    action ∈ first.log ↔ action ∈ second.log := by
  have hown : ∀ log : List IndexAction, action ∈ log ↔
      action ∈ log.filter fun action => indexer.keyOf? files action == some key := by
    simp [habout]
  rw [hown first.log, hown second.log, (Prod.mk.inj hunder).2]

/-- What a file does is about its own key. -/
theorem Owns.keyOf?_actions (hown : indexer.Owns files job stage) {action : IndexAction}
    (haction : action ∈ stage.actions job) :
    ∃ key ∈ indexer.key? files job, indexer.keyOf? files action = some key := by
  cases stage with
  | parse key =>
      rw [List.mem_singleton.mp haction]
      exact ⟨key, hown key rfl, hown key rfl⟩
  | persist key record =>
      rw [List.mem_singleton.mp haction]
      exact ⟨key, hown key rfl, rfl⟩
  | _ => cases haction

namespace Advances

variable {next : IndexStage} {after : IndexState σ}

theorem owns (hstep : Advances indexer job state stage next after)
    (hown : indexer.Owns files job stage) : indexer.Owns files job next :=
  fun key hkey => hown key (hstep.key?_of_mem hkey)

/-- A step leaves alone all that is under other keys than the file's. -/
theorem under_eq (hkeyed : indexer.cache.KeyedBy slot)
    (hstep : Advances indexer job state stage next after) (hown : indexer.Owns files job stage)
    {key : CacheKey} (hkey : key ∉ indexer.key? files job) :
    indexer.under slot files after key = indexer.under slot files state key := by
  have hnone : (stage.actions job).filter (indexer.keyOf? files · == some key) = [] := by
    rw [List.filter_eq_nil_iff]
    intro action haction hsame
    obtain ⟨own, hmem, habout⟩ := hown.keyOf?_actions haction
    rw [beq_iff_eq, habout, Option.some.injEq] at hsame
    subst hsame
    exact hkey hmem
  rw [under, under, hstep.slot_eq hkeyed fun hmem => hkey (hown key hmem), hstep.log_eq,
    List.filter_append, hnone, List.nil_append]

end Advances

/-! ## What a step depends on -/

/-- A fetch does the same wherever the files and the answers of the cache are. -/
theorem fetchStep_alike {first second : IndexState σ} (hfiles : first.files = second.files)
    {key : CacheKey}
    (hget : indexer.cache.get first.cache key = indexer.cache.get second.cache key) :
    (indexer.fetchStep first key).1 = (indexer.fetchStep second key).1 := by
  unfold fetchStep
  rw [hget, hfiles]
  split
  · rfl
  split
  · rfl
  dsimp only
  split <;> rfl

/-- A parse does the same wherever the files are the same, whatever the cache is. -/
theorem parseStep_alike {first : IndexState σ} {second : IndexState τ}
    (hfiles : first.files = second.files) (indexer : Indexer σ) (other : Cache τ) (job : Job)
    (key : CacheKey) :
    (indexer.parseStep first job key).1 =
      ((indexer.withCache other).parseStep second job key).1 := by
  unfold parseStep withCache
  dsimp only
  rw [hfiles]
  cases indexer.parser second.files job indexer.options.parsing with
  | failed fault => rfl
  | crashed => rfl
  | done unit =>
      dsimp only
      obtain ⟨hrecord, hend⟩ := extract_alike unit.tree job.file job.flags first.tally second.tally
      rw [hrecord, hend]

/-- A write leaves the same under its key wherever the same was there. -/
theorem persistStep_alike (hkeyed : indexer.cache.KeyedBy slot) {first second : IndexState σ}
    {key : CacheKey} (hslot : slot first.cache key = slot second.cache key) (job : Job)
    (record : Record) :
    (indexer.persistStep first job key record).1 = (indexer.persistStep second job key record).1 ∧
      slot (indexer.persistStep first job key record).2.cache key =
        slot (indexer.persistStep second job key record).2.cache key := by
  have hput := hkeyed.put_eq job.file record.toBytes hslot
  unfold persistStep
  dsimp only
  cases hfirst : indexer.cache.put first.cache key job.file record.toBytes with
  | error fault =>
      cases hsecond : indexer.cache.put second.cache key job.file record.toBytes with
      | error other => exact ⟨rfl, hslot⟩
      | ok after =>
          rw [hfirst, hsecond] at hput
          cases hput
  | ok after =>
      cases hsecond : indexer.cache.put second.cache key job.file record.toBytes with
      | error other =>
          rw [hfirst, hsecond] at hput
          cases hput
      | ok other =>
          rw [hfirst, hsecond] at hput
          exact ⟨rfl, Except.ok.inj hput⟩

/-- Caches that agree on the key of a file agree after its step on every key on which
they agreed before, and the file does the same in both. -/
theorem advance_slot_alike (hkeyed : indexer.cache.KeyedBy slot)
    {first second : IndexState σ} (hfiles : first.files = second.files)
    (hslot : ∀ key ∈ stage.key?, slot first.cache key = slot second.cache key) (job : Job) :
    (indexer.advance job stage first).1 = (indexer.advance job stage second).1 ∧
      ∀ key, slot first.cache key = slot second.cache key →
        slot (indexer.advance job stage first).2.cache key =
          slot (indexer.advance job stage second).2.cache key := by
  have hfirst := indexer.advances_advance job stage first
  have hsecond := indexer.advances_advance job stage second
  cases stage with
  | lookup key =>
      refine ⟨?_, fun _ hagree => hagree⟩
      simp only [advance, lookupStep]
      rw [hkeyed.has_eq (hslot key rfl)]
  | fetch key =>
      rw [hfirst.cache_eq (by nofun), hsecond.cache_eq (by nofun)]
      exact ⟨fetchStep_alike hfiles (hkeyed.get_eq (hslot key rfl)), fun _ hagree => hagree⟩
  | parse key =>
      rw [hfirst.cache_eq (by nofun), hsecond.cache_eq (by nofun)]
      exact ⟨parseStep_alike hfiles indexer indexer.cache job key, fun _ hagree => hagree⟩
  | persist key record =>
      obtain ⟨hstage, hafter⟩ := persistStep_alike hkeyed (hslot key rfl) job record
      refine ⟨hstage, fun other hagree => ?_⟩
      by_cases hother : other = key
      · rw [hother]
        exact hafter
      · have hnot : other ∉ (IndexStage.persist key record).key? :=
          fun hmem => hother (Option.mem_some.mp hmem).symm
        rw [hfirst.slot_eq hkeyed hnot, hsecond.slot_eq hkeyed hnot, hagree]
  | ended result => exact ⟨rfl, fun _ hagree => hagree⟩

/-- States that agree on the files and on the key of a file have the file do the
same, and they agree afterwards on every key on which they agreed before. -/
theorem advance_alike (hkeyed : indexer.cache.KeyedBy slot) {first second : IndexState σ}
    (hfiles : first.files = second.files)
    (hunder : ∀ key ∈ stage.key?,
      indexer.under slot files first key = indexer.under slot files second key) (job : Job) :
    (indexer.advance job stage first).1 = (indexer.advance job stage second).1 ∧
      ∀ key, indexer.under slot files first key = indexer.under slot files second key →
        indexer.under slot files (indexer.advance job stage first).2 key =
          indexer.under slot files (indexer.advance job stage second).2 key := by
  obtain ⟨hstage, hslots⟩ := advance_slot_alike hkeyed hfiles
    (fun key hkey => congrArg Prod.fst (hunder key hkey)) job
  refine ⟨hstage, fun key hagree => ?_⟩
  obtain ⟨hslot, hlog⟩ := Prod.mk.inj hagree
  rw [under, under, hslots key hslot, (indexer.advances_advance job stage first).log_eq,
    (indexer.advances_advance job stage second).log_eq, List.filter_append, List.filter_append,
    hlog]

/-! ## Several steps -/

theorem advanceBy_succ (indexer : Indexer σ) (job : Job) (steps : Nat) (stage : IndexStage)
    (state : IndexState σ) :
    indexer.advanceBy job (steps + 1) stage state =
      indexer.advanceBy job steps (indexer.advance job stage state).1
        (indexer.advance job stage state).2 :=
  rfl

theorem advanceBy_add (indexer : Indexer σ) (job : Job) (steps more : Nat) (stage : IndexStage)
    (state : IndexState σ) :
    indexer.advanceBy job (steps + more) stage state =
      indexer.advanceBy job more (indexer.advanceBy job steps stage state).1
        (indexer.advanceBy job steps stage state).2 := by
  induction steps generalizing stage state with
  | zero => rw [Nat.zero_add]; rfl
  | succ steps ih =>
      rw [Nat.add_right_comm, advanceBy_succ, ih]
      rfl

@[simp] theorem advanceBy_ended (indexer : Indexer σ) (job : Job) (steps : Nat)
    (result : Outcome IndexFault FileOutcome) (state : IndexState σ) :
    indexer.advanceBy job steps (.ended result) state = (.ended result, state) := by
  induction steps with
  | zero => rfl
  | succ steps ih => rw [advanceBy_succ]; exact ih

theorem rank_advanceBy (indexer : Indexer σ) (job : Job) (steps : Nat) (stage : IndexStage)
    (state : IndexState σ) :
    (indexer.advanceBy job steps stage state).1.rank ≤ stage.rank - steps := by
  induction steps generalizing stage state with
  | zero => exact Nat.le_refl _
  | succ steps ih =>
      have hstep := (indexer.advances_advance job stage state).rank_le
      have hrest := ih (indexer.advance job stage state).1 (indexer.advance job stage state).2
      rw [advanceBy_succ]
      omega

/-- What holds of the stage and the state and is kept by each step. -/
theorem advanceBy_induct (indexer : Indexer σ) (job : Job)
    (holds : IndexStage → IndexState σ → Prop)
    (hstep : ∀ {stage next : IndexStage} {state after : IndexState σ},
      Advances indexer job state stage next after → holds stage state → holds next after)
    (steps : Nat) (stage : IndexStage) (state : IndexState σ) (hstart : holds stage state) :
    holds (indexer.advanceBy job steps stage state).1
      (indexer.advanceBy job steps stage state).2 := by
  induction steps generalizing stage state with
  | zero => exact hstart
  | succ steps ih => exact ih _ _ (hstep (indexer.advances_advance job stage state) hstart)

theorem advanceBy_alike (hkeyed : indexer.cache.KeyedBy slot) {first second : IndexState σ}
    (hfiles : first.files = second.files)
    (hunder : ∀ key ∈ stage.key?,
      indexer.under slot files first key = indexer.under slot files second key) (job : Job)
    (steps : Nat) :
    (indexer.advanceBy job steps stage first).1 = (indexer.advanceBy job steps stage second).1 ∧
      ∀ key, indexer.under slot files first key = indexer.under slot files second key →
        indexer.under slot files (indexer.advanceBy job steps stage first).2 key =
          indexer.under slot files (indexer.advanceBy job steps stage second).2 key := by
  induction steps generalizing stage first second with
  | zero => exact ⟨rfl, fun _ hagree => hagree⟩
  | succ steps ih =>
      have hstep := indexer.advances_advance job stage first
      obtain ⟨hstage, hafter⟩ := advance_alike hkeyed hfiles hunder job
      have hfilesAfter : (indexer.advance job stage first).2.files =
          (indexer.advance job stage second).2.files := by
        rw [hstep.files_eq, (indexer.advances_advance job stage second).files_eq, hfiles]
      obtain ⟨hstages, hafterAll⟩ := ih hfilesAfter
        fun key hkey => hafter key (hunder key (hstep.key?_of_mem hkey))
      rw [advanceBy_succ, advanceBy_succ, ← hstage]
      exact ⟨hstages, fun key hagree => hafterAll key (hafter key hagree)⟩

/-! ## Whole files -/

theorem rank_firstStage_le (indexer : Indexer σ) (files : FileTree) (job : Job) :
    (indexer.firstStage files job).rank ≤ maxSteps := by
  unfold firstStage
  split
  · exact Nat.zero_le _
  · exact Nat.le_refl _

/-- Every file has ended after the greatest number of steps. -/
theorem advanceBy_maxSteps (indexer : Indexer σ) (state : IndexState σ) (job : Job) :
    indexer.advanceBy job maxSteps (indexer.firstStage state.files job) state =
      (.ended (indexer.indexFile state job).1, (indexer.indexFile state job).2) := by
  have hstart := indexer.rank_firstStage_le state.files job
  have hrank := indexer.rank_advanceBy job maxSteps (indexer.firstStage state.files job) state
  obtain ⟨result, hended⟩ := IndexStage.exists_ended_of_rank
    (Nat.le_zero.mp (Nat.le_trans hrank (Nat.le_of_eq (Nat.sub_eq_zero_of_le hstart))))
  unfold indexFile
  split
  next hresult => exact hresult
  next hother hresult =>
    rw [hresult] at hended
    exact absurd hended (hother result)

/-- However many steps a file takes, it ends as it does when it is indexed at one
go. -/
theorem indexFile_of_ended {steps : Nat} {result : Outcome IndexFault FileOutcome}
    {after : IndexState σ} (hended : indexer.advanceBy job steps
      (indexer.firstStage state.files job) state = (.ended result, after)) :
    indexer.indexFile state job = (result, after) := by
  -- both take the sum of the steps to their own end
  have hmore := indexer.advanceBy_add job steps maxSteps (indexer.firstStage state.files job) state
  have hsame := indexer.advanceBy_add job maxSteps steps (indexer.firstStage state.files job) state
  rw [hended, advanceBy_ended] at hmore
  rw [advanceBy_maxSteps, advanceBy_ended, Nat.add_comm, hmore, Prod.mk.injEq,
    IndexStage.ended.injEq] at hsame
  exact Prod.ext hsame.1.symm hsame.2.symm

/-- A file leaves alone all that is under other keys than its own. -/
theorem under_indexFile (hkeyed : indexer.cache.KeyedBy slot) {key : CacheKey}
    (hkey : key ∉ indexer.key? state.files job) :
    indexer.under slot state.files (indexer.indexFile state job).2 key =
      indexer.under slot state.files state key := by
  have hkept := indexer.advanceBy_induct job
    (fun stage after => indexer.Owns state.files job stage ∧
      indexer.under slot state.files after key = indexer.under slot state.files state key)
    (fun hstep hold => ⟨hstep.owns hold.1, (hstep.under_eq hkeyed hold.1 hkey).trans hold.2⟩)
    maxSteps (indexer.firstStage state.files job) state ⟨owns_firstStage _ _ _, rfl⟩
  rw [advanceBy_maxSteps] at hkept
  exact hkept.2

/-- A file ends the same in all states that agree on the files and on its key. -/
theorem indexFile_alike (hkeyed : indexer.cache.KeyedBy slot) {first second : IndexState σ}
    (hfiles : first.files = second.files)
    (hunder : ∀ key ∈ indexer.key? first.files job,
      indexer.under slot files first key = indexer.under slot files second key) :
    (indexer.indexFile first job).1 = (indexer.indexFile second job).1 ∧
      ∀ key, indexer.under slot files first key = indexer.under slot files second key →
        indexer.under slot files (indexer.indexFile first job).2 key =
          indexer.under slot files (indexer.indexFile second job).2 key := by
  rw [← key?_firstStage] at hunder
  have hboth := advanceBy_alike hkeyed hfiles hunder job maxSteps
  rw [advanceBy_maxSteps, hfiles, advanceBy_maxSteps, IndexStage.ended.injEq] at hboth
  exact hboth

end Indexer
end SourceIndex
