import SourceIndex.Proofs.Pipeline.Run
import SourceIndex.Proofs.Pipeline.Trace

/-!
# Files of a run do not disturb each other

In a run whose files have different keys, every file ends as it would end alone, and
leaves under its key what it would leave there alone, whatever the schedule is.  The
invariant is `Indexer.Isolated`: each file stands where some number of its own steps
from the start of the run takes it (`Indexer.Agrees`), and the numbers are those of
the files whose end was noted.

Two schedules differ in nothing but the order of their actions, and the tally of
unhandled kinds does not show the order (`Indexer.Traced.ranking_eq`).  So the whole
report is the same.

The cache has to be keyed.  What the keys look like does NOT matter, nor what the
parser makes of a file: it may fail, and it may crash.

Two files that share a key may disturb each other: the second one may or may not
find what the first one writes.
-/

namespace SourceIndex

/-! ## The numbers of a run -/

/-- The cache had the file. -/
def FileOutcome.isHit : Outcome IndexFault FileOutcome → Bool
  | .done .cacheHit => true
  | _ => false

/-- The file was parsed. -/
def FileOutcome.isIndexed : Outcome IndexFault FileOutcome → Bool
  | .done (.indexed _ _) => true
  | _ => false

/-- The file was parsed and the cache did not take its record. -/
def FileOutcome.isUnstored : Outcome IndexFault FileOutcome → Bool
  | .done (.indexed _ false) => true
  | _ => false

/-- The file failed or crashed. -/
def FileOutcome.isFailure : Outcome IndexFault FileOutcome → Bool
  | .failed _ | .crashed => true
  | .done _ => false

namespace RunSummary

/-- The numbers of files that ended in these ways. -/
def ofResults (results : Multiset (Outcome IndexFault FileOutcome)) : RunSummary where
  submitted := results.card
  cacheHits := results.countP (FileOutcome.isHit ·)
  indexed := results.countP (FileOutcome.isIndexed ·)
  failed := results.countP (FileOutcome.isFailure ·)
  notPersisted := results.countP (FileOutcome.isUnstored ·)

theorem ofResults_cons (result : Outcome IndexFault FileOutcome)
    (results : Multiset (Outcome IndexFault FileOutcome)) :
    ofResults (result ::ₘ results) = (ofResults results).count result := by
  unfold ofResults
  simp only [Multiset.card_cons, Multiset.countP_cons]
  rcases result with (_ | ⟨record, _ | _⟩) | fault | _ <;> rfl

/-- Counting one file after the other gives the same numbers. -/
theorem foldl_count (results : List (Outcome IndexFault FileOutcome))
    (counted : Multiset (Outcome IndexFault FileOutcome)) :
    results.foldl count (ofResults counted) = ofResults (counted + results) := by
  induction results generalizing counted with
  | nil => simp
  | cons result results ih =>
      rw [List.foldl_cons, ← ofResults_cons, ih, ← Multiset.cons_coe, Multiset.add_cons,
        Multiset.cons_add]

/-- Every file is counted once: as a hit, as indexed or as failed. -/
theorem ofResults_total (results : Multiset (Outcome IndexFault FileOutcome)) :
    (ofResults results).submitted = (ofResults results).cacheHits + (ofResults results).indexed +
        (ofResults results).failed ∧
      (ofResults results).notPersisted ≤ (ofResults results).indexed := by
  induction results using Multiset.induction_on with
  | empty => decide
  | cons result results ih =>
      rw [ofResults_cons]
      rcases result with (_ | ⟨record, _ | _⟩) | fault | _ <;>
        · simp only [count]
          omega

end RunSummary

/-- The end of a file, if it was noted. -/
def Task.result? (task : Task) : Option (Outcome IndexFault FileOutcome) :=
  match task.progress with
  | .counted result => some result
  | _ => none

namespace Indexer.Moves

variable {σ : Type} {indexer : Indexer σ} {run next : RunState σ}

/-- The files of a run stay the same. -/
theorem map_job (hmove : Moves indexer run next) :
    next.tasks.map Task.job = run.tasks.map Task.job := by
  rcases hmove.tasks_cases with ⟨htasks, -⟩ | ⟨task, after, rest, hold, hnew, hwork, -⟩ |
    ⟨job, result, rest, hold, hnew, -⟩
  · rw [htasks]
  · rw [hold, hnew, Multiset.map_cons, Multiset.map_cons, (work?_cases hwork).1]
  · rw [hold, hnew, Multiset.map_cons, Multiset.map_cons]

/-- The numbers of a run stay those of the files whose end was noted. -/
theorem summary_eq (hmove : Moves indexer run next)
    (hsummary : run.summary = RunSummary.ofResults (run.tasks.filterMap Task.result?)) :
    next.summary = RunSummary.ofResults (next.tasks.filterMap Task.result?) := by
  rcases hmove.tasks_cases with ⟨htasks, -, hcounts⟩ |
    ⟨task, after, rest, hold, hnew, hwork, hcounts⟩ |
    ⟨job, result, rest, hold, hnew, -, hcounts⟩
  · rw [hcounts, htasks, hsummary]
  · -- a file that does a step was not noted, neither before nor after
    have hnotNoted : task.result? = none ∧ after.result? = none := by
      obtain ⟨-, ⟨hwaiting, -, hafter⟩ | ⟨stage, hworking, -, hafter, -⟩⟩ := work?_cases hwork
      · simp [Task.result?, hwaiting, hafter]
      · simp [Task.result?, hworking, hafter]
    rw [hcounts, hsummary, hold, hnew, Multiset.filterMap_cons_none _ _ hnotNoted.1,
      Multiset.filterMap_cons_none _ _ hnotNoted.2]
  · have hnoted : Task.result? ⟨job, .counted result⟩ = some result := rfl
    rw [hcounts, hsummary, hold, hnew, Multiset.filterMap_cons_none _ _ rfl,
      Multiset.filterMap_cons_some _ _ _ hnoted, RunSummary.ofResults_cons]

end Indexer.Moves

/-! ## A file and its run alone -/

namespace Indexer

variable {σ τ : Type} {indexer : Indexer σ} {slot : σ → CacheKey → τ} {start : IndexState σ}
  {job : Job} {jobs : List Job}

/-- Some steps from the start take a file, if it is alone, to a stage and leave under
its key what a state has there. -/
def ReachesAlone (indexer : Indexer σ) (slot : σ → CacheKey → τ) (start state : IndexState σ)
    (job : Job) (stage : IndexStage) : Prop :=
  ∃ steps alone, indexer.advanceBy job steps (indexer.firstStage start.files job) start =
      (stage, alone) ∧
    ∀ key ∈ indexer.key? start.files job,
      indexer.under slot start.files state key = indexer.under slot start.files alone key

/-- A file of a run stands where it would stand alone. -/
def Agrees (indexer : Indexer σ) (slot : σ → CacheKey → τ) (start state : IndexState σ)
    (task : Task) : Prop :=
  match task.progress with
  | .waiting => ∀ key ∈ indexer.key? start.files task.job,
    indexer.under slot start.files state key = indexer.under slot start.files start key
  | .working stage => indexer.ReachesAlone slot start state task.job stage
  | .counted result => indexer.ReachesAlone slot start state task.job (.ended result)

/-- What is under other keys does not matter. -/
theorem Agrees.congr {state other : IndexState σ} {task : Task}
    (hagrees : indexer.Agrees slot start state task)
    (hunder : ∀ key ∈ indexer.key? start.files task.job,
      indexer.under slot start.files other key = indexer.under slot start.files state key) :
    indexer.Agrees slot start other task := by
  have hreached : ∀ {stage}, indexer.ReachesAlone slot start state task.job stage →
      indexer.ReachesAlone slot start other task.job stage := by
    rintro stage ⟨steps, alone, hsteps, hsame⟩
    exact ⟨steps, alone, hsteps, fun key hkey => (hunder key hkey).trans (hsame key hkey)⟩
  unfold Agrees at hagrees ⊢
  split
  next hwaiting =>
    rw [hwaiting] at hagrees
    exact fun key hkey => (hunder key hkey).trans (hagrees key hkey)
  next stage hworking =>
    rw [hworking] at hagrees
    exact hreached hagrees
  next result hcounted =>
    rw [hcounted] at hagrees
    exact hreached hagrees

/-- Alone, a file never works with another key than its own, and changes no file. -/
theorem owns_of_advanceBy {steps : Nat} {stage : IndexStage} {alone : IndexState σ}
    (hsteps : indexer.advanceBy job steps (indexer.firstStage start.files job) start =
      (stage, alone)) :
    indexer.Owns start.files job stage ∧ alone.files = start.files := by
  have hkept := indexer.advanceBy_induct job
    (fun stage after => indexer.Owns start.files job stage ∧ after.files = start.files)
    (fun hstep hold => ⟨hstep.owns hold.1, hstep.files_eq.trans hold.2⟩) steps
    (indexer.firstStage start.files job) start ⟨owns_firstStage _ _ _, rfl⟩
  rwa [hsteps] at hkept

/-- One step on from a place that is reached alone leads to such a place. -/
theorem ReachesAlone.advance (hkeyed : indexer.cache.KeyedBy slot) {state : IndexState σ}
    (hfiles : state.files = start.files) {stage : IndexStage}
    (hreached : indexer.ReachesAlone slot start state job stage) :
    indexer.ReachesAlone slot start (indexer.advance job stage state).2 job
      (indexer.advance job stage state).1 := by
  obtain ⟨steps, alone, hsteps, hsame⟩ := hreached
  obtain ⟨hown, haloneFiles⟩ := owns_of_advanceBy hsteps
  obtain ⟨hstage, hafter⟩ := advance_alike hkeyed (hfiles.trans haloneFiles.symm)
    (fun key hkey => hsame key (hown key hkey)) job
  refine ⟨steps + 1, (indexer.advance job stage alone).2, ?_,
    fun key hkey => hafter key (hsame key hkey)⟩
  rw [advanceBy_add, hsteps, hstage]
  rfl

/-- A file that does a step goes on as it would alone, and leaves alone all that is
under other keys. -/
theorem Agrees.work (hkeyed : indexer.cache.KeyedBy slot) {task after : Task}
    {state index : IndexState σ} {added : List IndexAction}
    (htraced : indexer.Traced start state added)
    (hagrees : indexer.Agrees slot start state task)
    (hwork : indexer.work? task state = some (after, index)) :
    indexer.Agrees slot start index after ∧ (∃ added, indexer.Traced start index added) ∧
      ∀ key, key ∉ indexer.key? start.files task.job →
        indexer.under slot start.files index key = indexer.under slot start.files state key := by
  obtain ⟨hjob, ⟨hwaiting, rfl, hafter⟩ | ⟨stage, hworking, -, hafter, rfl⟩⟩ := work?_cases hwork
  · refine ⟨?_, ⟨added, htraced⟩, fun _ _ => rfl⟩
    rw [Agrees, hwaiting] at hagrees
    rw [Agrees, hafter, hjob, htraced.files]
    exact ⟨0, start, rfl, hagrees⟩
  · rw [Agrees, hworking] at hagrees
    have hstep := indexer.advances_advance task.job stage state
    have hown : indexer.Owns start.files task.job stage := by
      obtain ⟨steps, alone, hsteps, -⟩ := hagrees
      exact (owns_of_advanceBy hsteps).1
    refine ⟨?_, ⟨_, htraced.advance hstep hown⟩, fun key hkey => hstep.under_eq hkeyed hown hkey⟩
    rw [Agrees, hafter, hjob]
    exact hagrees.advance hkeyed htraced.files

/-! ## Files with different keys -/

/-- No file of a run has disturbed another. -/
structure Isolated (indexer : Indexer σ) (slot : σ → CacheKey → τ) (start : IndexState σ)
    (jobs : List Job) (run : RunState σ) : Prop where
  traced : ∃ added, indexer.Traced start run.index added
  jobs_eq : run.tasks.map Task.job = jobs
  agrees : ∀ task ∈ run.tasks, indexer.Agrees slot start run.index task
  others : ∀ key, (∀ job ∈ jobs, key ∉ indexer.key? start.files job) →
    indexer.under slot start.files run.index key = indexer.under slot start.files start key
  summary : run.summary = RunSummary.ofResults (run.tasks.filterMap Task.result?)

/-- The key of one file is no other file's key. -/
theorem notMem_key?_of_nodup {files : FileTree}
    (hkeys : (jobs.filterMap (indexer.key? files)).Nodup) {job other : Job}
    {rest : Multiset Job} (hjobs : job ::ₘ rest = jobs) (hother : other ∈ rest)
    {key : CacheKey} (hkey : key ∈ indexer.key? files job) : key ∉ indexer.key? files other := by
  intro hsame
  have hnodup : (Multiset.filterMap (indexer.key? files) jobs).Nodup := by
    rw [Multiset.filterMap_coe, Multiset.coe_nodup]
    exact hkeys
  rw [← hjobs, Multiset.filterMap_cons_some _ _ _ hkey, Multiset.nodup_cons] at hnodup
  exact hnodup.1 ((Multiset.mem_filterMap _ _).mpr ⟨other, hother, hsame⟩)

theorem Isolated.move (hkeyed : indexer.cache.KeyedBy slot)
    (hkeys : (jobs.filterMap (indexer.key? start.files)).Nodup) {run next : RunState σ}
    (hmove : Moves indexer run next) (hrun : indexer.Isolated slot start jobs run) :
    indexer.Isolated slot start jobs next := by
  have hnextJobs := hmove.map_job.trans hrun.jobs_eq
  have hnextSummary := hmove.summary_eq hrun.summary
  obtain ⟨⟨added, htraced⟩, hjobs, hagrees, hothers, -⟩ := hrun
  rcases hmove.tasks_cases with ⟨htasks, hindex, -⟩ |
    ⟨task, after, rest, hold, hnew, hwork, -⟩ | ⟨job, result, rest, hold, hnew, hindex, -⟩
  · rw [← htasks] at hagrees
    exact ⟨⟨added, by rwa [hindex]⟩, hnextJobs, by rw [hindex]; exact hagrees,
      by rw [hindex]; exact hothers, hnextSummary⟩
  · rw [hold] at hjobs hagrees
    obtain ⟨hgoes, hkept, hframe⟩ :=
      (hagrees task (Multiset.mem_cons_self _ _)).work hkeyed htraced hwork
    refine ⟨hkept, hnextJobs, ?_, fun key hkey => ?_, hnextSummary⟩
    · intro other hother
      rw [hnew] at hother
      rcases Multiset.mem_cons.mp hother with rfl | hrest
      · exact hgoes
      · refine (hagrees other (Multiset.mem_cons_of_mem hrest)).congr fun key hkey => ?_
        rw [Multiset.map_cons] at hjobs
        exact hframe key fun hown => notMem_key?_of_nodup hkeys hjobs
          (Multiset.mem_map_of_mem Task.job hrest) hown hkey
    · rw [hframe key (hkey task.job ?_), hothers key hkey]
      rw [← Multiset.mem_coe, ← hjobs]
      exact Multiset.mem_map_of_mem Task.job (Multiset.mem_cons_self _ _)
  · rw [hold] at hagrees
    refine ⟨⟨added, by rwa [hindex]⟩, hnextJobs, ?_, by rw [hindex]; exact hothers, hnextSummary⟩
    intro other hother
    rw [hnew] at hother
    rw [hindex]
    rcases Multiset.mem_cons.mp hother with rfl | hrest
    · have hended := hagrees ⟨job, .working (.ended result)⟩ (Multiset.mem_cons_self _ _)
      exact hended
    · exact hagrees other (Multiset.mem_cons_of_mem hrest)

end Indexer

/-! ## The start and the end of a run -/

namespace RunState

variable {σ : Type}

/-- A run whose workers have just been started. -/
def opened (workers capacity : Nat) (start : IndexState σ) (jobs : List Job) : RunState σ where
  pending := jobs
  queue := { workers, capacity, phase := .started, crew := List.replicate workers .ready }
  index := start

theorem jobs_opened (workers capacity : Nat) (start : IndexState σ) (jobs : List Job) :
    (opened workers capacity start jobs).queue.jobs = 0 := by
  simp [opened, WorkQueue.jobs, Worker.hand]

theorem tasks_opened (workers capacity : Nat) (start : IndexState σ) (jobs : List Job) :
    (opened workers capacity start jobs).tasks = jobs.map fun job => ({ job } : Task) := by
  rw [tasks, jobs_opened, add_zero]
  rfl

theorem map_job_opened (workers capacity : Nat) (start : IndexState σ) (jobs : List Job) :
    (opened workers capacity start jobs).tasks.map Task.job = jobs := by
  rw [tasks_opened, Multiset.map_coe, List.map_map]
  exact congrArg _ (List.map_id jobs)

theorem summary_opened (workers capacity : Nat) (start : IndexState σ) (jobs : List Job) :
    (opened workers capacity start jobs).summary =
      RunSummary.ofResults ((opened workers capacity start jobs).tasks.filterMap Task.result?) := by
  have hnone : (jobs.map fun job => ({ job } : Task)).filterMap Task.result? = [] := by
    rw [List.filterMap_map, List.filterMap_eq_nil_iff]
    exact fun job _ => rfl
  rw [tasks_opened, Multiset.filterMap_coe, hnone]
  rfl

theorem orderly_opened {workers capacity : Nat} (hworkers : 0 < workers)
    (hcapacity : 0 < capacity) (start : IndexState σ) (jobs : List Job) :
    (opened workers capacity start jobs).Orderly where
  crew := by
    rw [Ne, opened, List.replicate_eq_nil_iff]
    omega
  room := hcapacity
  phase := by simp [opened]
  gone := by simp [opened]
  closed := by simp [opened]
  done := by simp [opened]
  failed := by simp [opened]
  submitted := by
    rw [jobs_opened]
    rfl

/-- When a run is over, every file has ended and was counted. -/
theorem Orderly.over {run : RunState σ} (horder : run.Orderly)
    (hover : run.queue.isOver = true) :
    run.tasks = run.queue.done + run.queue.failed ∧ run.queue.submitted = run.tasks.card := by
  obtain ⟨hclosed, hgone⟩ := WorkQueue.isOver_eq_true_iff.mp hover
  obtain ⟨hpending, hcounted⟩ := horder.closed hclosed
  have hqueued : run.queue.queued = [] := by
    obtain ⟨member, hmember⟩ := List.exists_mem_of_ne_nil _ horder.crew
    have hfirst := hgone member hmember
    subst hfirst
    exact (horder.gone hmember).2
  have htasks : run.tasks = run.queue.jobs := by
    rw [tasks, hpending]
    exact zero_add _
  refine ⟨?_, ?_⟩
  · rw [htasks, WorkQueue.jobs, hqueued, WorkQueue.sum_hand_of_gone hgone]
    simp
  · have hsubmitted := horder.submitted
    rw [hcounted, ← htasks] at hsubmitted
    exact hsubmitted

end RunState

namespace Indexer

variable {σ τ : Type} {indexer : Indexer σ} {slot : σ → CacheKey → τ} {start : IndexState σ}
  {job : Job} {jobs : List Job}

/-- A queue that is not too long can be started. -/
theorem exists_open? (indexer : Indexer σ) {machine : Nat} (hmachine : 0 < machine)
    (hcapacity : indexer.options.queueCapacity ≤ WorkQueue.maxCapacity)
    (start : IndexState σ) (jobs : List Job) :
    ∃ workers capacity, 0 < workers ∧ 0 < capacity ∧
      indexer.open? machine start jobs = some (.opened workers capacity start jobs) := by
  have hroom : max indexer.options.queueCapacity 1 ≤ WorkQueue.maxCapacity :=
    Nat.max_le.mpr ⟨hcapacity, by decide⟩
  refine ⟨if indexer.options.jobs = 0 then machine else indexer.options.jobs,
    max indexer.options.queueCapacity 1, ?_, Nat.lt_of_lt_of_le Nat.zero_lt_one
    (Nat.le_max_right _ _), ?_⟩
  · split <;> omega
  · simp [open?, WorkQueue.ofRequest, WorkQueue.start?, hroom, RunState.opened]

theorem isolated_opened (indexer : Indexer σ) (slot : σ → CacheKey → τ) (workers capacity : Nat)
    (start : IndexState σ) (jobs : List Job) :
    indexer.Isolated slot start jobs (.opened workers capacity start jobs) where
  traced := ⟨[], .refl indexer start⟩
  jobs_eq := RunState.map_job_opened workers capacity start jobs
  agrees := by
    intro task htask
    rw [RunState.tasks_opened] at htask
    obtain ⟨job, -, rfl⟩ := List.mem_map.mp (Multiset.mem_coe.mp htask)
    exact fun key _ => rfl
  others := fun key _ => rfl
  summary := RunState.summary_opened workers capacity start jobs

/-- A run ended as its files would have ended alone: under the key of each file is
what the file would have left there alone, in the cache and in the log, everything
else is as it was, and the numbers are those of how the files end alone.  The kinds
are those that the actions of the log have counted. -/
structure EndedAlone (indexer : Indexer σ) (slot : σ → CacheKey → τ) (start : IndexState σ)
    (jobs : List Job) (final : IndexState σ) (summary : RunSummary) : Prop where
  traced : ∃ added, indexer.Traced start final added
  own : ∀ job ∈ jobs, ∀ key ∈ indexer.key? start.files job,
    indexer.under slot start.files final key =
      indexer.under slot start.files (indexer.indexFile start job).2 key
  others : ∀ key, (∀ job ∈ jobs, key ∉ indexer.key? start.files job) →
    indexer.under slot start.files final key = indexer.under slot start.files start key
  counts : summary =
    { RunSummary.ofResults (jobs.map fun job => (indexer.indexFile start job).1) with
      unhandledKinds := (final.tally.map Tally.ranking).getD [] }

namespace EndedAlone

variable {final other : IndexState σ} {summary otherSummary : RunSummary}

/-- Every file is counted once: as a hit, as indexed or as failed. -/
theorem total (hended : indexer.EndedAlone slot start jobs final summary) :
    summary.submitted = jobs.length ∧
      summary.submitted = summary.cacheHits + summary.indexed + summary.failed ∧
      summary.notPersisted ≤ summary.indexed := by
  have htotal := RunSummary.ofResults_total (jobs.map fun job => (indexer.indexFile start job).1)
  rw [hended.counts]
  exact ⟨by simp [RunSummary.ofResults], htotal⟩

/-- There is one way to end so, up to the order in which things were done. -/
theorem unique (hended : indexer.EndedAlone slot start jobs final summary)
    (hother : indexer.EndedAlone slot start jobs other otherSummary) :
    (∀ key, slot final.cache key = slot other.cache key) ∧ final.log.Perm other.log ∧
      summary = otherSummary := by
  have hunder : ∀ key, indexer.under slot start.files final key =
      indexer.under slot start.files other key := by
    intro key
    by_cases hkey : ∃ job ∈ jobs, key ∈ indexer.key? start.files job
    · obtain ⟨job, hjob, hown⟩ := hkey
      rw [hended.own job hjob key hown, hother.own job hjob key hown]
    · have hnone : ∀ job ∈ jobs, key ∉ indexer.key? start.files job :=
        fun job hjob hown => hkey ⟨job, hjob, hown⟩
      rw [hended.others key hnone, hother.others key hnone]
  obtain ⟨added, htraced⟩ := hended.traced
  obtain ⟨others, htracedOther⟩ := hother.traced
  have hperm := htraced.log_perm htracedOther hunder
  refine ⟨fun key => congrArg Prod.fst (hunder key), hperm, ?_⟩
  rw [hended.counts, hother.counts, htraced.ranking_eq htracedOther hperm]

end EndedAlone

/-- A file whose end was noted has ended as it would have ended alone. -/
theorem Agrees.counted {state : IndexState σ} {task : Task}
    {result : Outcome IndexFault FileOutcome} (hagrees : indexer.Agrees slot start state task)
    (hcounted : task.progress = .counted result) :
    (indexer.indexFile start task.job).1 = result ∧
      ∀ key ∈ indexer.key? start.files task.job,
        indexer.under slot start.files state key =
          indexer.under slot start.files (indexer.indexFile start task.job).2 key := by
  rw [Agrees, hcounted] at hagrees
  obtain ⟨steps, alone, hsteps, hsame⟩ := hagrees
  rw [indexFile_of_ended hsteps]
  exact ⟨rfl, hsame⟩

theorem filterMap_eq_map {α β : Type} {f : α → Option β} {g : α → β} {items : Multiset α}
    (hitems : ∀ item ∈ items, f item = some (g item)) : items.filterMap f = items.map g := by
  induction items using Multiset.induction_on with
  | empty => rfl
  | cons item items ih =>
      rw [Multiset.filterMap_cons_some _ _ _ (hitems item (Multiset.mem_cons_self _ _)),
        Multiset.map_cons, ih fun other hother => hitems other (Multiset.mem_cons_of_mem hother)]

/-- A run that is over has ended as its files would have ended alone. -/
theorem Isolated.over {run : RunState σ} (hrun : indexer.Isolated slot start jobs run)
    (horder : run.Orderly) (hover : run.queue.isOver = true) :
    indexer.EndedAlone slot start jobs run.index run.report := by
  obtain ⟨htasks, hsubmitted⟩ := horder.over hover
  have hcounted : ∀ task ∈ run.tasks, ∃ result, task.progress = .counted result := by
    intro task htask
    rw [htasks] at htask
    rcases Multiset.mem_add.mp htask with hdone | hfailed
    · obtain ⟨outcome, hprogress⟩ := horder.done task (Multiset.mem_coe.mp hdone)
      exact ⟨_, hprogress⟩
    · obtain ⟨result, hprogress, -⟩ := horder.failed task (Multiset.mem_coe.mp hfailed)
      exact ⟨result, hprogress⟩
  refine ⟨hrun.traced, ?_, hrun.others, ?_⟩
  · intro job hjob
    rw [← Multiset.mem_coe, ← hrun.jobs_eq] at hjob
    obtain ⟨task, htask, rfl⟩ := Multiset.mem_map.mp hjob
    obtain ⟨result, hprogress⟩ := hcounted task htask
    exact ((hrun.agrees task htask).counted hprogress).2
  · have hresults : run.tasks.filterMap Task.result? =
        jobs.map fun job => (indexer.indexFile start job).1 := by
      have heach : ∀ task ∈ run.tasks,
          task.result? = some (indexer.indexFile start task.job).1 := by
        intro task htask
        obtain ⟨result, hprogress⟩ := hcounted task htask
        rw [((hrun.agrees task htask).counted hprogress).1, Task.result?, hprogress]
      rw [filterMap_eq_map heach, ← Multiset.map_coe, ← hrun.jobs_eq, Multiset.map_map]
      rfl
    have hcard : run.tasks.card =
        (RunSummary.ofResults (run.tasks.filterMap Task.result?)).submitted := by
      rw [hresults, ← Multiset.card_map Task.job, hrun.jobs_eq]
      simp [RunSummary.ofResults]
    rw [RunState.report, hrun.summary, hsubmitted, hcard, hresults]

/-! ## One file after the other -/

/-- Files that are indexed in order, from a state that agrees with the start of the
run on all their keys. -/
theorem indexAll_alone (hkeyed : indexer.cache.KeyedBy slot)
    (hkeys : (jobs.filterMap (indexer.key? start.files)).Nodup) {state : IndexState σ}
    {added : List IndexAction} (htraced : indexer.Traced start state added)
    (hagree : ∀ job ∈ jobs, ∀ key ∈ indexer.key? start.files job,
      indexer.under slot start.files state key = indexer.under slot start.files start key)
    (summary : RunSummary) :
    (indexer.indexAll state summary jobs).1 =
        (jobs.map fun job => (indexer.indexFile start job).1).foldl RunSummary.count summary ∧
      (∃ added, indexer.Traced start (indexer.indexAll state summary jobs).2 added) ∧
      (∀ job ∈ jobs, ∀ key ∈ indexer.key? start.files job,
        indexer.under slot start.files (indexer.indexAll state summary jobs).2 key =
          indexer.under slot start.files (indexer.indexFile start job).2 key) ∧
      ∀ key, (∀ job ∈ jobs, key ∉ indexer.key? start.files job) →
        indexer.under slot start.files (indexer.indexAll state summary jobs).2 key =
          indexer.under slot start.files state key := by
  induction jobs generalizing state summary added with
  | nil => exact ⟨rfl, ⟨added, htraced⟩, by nofun, fun _ _ => rfl⟩
  | cons job rest ih =>
      have hown : ∀ key ∈ indexer.key? state.files job,
          indexer.under slot start.files state key = indexer.under slot start.files start key := by
        rw [htraced.files]
        exact hagree job List.mem_cons_self
      obtain ⟨hresult, hleft⟩ := indexFile_alike hkeyed htraced.files hown
      have hframe : ∀ key, key ∉ indexer.key? start.files job →
          indexer.under slot start.files (indexer.indexFile state job).2 key =
            indexer.under slot start.files state key := by
        intro key hkey
        rw [← htraced.files] at hkey ⊢
        exact under_indexFile hkeyed hkey
      have hapart : ∀ other ∈ rest, ∀ key ∈ indexer.key? start.files job,
          key ∉ indexer.key? start.files other :=
        fun other hother key hkey =>
          notMem_key?_of_nodup hkeys (Multiset.cons_coe job rest) (Multiset.mem_coe.mpr hother) hkey
      obtain ⟨addedBy, htracedBy⟩ := htraced.indexFile job
      obtain ⟨hcounts, htracedRest, hownRest, hothersRest⟩ := ih
        (hkeys.sublist ((List.sublist_cons_self job rest).filterMap _)) htracedBy
        (fun other hother key hkey => by
          rw [hframe key fun hsame => hapart other hother key hsame hkey]
          exact hagree other (List.mem_cons_of_mem job hother) key hkey)
        (summary.count (indexer.indexFile state job).1)
      refine ⟨?_, htracedRest, ?_, ?_⟩
      · rw [indexAll, hcounts, hresult]
        rfl
      · intro found hfound key hkey
        rcases List.mem_cons.mp hfound with rfl | hrest
        · -- the later files have other keys, so they leave what the first one left
          rw [indexAll, hothersRest key fun other hother => hapart other hother key hkey]
          exact hleft key (hagree found List.mem_cons_self key hkey)
        · exact hownRest found hrest key hkey
      · intro key hkey
        rw [indexAll,
          hothersRest key fun other hother => hkey other (List.mem_cons_of_mem job hother)]
        exact hframe key (hkey job List.mem_cons_self)

/-- A run in order ends as its files would have ended alone. -/
theorem run_alone (hkeyed : indexer.cache.KeyedBy slot)
    (hkeys : (jobs.filterMap (indexer.key? start.files)).Nodup) (hjobs : jobs ≠ [])
    (hcapacity : indexer.options.queueCapacity ≤ WorkQueue.maxCapacity) :
    ∃ summary final, indexer.run start jobs = (.done summary, final) ∧
      indexer.EndedAlone slot start jobs final summary := by
  obtain ⟨hcounts, htraced, hown, hothers⟩ :=
    indexAll_alone hkeyed hkeys (.refl indexer start) (fun _ _ _ _ => rfl) ({} : RunSummary)
  have hshort : indexer.queueTooLong = false := by
    rw [queueTooLong, decide_eq_false_iff_not]
    exact Nat.not_lt.mpr hcapacity
  have hstart : ({} : RunSummary) = RunSummary.ofResults 0 := rfl
  rw [hstart, RunSummary.foldl_count, zero_add, ← hstart] at hcounts
  refine ⟨{ (indexer.indexAll start {} jobs).1 with
      unhandledKinds := ((indexer.indexAll start {} jobs).2.tally.map Tally.ranking).getD [] },
    (indexer.indexAll start {} jobs).2, ?_, htraced, hown, hothers, ?_⟩
  · rw [run, if_neg (by simpa using hjobs), hshort]
    rfl
  · rw [hcounts]

/-- **Runs are isolated.**  A run of at least one file whose keys are different ends,
on every schedule of any number of workers, as each of its files would have ended
alone: under the key of each file is what it would have left there, nothing else has
changed, and every file is counted once.  No schedule is longer than a bound, each
can be continued until the run is over, and then it has ended as the run in order
does, has done the same in another order, and the queue has lost no file. -/
theorem run_isolated (hkeyed : indexer.cache.KeyedBy slot) {machine : Nat}
    (hmachine : 0 < machine) (hcapacity : indexer.options.queueCapacity ≤ WorkQueue.maxCapacity)
    (hjobs : jobs ≠ []) (hkeys : (jobs.filterMap (indexer.key? start.files)).Nodup) :
    ∃ first summary final, indexer.open? machine start jobs = some first ∧
      indexer.run start jobs = (.done summary, final) ∧
      indexer.EndedAlone slot start jobs final summary ∧
      (summary.submitted = jobs.length ∧
        summary.submitted = summary.cacheHits + summary.indexed + summary.failed ∧
        summary.notPersisted ≤ summary.indexed) ∧
      ∀ events last, indexer.schedule? first events = some last →
        events.length ≤ first.effort ∧
        (last.queue.isOver = false → ∃ event next, indexer.step? last event = some next) ∧
        (last.queue.isOver = true →
          (∀ key, slot last.index.cache key = slot final.cache key) ∧
            last.index.log.Perm final.log ∧ last.report = summary ∧
            last.queue.report.isComplete = true) := by
  obtain ⟨workers, capacity, hworkers, hroom, hopen⟩ :=
    indexer.exists_open? hmachine hcapacity start jobs
  obtain ⟨summary, final, hrun, halone⟩ := run_alone hkeyed hkeys hjobs hcapacity
  refine ⟨_, summary, final, hopen, hrun, halone, halone.total, fun events last hlast => ?_⟩
  have horder : last.Orderly := schedule?_induct Moves.orderly hlast
    (RunState.orderly_opened hworkers hroom start jobs)
  have hisolated : indexer.Isolated slot start jobs last :=
    schedule?_induct (Isolated.move hkeyed hkeys) hlast
      (isolated_opened indexer slot workers capacity start jobs)
  have hlength := length_add_effort_le hlast
  refine ⟨by omega, indexer.exists_step? horder, fun hover => ?_⟩
  obtain ⟨hslots, hperm, hcounts⟩ := (hisolated.over horder hover).unique halone
  obtain ⟨htasks, hsubmitted⟩ := horder.over hover
  refine ⟨hslots, hperm, hcounts, ?_⟩
  rw [htasks, Multiset.card_add, Multiset.coe_card, Multiset.coe_card] at hsubmitted
  simp [WorkQueue.report, QueueReport.isComplete, hsubmitted]

/-! ## A run with a crash -/

/-- A parser that has a tree for one file, cannot read another, and crashes on all
others. -/
def parserSample : UnitParser := fun _ job _ =>
  match job.file with
  | "good.c" => .done { tree := CursorTree.circleSample }
  | "bad.c" => .failed (.unreadable "bad.c" .notFound)
  | _ => .crashed

/-- Two workers, and a queue with room for `capacity` files. -/
def crewSample (capacity : Nat) : Indexer Store where
  parser := parserSample
  cache := .ofStore 0
  options := { jobs := 2, queueCapacity := capacity }

/-- An empty store, and a directory for scratch files. -/
def startSample : IndexState Store where
  files := { entries := [(["tmp"], .directory)] }
  cache := Store.fresh

/-- Three files that end in three ways. -/
def jobSamples : List Job :=
  [{ file := "good.c", flags := [] }, { file := "bad.c", flags := [] },
    { file := "worse.c", flags := [] }]

/-- A schedule on which the first file is the last one to end. -/
def scheduleSample : List RunEvent :=
  [.submit, .take 0, .submit, .take 1, .acknowledge, .work 1, .work 0, .submit, .acknowledge,
    .work 0, .work 1, .work 1, .work 0, .note 1, .finish 1, .take 1, .work 1, .work 1, .work 1,
    .note 1, .work 0, .acknowledge, .close, .finish 1, .leave 1, .note 0, .finish 0, .leave 0]

theorem run_isolated_scheduleSample :
    (jobSamples.filterMap ((crewSample 1).key? startSample.files)).Nodup ∧
      ∃ first last, (crewSample 1).open? 1 startSample jobSamples = some first ∧
        (crewSample 1).schedule? first scheduleSample = some last ∧
        last.queue.isOver = true ∧
        (last.report.submitted, last.report.indexed, last.report.failed) = (3, 1, 2) := by
  have hkeys : (jobSamples.filterMap ((crewSample 1).key? startSample.files)).Nodup := by
    decide +kernel
  obtain ⟨first, summary, final, hopen, hrun, -, -, hall⟩ :=
    run_isolated (Cache.keyedBy_ofStore 0) Nat.zero_lt_one (by decide) (by decide) hkeys
  have hcounts : (match ((crewSample 1).run startSample jobSamples).1 with
      | .done summary => (summary.submitted, summary.indexed, summary.failed)
      | _ => (0, 0, 0)) = (3, 1, 2) := by
    decide +kernel
  have hover : (((crewSample 1).open? 1 startSample jobSamples).bind
      ((crewSample 1).schedule? · scheduleSample)).any (·.queue.isOver) = true := by
    decide +kernel
  rw [hrun] at hcounts
  rw [hopen, Option.bind_some, Option.any_eq_true] at hover
  obtain ⟨last, hlast, hends⟩ := hover
  obtain ⟨-, -, hsame, -⟩ := (hall scheduleSample last hlast).2.2 hends
  exact ⟨hkeys, first, last, hopen, hlast, hends, by rw [hsame]; exact hcounts⟩

/-- A run does not end so if its queue is meant to hold more files than any can. -/
theorem not_every_run_ends :
    ¬∀ (indexer : Indexer Store) (start : IndexState Store) (jobs : List Job),
      indexer.cache.KeyedBy Store.slot → jobs ≠ [] →
      (jobs.filterMap (indexer.key? start.files)).Nodup →
      ∃ summary final, indexer.run start jobs = (.done summary, final) := by
  intro hends
  obtain ⟨summary, final, hrun⟩ := hends (crewSample 0x2000000000000000) startSample
    [{ file := "good.c", flags := [] }] (Cache.keyedBy_ofStore 0) (by decide) (by decide +kernel)
  have hcrash : ((crewSample 0x2000000000000000).run startSample
      [{ file := "good.c", flags := [] }]).1 = .crashed := by
    decide +kernel
  rw [hrun] at hcrash
  cases hcrash

end Indexer
end SourceIndex
