import SourceIndex.Proofs.Pipeline.Session

/-!
# Where the entries of a store come from

A run only ever adds to a store.  Each entry that is there in the end was there before, or a file
of the run has written it: under its own key and path, with the record that it ended with, and
with the time of the run (`Indexer.Ran.exists_writer`).  The name of the key strategy stays.

A run over a cache that has no key has no hits, unless two of its files share a key
(`Indexer.Ran.cacheHits_eq_zero`): then one may find what the other has written.
-/

namespace SourceIndex

namespace Indexer

variable {indexer : Indexer Store} {now : Int} {start : IndexState Store}
  {run next last : RunState Store} {jobs : List Job} {entry : StoreEntry}

/-- An entry is what a file writes that ends with a record. -/
structure Written (indexer : Indexer Store) (files : FileTree) (now : Int) (job : Job)
    (record : Record) (entry : StoreEntry) : Prop where
  key : indexer.key? files job = some entry.key
  path : entry.path = job.file
  value : entry.value = record.toBytes
  time : entry.indexedAt = now

/-- A file of a run has written an entry. -/
def Wrote (indexer : Indexer Store) (files : FileTree) (now : Int) (entry : StoreEntry)
    (task : Task) : Prop :=
  ∃ record, indexer.Written files now task.job record entry ∧
    (task.progress = .working (.ended (.done (.indexed record true))) ∨
      task.progress = .counted (.done (.indexed record true)))

/-- What a run has made of a store. -/
structure Filled (indexer : Indexer Store) (now : Int) (start : IndexState Store)
    (run : RunState Store) : Prop where
  strategyName : run.index.cache.strategyName = start.cache.strategyName
  entries : ∀ entry ∈ run.index.cache.entries.getD [], entry ∈ start.cache.entries.getD [] ∨
    ∃ task ∈ run.tasks, indexer.Wrote start.files now entry task

/-- A file that does a step has written nothing before. -/
theorem not_wrote_of_work? {task after : Task} {files : FileTree} {state index : IndexState Store}
    (hwork : indexer.work? task state = some (after, index)) :
    ¬indexer.Wrote files now entry task := by
  rintro ⟨record, -, hended | hended⟩ <;>
    simp [work?, hended] at hwork

theorem exists_wrote_of_cons {task after : Task} {rest : Multiset Task} {files : FileTree}
    (hkeeps : indexer.Wrote files now entry task → indexer.Wrote files now entry after)
    (hwrote : ∃ other ∈ task ::ₘ rest, indexer.Wrote files now entry other) :
    ∃ other ∈ after ::ₘ rest, indexer.Wrote files now entry other := by
  obtain ⟨other, hother, hentry⟩ := hwrote
  rcases Multiset.mem_cons.mp hother with rfl | hrest
  · exact ⟨after, Multiset.mem_cons_self _ _, hkeeps hentry⟩
  · exact ⟨other, Multiset.mem_cons_of_mem hrest, hentry⟩

/-- A step changes the store by the one entry that the file writes. -/
theorem mem_of_advance (hcache : indexer.cache = .ofStore now) {job : Job} {stage : IndexStage}
    (state : IndexState Store) {files : FileTree} (hown : indexer.Owns files job stage) :
    (indexer.advance job stage state).2.cache.strategyName = state.cache.strategyName ∧
      ∀ entry ∈ (indexer.advance job stage state).2.cache.entries.getD [],
        entry ∈ state.cache.entries.getD [] ∨ ∃ record, indexer.Written files now job record entry ∧
          (indexer.advance job stage state).1 = .ended (.done (.indexed record true)) := by
  have hstep := indexer.advances_advance job stage state
  generalize (indexer.advance job stage state).1 = after at hstep
  generalize (indexer.advance job stage state).2 = index at hstep
  cases hstep with
  | @stored key record cache hput =>
      rw [hcache] at hput
      obtain ⟨hname, hentries⟩ := Store.mem_of_put hput
      refine ⟨hname, fun entry hentry => ?_⟩
      obtain hold | rfl := hentries entry hentry
      · exact .inl hold
      · exact .inr ⟨record, ⟨hown key rfl, rfl, rfl, rfl⟩, rfl⟩
  | _ => exact ⟨rfl, fun entry hentry => .inl hentry⟩

theorem Filled.work (hcache : indexer.cache = .ofStore now) {task after : Task}
    {rest : Multiset Task} (hold : run.tasks = task ::ₘ rest) (hnew : next.tasks = after ::ₘ rest)
    (hwork : indexer.work? task run.index = some (after, next.index))
    (haccounted : indexer.Accounted start run) (hrun : indexer.Filled now start run) :
    indexer.Filled now start next := by
  obtain ⟨hname, hentries⟩ := hrun
  have hkept : ∀ entry ∈ run.index.cache.entries.getD [],
      entry ∈ start.cache.entries.getD [] ∨
        ∃ other ∈ next.tasks, indexer.Wrote start.files now entry other := by
    intro entry hentry
    rw [hnew]
    rw [hold] at hentries
    exact (hentries entry hentry).imp_right
      (exists_wrote_of_cons fun hwrote => absurd hwrote (not_wrote_of_work? hwork))
  obtain ⟨hjob, ⟨-, hindex, -⟩ | ⟨stage, hworking, -, hafter, hindex⟩⟩ := work?_cases hwork
  · rw [← hindex] at hname hkept
    exact ⟨hname, hkept⟩
  · have hown := haccounted.owns task (hold ▸ Multiset.mem_cons_self _ _) stage hworking
    obtain ⟨hsame, hadded⟩ := mem_of_advance hcache run.index hown
    rw [← hindex] at hsame hadded
    refine ⟨hsame.trans hname, fun entry hentry => ?_⟩
    obtain hbefore | ⟨record, hwritten, hended⟩ := hadded entry hentry
    · exact hkept entry hbefore
    · refine .inr ⟨after, hnew ▸ Multiset.mem_cons_self _ _, record, ?_, .inl ?_⟩
      · rwa [hjob]
      · rw [hafter, hended]

theorem Filled.move (hcache : indexer.cache = .ofStore now) (hmove : Moves indexer run next)
    (haccounted : indexer.Accounted start run) (hrun : indexer.Filled now start run) :
    indexer.Filled now start next := by
  rcases hmove.tasks_cases with ⟨htasks, hindex, -⟩ |
    ⟨task, after, rest, hold, hnew, hwork, -⟩ | ⟨job, result, rest, hold, hnew, hindex, -⟩
  · obtain ⟨hname, hentries⟩ := hrun
    rw [← htasks, ← hindex] at hentries
    exact ⟨by rw [hindex, hname], hentries⟩
  · exact hrun.work hcache hold hnew hwork haccounted
  · obtain ⟨hname, hentries⟩ := hrun
    refine ⟨by rw [hindex, hname], fun entry hentry => ?_⟩
    rw [hindex] at hentry
    rw [hold] at hentries
    rw [hnew]
    refine (hentries entry hentry).imp_right (exists_wrote_of_cons ?_)
    rintro ⟨record, hwritten, hended | hended⟩
    · cases hended
      exact ⟨record, hwritten, .inr rfl⟩
    · cases hended

theorem Ran.filled (hcache : indexer.cache = .ofStore now) (hran : indexer.Ran start jobs last) :
    indexer.Filled now start last := by
  have hboth : indexer.Accounted start last ∧ indexer.Filled now start last := by
    apply hran.induct
    · intro workers capacity _ _
      exact ⟨indexer.accounted_opened workers capacity start jobs,
        ⟨rfl, fun entry hentry => .inl hentry⟩⟩
    · intro run next hmove hold
      exact ⟨.move hmove hold.1, .move hcache hmove hold.1 hold.2⟩
  exact hboth.2

/-- An entry of a store after a run was there before, or a file of the run has written it. -/
theorem Ran.exists_writer (hcache : indexer.cache = .ofStore now)
    (hran : indexer.Ran start jobs last) (hentry : entry ∈ last.index.cache.entries.getD []) :
    entry ∈ start.cache.entries.getD [] ∨ ∃ job ∈ jobs, ∃ record,
      indexer.Written start.files now job record entry ∧
        ⟨job, .counted (.done (.indexed record true))⟩ ∈ last.tasks := by
  refine ((hran.filled hcache).entries entry hentry).imp_right ?_
  rintro ⟨task, htask, record, hwritten, hended⟩
  have hjob : task.job ∈ jobs := by
    rw [← Multiset.mem_coe, ← hran.map_job]
    exact Multiset.mem_map_of_mem Task.job htask
  refine ⟨task.job, hjob, record, hwritten, ?_⟩
  obtain ⟨result, hcounted⟩ := hran.exists_counted htask
  have hdone := hended.resolve_left (by rw [hcounted]; nofun)
  rwa [← hdone]

/-! ## Hits -/

/-- A file that a cache does not have is no hit. -/
theorem indexFile_ne_hit {σ : Type} {indexer : Indexer σ} {state : IndexState σ} {job : Job}
    (hnone : ∀ key ∈ indexer.key? state.files job, indexer.cache.has state.cache key ≠ .ok true) :
    (indexer.indexFile state job).1 ≠ .done .cacheHit := by
  intro hhit
  have hends := indexer.ends_indexFile job state
  rw [hhit] at hends
  generalize (indexer.indexFile state job).2 = after at hends
  cases hends with
  | hit hkey hrecord => exact hnone _ hkey (Cache.record?_eq_some_iff.mp hrecord).1
  | parsed hkey hmiss hparse => exact parseStep_ne_hit _ _ _ _ hparse

theorem Ran.cacheHits_eq_zero {σ τ : Type} {indexer : Indexer σ} {slot : σ → CacheKey → τ}
    {start : IndexState σ} {last : RunState σ} (hkeyed : indexer.cache.KeyedBy slot)
    (hkeys : (jobs.filterMap (indexer.key? start.files)).Nodup)
    (hnone : ∀ key, indexer.cache.has start.cache key ≠ .ok true)
    (hran : indexer.Ran start jobs last) : last.report.cacheHits = 0 := by
  have hisolated : indexer.Isolated slot start jobs last :=
    hran.induct (fun _ _ => isolated_opened indexer slot _ _ start jobs)
      (Isolated.move hkeyed hkeys)
  have hmiss : ∀ result ∈ (jobs.map fun job => (indexer.indexFile start job).1 :
      Multiset (Outcome IndexFault FileOutcome)), ¬FileOutcome.isHit result = true := by
    intro result hresult hhit
    obtain ⟨job, -, rfl⟩ := List.mem_map.mp (Multiset.mem_coe.mp hresult)
    unfold FileOutcome.isHit at hhit
    split at hhit
    next hdone => exact indexFile_ne_hit (fun key _ => hnone key) hdone
    next => cases hhit
  rw [(hisolated.over hran.orderly hran.ended).counts]
  exact Multiset.countP_eq_zero.mpr hmiss

end Indexer
end SourceIndex
