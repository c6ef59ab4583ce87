import SourceIndex.Proofs.Pipeline.Isolation

/-!
# Runs that have ended

`Indexer.Ran` says of a run that it has ended on some schedule.  What each event keeps holds of
every such run (`Indexer.Ran.induct`).

`Indexer.run`, which takes one file after the other, is one of these runs
(`Indexer.exists_ran_of_run`): the first worker takes every file, and no file is handed in
before the last one has ended.  So what is shown of all schedules need NOT be shown of the run in
order again.
-/

namespace SourceIndex

namespace RunState

variable {σ : Type} {run : RunState σ}

/-- Nothing is left to do but to count what was handed in, to close the queue, and to leave. -/
structure Settled (run : RunState σ) : Prop where
  pending : run.pending = []
  queued : run.queue.queued = []
  hands : ∀ task, Worker.busy task ∉ run.queue.crew

/-- No file is on its way, and all workers are ready for the next one. -/
structure Resting (run : RunState σ) : Prop where
  phase : run.queue.phase = .started
  room : 0 < run.queue.capacity
  queued : run.queue.queued = []
  crew : run.queue.crew ≠ []
  ready : ∀ member ∈ run.queue.crew, member = .ready

theorem resting_opened {workers capacity : Nat} (hworkers : 0 < workers)
    (hcapacity : 0 < capacity) (start : IndexState σ) (jobs : List Job) :
    (opened workers capacity start jobs).Resting where
  phase := rfl
  room := hcapacity
  queued := rfl
  crew := by
    rw [Ne, opened, List.replicate_eq_nil_iff]
    omega
  ready := fun _ hmember => List.eq_of_mem_replicate hmember

theorem Resting.settled (hrest : run.Resting) (hpending : run.pending = []) : run.Settled where
  pending := hpending
  queued := hrest.queued
  hands := fun _ hbusy => nomatch hrest.ready _ hbusy

theorem Resting.first (hrest : run.Resting) : run.queue.crew[0]? = some .ready := by
  obtain ⟨member, rest, hcrew⟩ := List.exists_cons_of_ne_nil hrest.crew
  have hready := hrest.ready member (hcrew ▸ List.mem_cons_self)
  rw [hcrew, hready]
  rfl

/-- The next file has been handed in, and the files in `rest` follow. -/
def handedIn (run : RunState σ) (rest : List Job) : RunState σ :=
  { run with
    pending := rest
    queue := { run.queue with uncounted := run.queue.uncounted + 1 } }

theorem Resting.handedIn (hrest : run.Resting) (rest : List Job) : (run.handedIn rest).Resting :=
  { hrest with }

/-- The first worker has a file at hand. -/
def atWork (run : RunState σ) (task : Task) : RunState σ :=
  { run with queue := run.queue.setJob 0 task }

theorem jobOf?_atWork (hcrew : run.queue.crew ≠ []) (task : Task) :
    (run.atWork task).queue.jobOf? 0 = some task := by
  rw [WorkQueue.jobOf?_eq_some_iff]
  exact List.getElem?_set_self (List.length_pos_iff.mpr hcrew)

@[simp] theorem setJob_atWork (run : RunState σ) (task after : Task) :
    (run.atWork task).queue.setJob 0 after = run.queue.setJob 0 after := by
  simp [atWork, WorkQueue.setJob]

end RunState

namespace Indexer

variable {σ : Type} {indexer : Indexer σ} {run next : RunState σ} {start final : IndexState σ}
  {job : Job} {jobs : List Job}

/-! ## Every run can be brought to its end -/

theorem schedule?_append {middle last : RunState σ} {events more : List RunEvent}
    (hfirst : indexer.schedule? run events = some middle)
    (hmore : indexer.schedule? middle more = some last) :
    indexer.schedule? run (events ++ more) = some last := by
  induction events generalizing run with
  | nil =>
      cases hfirst
      exact hmore
  | cons event rest ih =>
      rw [schedule?] at hfirst
      rw [List.cons_append, schedule?]
      split at hfirst
      · cases hfirst
      next next hstep => exact ih hfirst

theorem exists_schedule?_over (indexer : Indexer σ) (horder : run.Orderly) :
    ∃ events last, indexer.schedule? run events = some last ∧ last.queue.isOver = true := by
  -- the measure of the work that is left decreases with every event
  induction heffort : run.effort using Nat.strong_induction_on generalizing run with
  | _ effort ih =>
      cases hover : run.queue.isOver with
      | true => exact ⟨[], run, rfl, hover⟩
      | false =>
          obtain ⟨event, next, hstep⟩ := indexer.exists_step? horder hover
          have hmove := moves_of_step? hstep
          obtain ⟨events, last, hrest, hends⟩ :=
            ih next.effort (heffort ▸ hmove.effort_lt) (hmove.orderly horder) rfl
          refine ⟨event :: events, last, ?_, hends⟩
          rw [schedule?, hstep]
          exact hrest

/-- The end of a run with nothing left to do changes neither the state nor the numbers. -/
theorem Moves.settled (hmove : Moves indexer run next) (hsettled : run.Settled) :
    next.Settled ∧ next.index = run.index ∧ next.summary = run.summary := by
  have hidle : ∀ {worker : Nat} {task : Task},
      run.queue.crew[worker]? ≠ some (.busy task) :=
    fun hworker => hsettled.hands _ (List.mem_of_getElem? hworker)
  cases hmove with
  | submit hpending => rw [hsettled.pending] at hpending; cases hpending
  | acknowledge => exact ⟨{ hsettled with }, rfl, rfl⟩
  | take _ hqueued => rw [hsettled.queued] at hqueued; cases hqueued
  | work hworker => exact absurd hworker hidle
  | note hworker => exact absurd hworker hidle
  | finishGood hworker => exact absurd hworker hidle
  | finishBad hworker => exact absurd hworker hidle
  | close => exact ⟨{ hsettled with }, rfl, rfl⟩
  | leave =>
      refine ⟨{ hsettled with hands := fun task hbusy => ?_ }, rfl, rfl⟩
      exact hsettled.hands task ((List.mem_or_eq_of_mem_set hbusy).resolve_right (by nofun))

/-! ## Runs that have ended -/

/-- A run of at least one file has ended, on a machine that can run at least one worker at a
time. -/
structure Ran (indexer : Indexer σ) (start : IndexState σ) (jobs : List Job)
    (last : RunState σ) : Prop where
  someJob : jobs ≠ []
  schedule : ∃ machine first events, 0 < machine ∧
    indexer.open? machine start jobs = some first ∧ indexer.schedule? first events = some last
  ended : last.queue.isOver = true

theorem exists_opened_of_open? {machine : Nat} (hmachine : 0 < machine) {first : RunState σ}
    (hopen : indexer.open? machine start jobs = some first) :
    ∃ workers capacity, 0 < workers ∧ 0 < capacity ∧
      first = .opened workers capacity start jobs := by
  obtain ⟨queue, hstart, rfl⟩ := Option.map_eq_some_iff.mp hopen
  obtain ⟨-, rfl⟩ | ⟨hphase, -⟩ := WorkQueue.start?_eq_some_iff.mp hstart
  · refine ⟨_, _, ?_, ?_, rfl⟩
    · unfold WorkQueue.ofRequest
      dsimp only
      split <;> omega
    · exact Nat.lt_of_lt_of_le Nat.zero_lt_one (Nat.le_max_right _ _)
  · cases hphase

namespace Ran

variable {last : RunState σ}

/-- What holds of a run that was just started and is kept by each event. -/
theorem induct {holds : RunState σ → Prop} (hran : indexer.Ran start jobs last)
    (hopened : ∀ {workers capacity : Nat}, 0 < workers → 0 < capacity →
      holds (.opened workers capacity start jobs))
    (hmove : ∀ {run next : RunState σ}, Moves indexer run next → holds run → holds next) :
    holds last := by
  obtain ⟨machine, first, events, hmachine, hopen, hrun⟩ := hran.schedule
  obtain ⟨workers, capacity, hworkers, hcapacity, rfl⟩ := exists_opened_of_open? hmachine hopen
  exact schedule?_induct hmove hrun (hopened hworkers hcapacity)

theorem orderly (hran : indexer.Ran start jobs last) : last.Orderly :=
  hran.induct (fun hworkers hcapacity => RunState.orderly_opened hworkers hcapacity start jobs)
    Moves.orderly

theorem map_job (hran : indexer.Ran start jobs last) : last.tasks.map Task.job = jobs :=
  hran.induct (fun _ _ => RunState.map_job_opened _ _ start jobs)
    fun hmove hjobs => hmove.map_job.trans hjobs

theorem summary_eq (hran : indexer.Ran start jobs last) :
    last.summary = RunSummary.ofResults (last.tasks.filterMap Task.result?) :=
  hran.induct (fun _ _ => RunState.summary_opened _ _ start jobs) Moves.summary_eq

theorem submitted_eq (hran : indexer.Ran start jobs last) :
    last.queue.submitted = jobs.length := by
  rw [(hran.orderly.over hran.ended).2, ← Multiset.card_map Task.job, hran.map_job,
    Multiset.coe_card]

/-- The end of every file has been noted. -/
theorem exists_counted (hran : indexer.Ran start jobs last) {task : Task}
    (htask : task ∈ last.tasks) : ∃ result, task.progress = .counted result := by
  have horder := hran.orderly
  rw [(horder.over hran.ended).1] at htask
  rcases Multiset.mem_add.mp htask with hdone | hfailed
  · obtain ⟨outcome, hprogress⟩ := horder.done task (Multiset.mem_coe.mp hdone)
    exact ⟨_, hprogress⟩
  · obtain ⟨result, hprogress, -⟩ := horder.failed task (Multiset.mem_coe.mp hfailed)
    exact ⟨result, hprogress⟩

end Ran

/-! ## One file after the other -/

/-- The first worker takes its file to the end. -/
theorem exists_schedule?_works (run : RunState σ) {steps : Nat} {stage : IndexStage}
    {result : Outcome IndexFault FileOutcome} (hcrew : run.queue.crew ≠ [])
    (hended : indexer.advanceBy job steps stage run.index = (.ended result, final)) :
    ∃ events, indexer.schedule? (run.atWork ⟨job, .working stage⟩) events =
      some (RunState.atWork { run with index := final } ⟨job, .working (.ended result)⟩) := by
  induction steps generalizing stage run with
  | zero =>
      cases hended
      exact ⟨[], rfl⟩
  | succ steps ih =>
      by_cases hstage : ∃ already, stage = .ended already
      · obtain ⟨already, rfl⟩ := hstage
        rw [advanceBy_ended] at hended
        cases hended
        exact ⟨[], rfl⟩
      rw [advanceBy_succ] at hended
      have hwork : indexer.work? ⟨job, .working stage⟩ run.index =
          some (⟨job, .working (indexer.advance job stage run.index).1⟩,
            (indexer.advance job stage run.index).2) := by
        cases stage with
        | ended already => exact absurd ⟨already, rfl⟩ hstage
        | _ => rfl
      have hstep : indexer.step? (run.atWork ⟨job, .working stage⟩) (.work 0) =
          some (RunState.atWork { run with index := (indexer.advance job stage run.index).2 }
            ⟨job, .working (indexer.advance job stage run.index).1⟩) := by
        simp only [step?, RunState.jobOf?_atWork hcrew]
        rw [show (run.atWork ⟨job, .working stage⟩).index = run.index from rfl, hwork]
        simp only [RunState.setJob_atWork]
        rfl
      obtain ⟨events, hrest⟩ : ∃ events, indexer.schedule?
          (RunState.atWork { run with index := (indexer.advance job stage run.index).2 }
            ⟨job, .working (indexer.advance job stage run.index).1⟩) events =
          some (RunState.atWork { run with index := final } ⟨job, .working (.ended result)⟩) :=
        ih _ hcrew hended
      refine ⟨.work 0 :: events, ?_⟩
      rw [schedule?, hstep]
      exact hrest

/-- The next file is handed in, and the first worker begins with it. -/
theorem schedule?_begin (indexer : Indexer σ) {rest : List Job} (hrest : run.Resting)
    (hpending : run.pending = job :: rest) :
    indexer.schedule? run [.submit, .take 0, .work 0] =
      some ((run.handedIn rest).atWork
        ⟨job, .working (indexer.firstStage run.index.files job)⟩) := by
  have hfirst := hrest.first
  have hroom := hrest.room
  obtain ⟨member, others, hcrew⟩ := List.exists_cons_of_ne_nil hrest.crew
  rw [hcrew, List.getElem?_cons_zero, Option.some.injEq] at hfirst
  simp [schedule?, step?, hpending, RunState.onQueue?, WorkQueue.send?, hrest.phase, hrest.queued,
    hroom, WorkQueue.take?, hcrew, hfirst, WorkQueue.jobOf?, work?, WorkQueue.setJob,
    RunState.atWork, RunState.handedIn]

/-- The end of a file is noted, and the first worker is ready again. -/
theorem exists_schedule?_end (indexer : Indexer σ) (job : Job)
    (result : Outcome IndexFault FileOutcome) (hrest : run.Resting) :
    ∃ next, indexer.schedule? (run.atWork ⟨job, .working (.ended result)⟩) [.note 0, .finish 0] =
        some next ∧
      next.Resting ∧ next.pending = run.pending ∧ next.index = run.index ∧
      next.summary = run.summary.count result := by
  have htask := RunState.jobOf?_atWork hrest.crew ⟨job, .working (.ended result)⟩
  have hnoted := RunState.jobOf?_atWork hrest.crew ⟨job, .counted result⟩
  obtain ⟨queue, hfinish⟩ : ∃ queue,
      (run.queue.setJob 0 ⟨job, .counted result⟩).finish? Task.verdict 0 = some queue :=
    ⟨_, WorkQueue.finish?_eq_some_iff.mpr ⟨_, WorkQueue.jobOf?_eq_some_iff.mp hnoted, rfl⟩⟩
  have hready : ∀ member ∈ (run.queue.setJob 0 ⟨job, .counted result⟩).crew.set 0 .ready,
      member = .ready := by
    intro member hmember
    rw [WorkQueue.setJob, List.set_set] at hmember
    obtain hold | rfl := List.mem_or_eq_of_mem_set hmember
    · exact hrest.ready member hold
    · rfl
  refine ⟨{ run with queue, summary := run.summary.count result }, ?_, ?_, rfl, rfl, rfl⟩
  · rw [schedule?, step?, htask]
    simp only [RunState.setJob_atWork, schedule?, step?]
    rw [show (run.queue.setJob 0 ⟨job, .counted result⟩).jobOf? 0 = _ from hnoted]
    simp only [RunState.onQueue?, hfinish, Option.map_some]
    rfl
  · obtain ⟨task, -, rfl⟩ := WorkQueue.finish?_eq_some_iff.mp hfinish
    have hcrew := set_ne_nil (set_ne_nil hrest.crew 0 (.busy ⟨job, .counted result⟩)) 0 .ready
    split <;> exact { hrest with crew := hcrew, ready := hready }

/-- The next file of a run is taken to its end. -/
theorem exists_schedule?_indexFile (indexer : Indexer σ) {rest : List Job} (hrest : run.Resting)
    (hpending : run.pending = job :: rest) :
    ∃ events next, indexer.schedule? run events = some next ∧ next.Resting ∧
      next.pending = rest ∧ next.index = (indexer.indexFile run.index job).2 ∧
      next.summary = run.summary.count (indexer.indexFile run.index job).1 := by
  have hbegin := indexer.schedule?_begin hrest hpending
  obtain ⟨works, hworks⟩ := exists_schedule?_works (run.handedIn rest) hrest.crew
    (indexer.advanceBy_maxSteps run.index job)
  have hended : RunState.Resting
      { run.handedIn rest with index := (indexer.indexFile run.index job).2 } :=
    { hrest.handedIn rest with }
  obtain ⟨next, hend, hresting, hleft, hindex, hsummary⟩ :=
    indexer.exists_schedule?_end job (indexer.indexFile run.index job).1 hended
  exact ⟨_, next, schedule?_append hbegin (schedule?_append hworks hend), hresting, hleft, hindex,
    hsummary⟩

theorem exists_schedule?_indexAll (indexer : Indexer σ) (hrest : run.Resting)
    (hpending : run.pending = jobs) :
    ∃ events next, indexer.schedule? run events = some next ∧ next.Settled ∧
      (next.summary, next.index) = indexer.indexAll run.index run.summary jobs := by
  induction jobs generalizing run with
  | nil => exact ⟨[], run, rfl, hrest.settled hpending, rfl⟩
  | cons job rest ih =>
      obtain ⟨first, middle, hfirst, hresting, hleft, hindex, hsummary⟩ :=
        indexer.exists_schedule?_indexFile hrest hpending
      obtain ⟨events, next, hevents, hsettled, hall⟩ := ih hresting hleft
      refine ⟨first ++ events, next, schedule?_append hfirst hevents, hsettled, ?_⟩
      rw [hall, hindex, hsummary]
      rfl

theorem submitted_indexAll (indexer : Indexer σ) (state : IndexState σ) (summary : RunSummary)
    (jobs : List Job) :
    (indexer.indexAll state summary jobs).1.submitted = summary.submitted + jobs.length := by
  induction jobs generalizing state summary with
  | nil => rfl
  | cons job rest ih =>
      have hcount (result : Outcome IndexFault FileOutcome) :
          (summary.count result).submitted = summary.submitted + 1 := by
        rcases result with (_ | ⟨record, _ | _⟩) | fault | _ <;> rfl
      rw [indexAll, ih, hcount, List.length_cons]
      omega

/-- A run can be taken through its files in order and to its end. -/
theorem exists_ran_indexAll (indexer : Indexer σ) (start : IndexState σ) (hjobs : jobs ≠ [])
    (hcapacity : indexer.options.queueCapacity ≤ WorkQueue.maxCapacity) :
    ∃ last, indexer.Ran start jobs last ∧
      (last.summary, last.index) = indexer.indexAll start {} jobs := by
  obtain ⟨workers, capacity, hworkers, hroom, hopen⟩ :=
    indexer.exists_open? Nat.zero_lt_one hcapacity start jobs
  obtain ⟨events, settled, hevents, hsettled, hall⟩ := indexer.exists_schedule?_indexAll
    (RunState.resting_opened hworkers hroom start jobs) rfl
  obtain ⟨more, last, hmore, hover⟩ := indexer.exists_schedule?_over
    (schedule?_induct Moves.orderly hevents (RunState.orderly_opened hworkers hroom start jobs))
  refine ⟨last, ⟨hjobs, ⟨1, _, _, Nat.zero_lt_one, hopen, schedule?_append hevents hmore⟩, hover⟩,
    ?_⟩
  have hkept : last.Settled ∧ last.index = settled.index ∧ last.summary = settled.summary := by
    apply schedule?_induct _ hmore
    · exact ⟨hsettled, rfl, rfl⟩
    · intro run next hmove hold
      obtain ⟨hsettled, hindex, hsummary⟩ := hmove.settled hold.1
      exact ⟨hsettled, hindex.trans hold.2.1, hsummary.trans hold.2.2⟩
  rw [hkept.2.1, hkept.2.2, hall]
  rfl

/-- **A run in order is a run.**  It ends as one of the schedules does, with the same state and
the same numbers. -/
theorem exists_ran_of_run {summary : RunSummary}
    (hrun : indexer.run start jobs = (.done summary, final)) :
    ∃ last, indexer.Ran start jobs last ∧ last.report = summary ∧ last.index = final := by
  unfold run at hrun
  split at hrun
  · cases hrun
  next hjobs =>
    split at hrun
    · cases hrun
    next hshort =>
      rw [queueTooLong, decide_eq_true_iff, Nat.not_lt] at hshort
      obtain ⟨last, hran, hall⟩ := indexer.exists_ran_indexAll start
        (by simpa using hjobs) hshort
      have hsubmitted := indexer.submitted_indexAll start {} jobs
      rw [Nat.zero_add, ← hran.submitted_eq] at hsubmitted
      rw [← hall] at hrun hsubmitted
      obtain ⟨hsummary, rfl⟩ := Prod.mk.inj hrun
      refine ⟨last, hran, ?_, rfl⟩
      rw [← Outcome.done.inj hsummary, RunState.report, ← hsubmitted]

end Indexer
end SourceIndex
