import SourceIndex.Pipeline.Run
import SourceIndex.Proofs.Pipeline.Queue
import SourceIndex.Proofs.Pipeline.Steps

/-!
# Every run comes to its end

`Indexer.Moves` says what an event can do to a run.  From it follow the order that a
run keeps (`RunState.Orderly`), a measure of the work that is left and that every
event makes smaller (`RunState.effort`), and that a run in good order is over or has
an event that can happen (`Indexer.exists_step?`).

So no schedule is longer than the measure of its start, and every schedule that
cannot be continued has ended the run.  Nothing is assumed about which event comes
next: a schedule may be as unfair as it likes.
-/

namespace SourceIndex

namespace WorkQueue

theorem jobOf?_eq_some_iff {α : Type} {queue : WorkQueue α} {worker : Nat} {job : α} :
    queue.jobOf? worker = some job ↔ queue.crew[worker]? = some (.busy job) := by
  unfold jobOf?
  split
  next found hworker => simp [hworker]
  next hother =>
    simp only [reduceCtorEq, false_iff]
    exact hother job

end WorkQueue

namespace Indexer

variable {σ : Type} {indexer : Indexer σ} {run next : RunState σ}

/-! ## What an event can do -/

/-- What one event does to a run. -/
inductive Moves (indexer : Indexer σ) (run : RunState σ) : RunState σ → Prop
  | submit {job : Job} {rest : List Job} (hpending : run.pending = job :: rest)
      (hphase : run.queue.phase = .started)
      (hroom : run.queue.queued.length < run.queue.capacity) :
      Moves indexer run { run with
        pending := rest
        queue := { run.queue with
          queued := run.queue.queued ++ [{ job }]
          uncounted := run.queue.uncounted + 1 } }
  | acknowledge {rest : Nat} (hcount : run.queue.uncounted = rest + 1) :
      Moves indexer run { run with
        queue := { run.queue with uncounted := rest, submitted := run.queue.submitted + 1 } }
  | take {worker : Nat} {task : Task} {rest : List Task}
      (hworker : run.queue.crew[worker]? = some .ready)
      (hqueued : run.queue.queued = task :: rest) :
      Moves indexer run { run with
        queue := { run.queue with
          queued := rest
          crew := run.queue.crew.set worker (.busy task) } }
  | work {worker : Nat} {task after : Task} {index : IndexState σ}
      (hworker : run.queue.crew[worker]? = some (.busy task))
      (hwork : indexer.work? task run.index = some (after, index)) :
      Moves indexer run { run with queue := run.queue.setJob worker after, index }
  | note {worker : Nat} {job : Job} {result : Outcome IndexFault FileOutcome}
      (hworker : run.queue.crew[worker]? = some (.busy ⟨job, .working (.ended result)⟩)) :
      Moves indexer run { run with
        queue := run.queue.setJob worker ⟨job, .counted result⟩
        summary := run.summary.count result }
  | finishGood {worker : Nat} {job : Job} {outcome : FileOutcome}
      (hworker : run.queue.crew[worker]? = some (.busy ⟨job, .counted (.done outcome)⟩)) :
      Moves indexer run { run with
        queue := { run.queue with
          crew := run.queue.crew.set worker .ready
          done := run.queue.done ++ [⟨job, .counted (.done outcome)⟩] } }
  | finishBad {worker : Nat} {job : Job} {result : Outcome IndexFault FileOutcome}
      (hworker : run.queue.crew[worker]? = some (.busy ⟨job, .counted result⟩))
      (hresult : ∀ outcome, result ≠ .done outcome) :
      Moves indexer run { run with
        queue := { run.queue with
          crew := run.queue.crew.set worker .ready
          failed := run.queue.failed ++ [⟨job, .counted result⟩] } }
  | close (hpending : run.pending = []) (hcounted : run.queue.uncounted = 0)
      (hopen : run.queue.phase ≠ .closed) :
      Moves indexer run { run with queue := { run.queue with phase := .closed } }
  | leave {worker : Nat} (hworker : run.queue.crew[worker]? = some .ready)
      (hphase : run.queue.phase = .closed) (hqueued : run.queue.queued = []) :
      Moves indexer run { run with
        queue := { run.queue with crew := run.queue.crew.set worker .gone } }

theorem onQueue?_eq_some_iff {change : WorkQueue Task → Option (WorkQueue Task)} :
    run.onQueue? change = some next ↔
      ∃ queue, change run.queue = some queue ∧ next = { run with queue } := by
  unfold RunState.onQueue?
  rw [Option.map_eq_some_iff]
  simp only [eq_comm]

theorem moves_of_step? {event : RunEvent} (hstep : indexer.step? run event = some next) :
    Moves indexer run next := by
  cases event with
  | submit =>
      simp only [step?] at hstep
      split at hstep
      · cases hstep
      next job rest hpending =>
        obtain ⟨queue, hsend, rfl⟩ := onQueue?_eq_some_iff.mp hstep
        obtain ⟨⟨hphase, hroom⟩, rfl⟩ := WorkQueue.send?_eq_some_iff.mp hsend
        exact .submit hpending hphase hroom
  | acknowledge =>
      rw [step?] at hstep
      obtain ⟨queue, hcount, rfl⟩ := onQueue?_eq_some_iff.mp hstep
      obtain ⟨rest, hrest, rfl⟩ := WorkQueue.count?_eq_some_iff.mp hcount
      exact .acknowledge hrest
  | take worker =>
      rw [step?] at hstep
      obtain ⟨queue, htake, rfl⟩ := onQueue?_eq_some_iff.mp hstep
      obtain ⟨task, rest, hworker, hqueued, rfl⟩ := WorkQueue.take?_eq_some_iff.mp htake
      exact .take hworker hqueued
  | work worker =>
      simp only [step?] at hstep
      split at hstep
      · cases hstep
      next task htask =>
        split at hstep
        · cases hstep
        next after index hwork =>
          cases hstep
          exact .work (WorkQueue.jobOf?_eq_some_iff.mp htask) hwork
  | note worker =>
      simp only [step?] at hstep
      split at hstep
      next job result htask =>
        cases hstep
        exact .note (WorkQueue.jobOf?_eq_some_iff.mp htask)
      next => cases hstep
  | finish worker =>
      simp only [step?] at hstep
      split at hstep
      next job result htask =>
        have hworker := WorkQueue.jobOf?_eq_some_iff.mp htask
        obtain ⟨queue, hfinish, rfl⟩ := onQueue?_eq_some_iff.mp hstep
        obtain ⟨task, hsame, rfl⟩ := WorkQueue.finish?_eq_some_iff.mp hfinish
        rw [hworker, Option.some.injEq, Worker.busy.injEq] at hsame
        subst hsame
        cases result with
        | done outcome => exact .finishGood hworker
        | failed fault => exact .finishBad hworker (by nofun)
        | crashed => exact .finishBad hworker (by nofun)
      next => cases hstep
  | close =>
      simp only [step?] at hstep
      split at hstep
      next hpending =>
        obtain ⟨queue, hclose, rfl⟩ := onQueue?_eq_some_iff.mp hstep
        obtain ⟨⟨hcounted, hopen⟩, rfl⟩ := WorkQueue.close?_eq_some_iff.mp hclose
        exact .close (List.isEmpty_iff.mp hpending) hcounted hopen
      next => cases hstep
  | leave worker =>
      rw [step?] at hstep
      obtain ⟨queue, hleave, rfl⟩ := onQueue?_eq_some_iff.mp hstep
      obtain ⟨⟨hworker, hphase, hqueued⟩, rfl⟩ := WorkQueue.leave?_eq_some_iff.mp hleave
      exact .leave hworker hphase hqueued

/-- What holds of a run and is kept by each event. -/
theorem schedule?_induct {holds : RunState σ → Prop}
    (hmove : ∀ {run next : RunState σ}, Moves indexer run next → holds run → holds next)
    {events : List RunEvent} {last : RunState σ}
    (hrun : indexer.schedule? run events = some last) (hstart : holds run) : holds last := by
  induction events generalizing run with
  | nil =>
      cases hrun
      exact hstart
  | cons event rest ih =>
      rw [schedule?] at hrun
      split at hrun
      · cases hrun
      next next hstep => exact ih hrun (hmove (moves_of_step? hstep) hstart)

end Indexer

/-! ## The order of a run -/

namespace RunState

variable {σ : Type}

/-- All files of a run. -/
def tasks (run : RunState σ) : Multiset Task :=
  (run.pending.map fun job => ({ job } : Task)) + run.queue.jobs

/-- What holds at all times: there are workers and there is room, workers are only
gone when there is nothing left to take, and the queue is only closed when all files
were handed in and counted.  The files that have ended are in the right place. -/
structure Orderly (run : RunState σ) : Prop where
  crew : run.queue.crew ≠ []
  room : 0 < run.queue.capacity
  phase : run.queue.phase ≠ .idle
  gone : .gone ∈ run.queue.crew → run.queue.phase = .closed ∧ run.queue.queued = []
  closed : run.queue.phase = .closed → run.pending = [] ∧ run.queue.uncounted = 0
  done : ∀ task ∈ run.queue.done, ∃ outcome, task.progress = .counted (.done outcome)
  failed : ∀ task ∈ run.queue.failed, ∃ result, task.progress = .counted result ∧
    ∀ outcome, result ≠ .done outcome
  submitted : run.queue.submitted + run.queue.uncounted = run.queue.jobs.card

/-- A worker that changes how far its file has come. -/
theorem exists_tasks_setJob (run : RunState σ) {worker : Nat} {task : Task}
    (hworker : run.queue.crew[worker]? = some (.busy task)) :
    ∃ others, run.tasks = task ::ₘ others ∧
      ∀ (after : Task) (index : IndexState σ) (summary : RunSummary),
        ({ run with queue := run.queue.setJob worker after, index, summary } :
          RunState σ).tasks = after ::ₘ others := by
  obtain ⟨others, hold, hnew⟩ := WorkQueue.exists_jobs_busy hworker
  refine ⟨(run.pending.map fun job => ({ job } : Task)) + others, ?_, fun after index summary => ?_⟩
  · rw [tasks, hold, Multiset.add_cons]
  · rw [tasks, WorkQueue.setJob, hnew, Multiset.add_cons]

end RunState

namespace Indexer.Moves

variable {σ : Type} {indexer : Indexer σ} {run next : RunState σ}

/-- An event passes files on, has one file do a step, or notes the end of one file. -/
theorem tasks_cases (hmove : Moves indexer run next) :
    (next.tasks = run.tasks ∧ next.index = run.index ∧ next.summary = run.summary) ∨
      (∃ task after rest, run.tasks = task ::ₘ rest ∧ next.tasks = after ::ₘ rest ∧
        indexer.work? task run.index = some (after, next.index) ∧ next.summary = run.summary) ∨
      ∃ job result rest, run.tasks = ⟨job, .working (.ended result)⟩ ::ₘ rest ∧
        next.tasks = ⟨job, .counted result⟩ ::ₘ rest ∧ next.index = run.index ∧
        next.summary = run.summary.count result := by
  cases hmove with
  | submit hpending hphase hroom =>
      refine .inl ⟨?_, rfl, rfl⟩
      simp only [RunState.tasks, hpending, WorkQueue.jobs_send, List.map_cons,
        ← Multiset.cons_coe, ← Multiset.singleton_add]
      abel
  | acknowledge hcount => exact .inl ⟨rfl, rfl, rfl⟩
  | take hworker hqueued =>
      exact .inl ⟨by simp only [RunState.tasks, WorkQueue.jobs_take hworker hqueued], rfl, rfl⟩
  | work hworker hwork =>
      obtain ⟨others, hold, hnew⟩ := run.exists_tasks_setJob hworker
      exact .inr (.inl ⟨_, _, others, hold, hnew _ _ _, hwork, rfl⟩)
  | @note worker job result hworker =>
      obtain ⟨others, hold, hnew⟩ := run.exists_tasks_setJob hworker
      exact .inr (.inr ⟨job, result, others, hold, hnew _ _ _, rfl, rfl⟩)
  | finishGood hworker =>
      exact .inl ⟨by simp only [RunState.tasks, WorkQueue.jobs_done hworker], rfl, rfl⟩
  | finishBad hworker hresult =>
      exact .inl ⟨by simp only [RunState.tasks, WorkQueue.jobs_failed hworker], rfl, rfl⟩
  | close hpending hcounted hopen => exact .inl ⟨rfl, rfl, rfl⟩
  | leave hworker hphase hqueued =>
      exact .inl ⟨by simp only [RunState.tasks, WorkQueue.jobs_leave hworker], rfl, rfl⟩

end Indexer.Moves

/-- A worker that changes how far its file has come keeps the order. -/
theorem RunState.Orderly.setJob {σ : Type} {run : RunState σ} (horder : run.Orderly)
    {worker : Nat} {task : Task} (hworker : run.queue.crew[worker]? = some (.busy task))
    (after : Task) (index : IndexState σ) (summary : RunSummary) :
    ({ run with queue := run.queue.setJob worker after, index, summary } :
      RunState σ).Orderly := by
  obtain ⟨others, hold, hnew⟩ := WorkQueue.exists_jobs_busy hworker
  refine { horder with
    crew := set_ne_nil horder.crew _ _
    gone := fun hgone => horder.gone (gone_mem_of_set hgone (by nofun)), submitted := ?_ }
  have hsum := horder.submitted
  rw [hold, Multiset.card_cons] at hsum
  rw [WorkQueue.setJob, hnew, Multiset.card_cons]
  exact hsum

/-- An event keeps the order of a run. -/
theorem Indexer.Moves.orderly {σ : Type} {indexer : Indexer σ} {run next : RunState σ}
    (hmove : Moves indexer run next) (horder : run.Orderly) : next.Orderly := by
  cases hmove with
  | submit hpending hphase hroom =>
      refine { horder with gone := ?_, closed := ?_, submitted := ?_ }
      · intro hgone
        have hclosed := (horder.gone hgone).1
        rw [hphase] at hclosed
        cases hclosed
      · intro hclosed
        rw [show run.queue.phase = .closed from hclosed] at hphase
        cases hphase
      · have hcount := horder.submitted
        rw [WorkQueue.jobs_send, Multiset.card_add, Multiset.card_singleton, ← hcount]
        dsimp only
        omega
  | acknowledge hcount =>
      refine { horder with closed := ?_, submitted := ?_ }
      · intro hclosed
        have hnone := (horder.closed hclosed).2
        omega
      · have hsum := horder.submitted
        change _ = run.queue.jobs.card
        dsimp only
        omega
  | take hworker hqueued =>
      refine { horder with crew := set_ne_nil horder.crew _ _, gone := ?_, submitted := ?_ }
      · intro hgone
        have hempty := (horder.gone (gone_mem_of_set hgone (by nofun))).2
        rw [hqueued] at hempty
        cases hempty
      · rw [WorkQueue.jobs_take hworker hqueued]
        exact horder.submitted
  | work hworker hwork => exact horder.setJob hworker _ _ _
  | note hworker => exact horder.setJob hworker _ _ _
  | @finishGood worker job outcome hworker =>
      refine { horder with
        crew := set_ne_nil horder.crew _ _
        gone := fun hgone => horder.gone (gone_mem_of_set hgone (by nofun))
        done := ?_, submitted := ?_ }
      · intro task htask
        rcases List.mem_append.mp htask with hold | hnew
        · exact horder.done task hold
        · rw [List.mem_singleton.mp hnew]
          exact ⟨outcome, rfl⟩
      · rw [WorkQueue.jobs_done hworker]
        exact horder.submitted
  | @finishBad worker job result hworker hresult =>
      refine { horder with
        crew := set_ne_nil horder.crew _ _
        gone := fun hgone => horder.gone (gone_mem_of_set hgone (by nofun))
        failed := ?_, submitted := ?_ }
      · intro task htask
        rcases List.mem_append.mp htask with hold | hnew
        · exact horder.failed task hold
        · rw [List.mem_singleton.mp hnew]
          exact ⟨result, rfl, hresult⟩
      · rw [WorkQueue.jobs_failed hworker]
        exact horder.submitted
  | close hpending hcounted hopen =>
      refine { horder with phase := by nofun, gone := ?_, closed := fun _ => ⟨hpending, hcounted⟩ }
      exact fun hgone => absurd (horder.gone hgone).1 hopen
  | leave hworker hphase hqueued =>
      refine { horder with
        crew := set_ne_nil horder.crew _ _
        gone := fun _ => ⟨hphase, hqueued⟩, submitted := ?_ }
      rw [WorkQueue.jobs_leave hworker]
      exact horder.submitted

/-! ## The work that is left -/

/-- The number of steps that a file still takes from a worker, at most. -/
def Progress.effort : Progress → Nat
  | .waiting => 7
  | .working stage => stage.rank + 2
  | .counted _ => 1

/-- The number of steps that a worker still takes, at most, if no more files come. -/
def Worker.effort : Worker Task → Nat
  | .ready => 1
  | .busy task => task.progress.effort + 1
  | .gone => 0

/-- The number of events that it still takes to close a queue. -/
def QueuePhase.effort : QueuePhase → Nat
  | .closed => 0
  | .idle | .started => 1

/-- The number of events that a run still takes, at most. -/
def RunState.effort {σ : Type} (run : RunState σ) : Nat :=
  10 * run.pending.length + run.queue.uncounted +
    (run.queue.queued.map fun task => task.progress.effort + 1).sum +
    (run.queue.crew.map Worker.effort).sum + run.queue.phase.effort

namespace Indexer

variable {σ : Type} {indexer : Indexer σ} {run next : RunState σ}

/-- What a step of a file does: it begins with the file, or takes it one stage on. -/
theorem work?_cases {task after : Task} {state index : IndexState σ}
    (hwork : indexer.work? task state = some (after, index)) :
    after.job = task.job ∧ ((task.progress = .waiting ∧ index = state ∧
      after.progress = .working (indexer.firstStage state.files task.job)) ∨
      ∃ stage, task.progress = .working stage ∧ 0 < stage.rank ∧
        after.progress = .working (indexer.advance task.job stage state).1 ∧
        index = (indexer.advance task.job stage state).2) := by
  unfold work? at hwork
  split at hwork
  next hwaiting =>
    cases hwork
    exact ⟨rfl, .inl ⟨hwaiting, rfl, rfl⟩⟩
  next => cases hwork
  next => cases hwork
  next stage hmore hworking =>
    cases hwork
    refine ⟨rfl, .inr ⟨stage, hworking, Nat.pos_of_ne_zero fun hrank => ?_, rfl, rfl⟩⟩
    obtain ⟨result, rfl⟩ := IndexStage.exists_ended_of_rank hrank
    exact hmore result rfl

theorem effort_work?_lt {task after : Task} {state index : IndexState σ}
    (hwork : indexer.work? task state = some (after, index)) :
    after.progress.effort < task.progress.effort := by
  obtain ⟨-, ⟨hwaiting, -, hafter⟩ | ⟨stage, hworking, hmore, hafter, -⟩⟩ := work?_cases hwork
  · have hfirst := indexer.rank_firstStage_le state.files task.job
    rw [hwaiting, hafter]
    simp only [Progress.effort, maxSteps] at hfirst ⊢
    omega
  · have hrank := (indexer.advances_advance task.job stage state).rank_le
    rw [hworking, hafter]
    simp only [Progress.effort]
    omega

/-- Every event leaves less work. -/
theorem Moves.effort_lt (hmove : Moves indexer run next) : next.effort < run.effort := by
  cases hmove with
  | submit hpending hphase hroom =>
      simp only [RunState.effort, hpending, List.length_cons, List.map_append, List.sum_append,
        List.map_cons, List.map_nil, List.sum_cons, List.sum_nil, Progress.effort]
      omega
  | acknowledge hcount =>
      simp only [RunState.effort, hcount]
      omega
  | take hworker hqueued =>
      obtain ⟨rest, hold, hnew⟩ := WorkQueue.exists_sum_set Worker.effort hworker
      simp only [RunState.effort, hqueued, hold, hnew, List.map_cons, List.sum_cons, Worker.effort]
      omega
  | work hworker hwork =>
      obtain ⟨rest, hold, hnew⟩ := WorkQueue.exists_sum_set Worker.effort hworker
      have hless := effort_work?_lt hwork
      simp only [RunState.effort, WorkQueue.setJob, hold, hnew, Worker.effort]
      omega
  | note hworker =>
      obtain ⟨rest, hold, hnew⟩ := WorkQueue.exists_sum_set Worker.effort hworker
      simp only [RunState.effort, WorkQueue.setJob, hold, hnew, Worker.effort, Progress.effort,
        IndexStage.rank]
      omega
  | finishGood hworker =>
      obtain ⟨rest, hold, hnew⟩ := WorkQueue.exists_sum_set Worker.effort hworker
      simp only [RunState.effort, hold, hnew, Worker.effort, Progress.effort]
      omega
  | finishBad hworker hresult =>
      obtain ⟨rest, hold, hnew⟩ := WorkQueue.exists_sum_set Worker.effort hworker
      simp only [RunState.effort, hold, hnew, Worker.effort, Progress.effort]
      omega
  | close hpending hcounted hopen =>
      have hbefore : run.queue.phase.effort = 1 := by
        cases hphase : run.queue.phase with
        | closed => exact absurd hphase hopen
        | _ => rfl
      have hafter : QueuePhase.closed.effort = 0 := rfl
      simp only [RunState.effort, hbefore, hafter]
      omega
  | leave hworker hphase hqueued =>
      obtain ⟨rest, hold, hnew⟩ := WorkQueue.exists_sum_set Worker.effort hworker
      simp only [RunState.effort, hold, hnew, Worker.effort]
      omega

/-- No schedule is longer than the work it has done. -/
theorem length_add_effort_le {events : List RunEvent} {last : RunState σ}
    (hrun : indexer.schedule? run events = some last) :
    events.length + last.effort ≤ run.effort := by
  induction events generalizing run with
  | nil =>
      cases hrun
      exact Nat.le_of_eq (Nat.zero_add _)
  | cons event rest ih =>
      rw [schedule?] at hrun
      split at hrun
      · cases hrun
      next next hstep =>
        have hless := (moves_of_step? hstep).effort_lt
        have hrest := ih hrun
        rw [List.length_cons]
        omega

/-! ## Runs do not get stuck -/

/-- A worker with a file can go on. -/
theorem exists_step?_of_busy {worker : Nat} {task : Task}
    (hworker : run.queue.crew[worker]? = some (.busy task)) :
    ∃ event next, indexer.step? run event = some next := by
  have htask := WorkQueue.jobOf?_eq_some_iff.mpr hworker
  obtain ⟨job, progress⟩ := task
  cases progress with
  | waiting =>
      have hwork : (indexer.step? run (.work worker)).isSome = true := by
        simp [step?, htask, work?]
      exact ⟨.work worker, Option.isSome_iff_exists.mp hwork⟩
  | working stage =>
      cases stage with
      | ended result =>
          have hnote : (indexer.step? run (.note worker)).isSome = true := by
            simp [step?, htask]
          exact ⟨.note worker, Option.isSome_iff_exists.mp hnote⟩
      | _ =>
          have hwork : (indexer.step? run (.work worker)).isSome = true := by
            simp [step?, htask, work?]
          exact ⟨.work worker, Option.isSome_iff_exists.mp hwork⟩
  | counted result =>
      obtain ⟨queue, hfinish⟩ : ∃ queue, run.queue.finish? Task.verdict worker = some queue :=
        ⟨_, WorkQueue.finish?_eq_some_iff.mpr ⟨_, hworker, rfl⟩⟩
      refine ⟨.finish worker, { run with queue }, ?_⟩
      simp only [step?, htask]
      exact onQueue?_eq_some_iff.mpr ⟨queue, hfinish, rfl⟩

/-- A worker that is ready, if no worker has a file and not all are gone. -/
theorem exists_ready {crew : List (Worker Task)}
    (hidle : ¬∃ (worker : Nat) (task : Task), crew[worker]? = some (.busy task))
    (hsome : ∃ member ∈ crew, member ≠ Worker.gone) :
    ∃ worker : Nat, crew[worker]? = some .ready := by
  obtain ⟨member, hmember, hstays⟩ := hsome
  obtain ⟨worker, hworker⟩ := List.mem_iff_getElem?.mp hmember
  refine ⟨worker, ?_⟩
  cases member with
  | ready => exact hworker
  | busy task => exact absurd ⟨worker, task, hworker⟩ hidle
  | gone => exact absurd rfl hstays

/-- A run whose files are all handed out goes on: the next file is handed in, the
queue is closed, or a worker leaves. -/
theorem exists_step?_of_empty (indexer : Indexer σ) (horder : run.Orderly)
    (hover : run.queue.isOver = false)
    (hidle : ¬∃ (worker : Nat) (task : Task), run.queue.crew[worker]? = some (.busy task))
    (hcount : run.queue.uncounted = 0) (hqueued : run.queue.queued = []) :
    ∃ event next, indexer.step? run event = some next := by
  by_cases hclosed : run.queue.phase = .closed
  · have hstays : ∃ member ∈ run.queue.crew, member ≠ Worker.gone := by
      by_contra hall
      push Not at hall
      have hdone : run.queue.isOver = true := by
        simp only [WorkQueue.isOver, hclosed, beq_self_eq_true, Bool.true_and, List.all_eq_true]
        intro member hmember
        rw [hall member hmember]
      rw [hover] at hdone
      cases hdone
    obtain ⟨worker, hworker⟩ := exists_ready hidle hstays
    have hleave : (indexer.step? run (.leave worker)).isSome = true := by
      simp [step?, RunState.onQueue?, WorkQueue.leave?, hworker, hclosed, hqueued]
    exact ⟨.leave worker, Option.isSome_iff_exists.mp hleave⟩
  cases hpending : run.pending with
  | nil =>
      have hclose : (indexer.step? run .close).isSome = true := by
        simp [step?, hpending, RunState.onQueue?, WorkQueue.close?, hcount, hclosed]
      exact ⟨.close, Option.isSome_iff_exists.mp hclose⟩
  | cons job rest =>
      have hphase : run.queue.phase = .started := by
        cases hphase : run.queue.phase with
        | idle => exact absurd hphase horder.phase
        | started => rfl
        | closed => exact absurd hphase hclosed
      have hroom := horder.room
      have hsubmit : (indexer.step? run .submit).isSome = true := by
        simp [step?, hpending, RunState.onQueue?, WorkQueue.send?, hphase, hqueued, hroom]
      exact ⟨.submit, Option.isSome_iff_exists.mp hsubmit⟩

/-- A run that is not over goes on. -/
theorem exists_step? (indexer : Indexer σ) (horder : run.Orderly)
    (hover : run.queue.isOver = false) : ∃ event next, indexer.step? run event = some next := by
  by_cases hbusy : ∃ (worker : Nat) (task : Task), run.queue.crew[worker]? = some (.busy task)
  · obtain ⟨worker, task, hworker⟩ := hbusy
    exact exists_step?_of_busy hworker
  cases hcount : run.queue.uncounted with
  | succ rest =>
      have hacknowledge : (indexer.step? run .acknowledge).isSome = true := by
        simp [step?, RunState.onQueue?, WorkQueue.count?, hcount]
      exact ⟨.acknowledge, Option.isSome_iff_exists.mp hacknowledge⟩
  | zero =>
      cases hqueued : run.queue.queued with
      | cons task rest =>
          -- with a file in the queue, no worker is gone
          obtain ⟨worker, hworker⟩ := exists_ready hbusy (by
            obtain ⟨member, hmember⟩ := List.exists_mem_of_ne_nil _ horder.crew
            refine ⟨member, hmember, ?_⟩
            rintro rfl
            have hempty := (horder.gone hmember).2
            rw [hqueued] at hempty
            cases hempty)
          have htake : (indexer.step? run (.take worker)).isSome = true := by
            simp [step?, RunState.onQueue?, WorkQueue.take?, hworker, hqueued]
          exact ⟨.take worker, Option.isSome_iff_exists.mp htake⟩
      | nil => exact exists_step?_of_empty indexer horder hover hbusy hcount hqueued

end Indexer
end SourceIndex
