import SourceIndex.Proofs.Pipeline.Queue

/-!
# No job is lost and none is handled twice

A queue is followed through any events that can happen, in any order
(`WorkQueue.Reached`), with a history of the jobs that were taken in and of the jobs
that the handler was called with.  A handler need NOT answer the same when it is
called again, so every event has a handler of its own.

`WorkQueue.Conserved` is what every event keeps: each job that was taken in waits, is
in the hands of a worker or has ended, and the handler was called with the jobs that
do not wait, in the order in which they came.  Once the queue is closed every event
takes away one unit of work (`WorkQueue.left`), and there is an event that can happen
until all workers are gone; so the end comes whatever the order of events is.
-/

namespace SourceIndex

/-- What has happened to the jobs of a queue, the first job first. -/
structure QueueHistory (α : Type) where
  /-- The jobs that were taken in. -/
  accepted : List α := []
  /-- The jobs that the handler was called with. -/
  handled : List α := []

/-- The history once an event has happened to a queue.  The handler is called when a
worker takes a job. -/
def QueueHistory.after {α : Type} (history : QueueHistory α) (queue : WorkQueue α) :
    QueueEvent α → QueueHistory α
  | .send job => { history with accepted := history.accepted ++ [job] }
  | .take _ => { history with handled := history.handled ++ queue.queued.take 1 }
  | .start | .count | .finish _ | .close | .leave _ => history

/-- The history once some events have happened to a queue, as far as they can. -/
def QueueHistory.afterAll {α : Type} (handle : α → Verdict) (history : QueueHistory α)
    (queue : WorkQueue α) : List (QueueEvent α) → QueueHistory α
  | [] => history
  | event :: rest =>
    match queue.step? handle event with
    | none => history
    | some next => (history.after queue event).afterAll handle next rest

namespace WorkQueue

variable {α : Type} {queue next : WorkQueue α} {history : QueueHistory α} {worker room : Nat}

/-- The states that a queue can come to, each with its history. -/
inductive Reached (workers capacity machine : Nat) : WorkQueue α → QueueHistory α → Prop
  | requested : Reached workers capacity machine (ofRequest workers capacity machine) {}
  | step {queue next : WorkQueue α} {history : QueueHistory α}
      (hbefore : Reached workers capacity machine queue history) (handle : α → Verdict)
      {event : QueueEvent α} (hstep : queue.step? handle event = some next) :
      Reached workers capacity machine next (history.after queue event)

theorem Reached.run? {workers capacity machine : Nat}
    (hreached : Reached workers capacity machine queue history) {handle : α → Verdict}
    {events : List (QueueEvent α)} {last : WorkQueue α}
    (hrun : queue.run? handle events = some last) :
    Reached workers capacity machine last (history.afterAll handle queue events) := by
  induction events generalizing queue history with
  | nil =>
      cases hrun
      exact hreached
  | cons event rest ih =>
      rw [WorkQueue.run?] at hrun
      rw [QueueHistory.afterAll]
      cases hstep : queue.step? handle event with
      | none =>
          rw [hstep] at hrun
          cases hrun
      | some next =>
          rw [hstep] at hrun
          exact ih (hreached.step handle hstep) hrun

/-! ## What every event keeps -/

/-- What holds at all times of a queue with room for `room` jobs. -/
structure Conserved (room : Nat) (queue : WorkQueue α) (history : QueueHistory α) : Prop where
  workers : 0 < queue.workers
  capacity : queue.capacity = room
  length_le : queue.queued.length ≤ room
  idle : queue.phase = .idle → queue.crew = []
  manned : queue.phase = .started → queue.crew ≠ []
  unmanned : queue.crew = [] → queue.queued = []
  gone : .gone ∈ queue.crew → queue.phase = .closed ∧ queue.queued = []
  closed : queue.phase = .closed → queue.uncounted = 0
  order : history.accepted = history.handled ++ queue.queued
  jobs : (history.accepted : Multiset α) = queue.jobs
  counted : queue.submitted + queue.uncounted = history.accepted.length

namespace Conserved

theorem requested {workers machine : Nat} (hworkers : 0 < workers ∨ 0 < machine)
    (capacity : Nat) :
    Conserved (max capacity 1) (ofRequest workers capacity machine : WorkQueue α) {} where
  workers := by
    unfold ofRequest
    dsimp only
    split <;> omega
  capacity := rfl
  length_le := Nat.zero_le _
  idle := fun _ => rfl
  manned := by nofun
  unmanned := fun _ => rfl
  gone := by nofun
  closed := by nofun
  order := rfl
  jobs := rfl
  counted := rfl

theorem start? (hkept : Conserved room queue history) (hstart : queue.start? = some next) :
    Conserved room next history := by
  rcases start?_eq_some_iff.mp hstart with ⟨⟨hidle, -⟩, rfl⟩ | ⟨-, rfl⟩
  · have hnone := hkept.idle hidle
    have hcrew : List.replicate queue.workers (Worker.ready : Worker α) ≠ [] := by
      rw [Ne, List.replicate_eq_nil_iff]
      exact Nat.ne_of_gt hkept.workers
    refine { hkept with
      idle := by nofun, manned := fun _ => hcrew, unmanned := fun hempty => absurd hempty hcrew
      gone := by simp, closed := by nofun, jobs := ?_ }
    -- nobody had a job before, and nobody has one now
    rw [hkept.jobs, WorkQueue.jobs, WorkQueue.jobs, hnone]
    simp [Worker.hand]
  · exact hkept

theorem send? (hkept : Conserved room queue history) {job : α}
    (hsend : queue.send? job = some next) :
    Conserved room next { history with accepted := history.accepted ++ [job] } := by
  obtain ⟨⟨hphase, hroom⟩, rfl⟩ := send?_eq_some_iff.mp hsend
  have hopen : queue.phase ≠ .closed := by
    rw [hphase]
    nofun
  refine { hkept with
    length_le := ?_, unmanned := fun hempty => absurd hempty (hkept.manned hphase)
    gone := fun hgone => absurd (hkept.gone hgone).1 hopen
    closed := fun hclosed => absurd hclosed hopen, order := ?_, jobs := ?_, counted := ?_ }
  · rw [List.length_append, List.length_singleton, ← hkept.capacity]
    exact hroom
  · rw [hkept.order, List.append_assoc]
  · rw [jobs_send, ← hkept.jobs, ← Multiset.coe_add, Multiset.coe_singleton, add_comm]
  · have hcount := hkept.counted
    rw [List.length_append, List.length_singleton, ← hcount, Nat.add_assoc]

theorem count? (hkept : Conserved room queue history) (hcount : queue.count? = some next) :
    Conserved room next history := by
  obtain ⟨rest, hrest, rfl⟩ := count?_eq_some_iff.mp hcount
  refine { hkept with closed := fun hclosed => ?_, jobs := hkept.jobs, counted := ?_ }
  · have hnone := hkept.closed hclosed
    omega
  · have hsum := hkept.counted
    dsimp only
    omega

theorem take? (hkept : Conserved room queue history) (htake : queue.take? worker = some next) :
    Conserved room next { history with handled := history.handled ++ queue.queued.take 1 } := by
  obtain ⟨job, rest, hworker, hqueued, rfl⟩ := take?_eq_some_iff.mp htake
  have hmore : queue.queued ≠ [] := by
    rw [hqueued]
    nofun
  have hcrew : queue.crew ≠ [] := fun hempty => hmore (hkept.unmanned hempty)
  refine { hkept with
    length_le := ?_
    idle := fun hidle => absurd (hkept.idle hidle) hcrew
    manned := fun _ => set_ne_nil hcrew _ _
    unmanned := fun hempty => absurd hempty (set_ne_nil hcrew _ _)
    gone := fun hgone => absurd (hkept.gone (gone_mem_of_set hgone (by nofun))).2 hmore
    order := ?_, jobs := ?_ }
  · have hlength := hkept.length_le
    rw [hqueued, List.length_cons] at hlength
    exact Nat.le_of_succ_le hlength
  · rw [hkept.order, hqueued, List.append_assoc]
    rfl
  · rw [jobs_take hworker hqueued]
    exact hkept.jobs

theorem finish? (hkept : Conserved room queue history) {handle : α → Verdict}
    (hfinish : queue.finish? handle worker = some next) : Conserved room next history := by
  obtain ⟨job, hworker, rfl⟩ := finish?_eq_some_iff.mp hfinish
  have hcrew : queue.crew ≠ [] := by
    intro hempty
    rw [hempty] at hworker
    cases hworker
  -- whatever the handler has answered, the worker is ready again
  have hset : ∀ done failed : List α,
      (WorkQueue.jobs { queue with crew := queue.crew.set worker .ready, done, failed } =
        queue.jobs) →
      Conserved room { queue with crew := queue.crew.set worker .ready, done, failed } history :=
    fun done failed hjobs => { hkept with
      idle := fun hidle => absurd (hkept.idle hidle) hcrew
      manned := fun _ => set_ne_nil hcrew _ _
      unmanned := fun hempty => absurd hempty (set_ne_nil hcrew _ _)
      gone := fun hgone => hkept.gone (gone_mem_of_set hgone (by nofun))
      jobs := hkept.jobs.trans hjobs.symm }
  split
  · exact hset _ _ (jobs_done hworker)
  · exact hset _ _ (jobs_failed hworker)

theorem close? (hkept : Conserved room queue history) (hclose : queue.close? = some next) :
    Conserved room next history := by
  obtain ⟨⟨hcounted, hopen⟩, rfl⟩ := close?_eq_some_iff.mp hclose
  exact { hkept with
    idle := by nofun, manned := by nofun
    gone := fun hgone => absurd (hkept.gone hgone).1 hopen
    closed := fun _ => hcounted, jobs := hkept.jobs }

theorem leave? (hkept : Conserved room queue history)
    (hleave : queue.leave? worker = some next) : Conserved room next history := by
  obtain ⟨⟨hworker, hphase, hqueued⟩, rfl⟩ := leave?_eq_some_iff.mp hleave
  refine { hkept with
    idle := fun hidle => ?_, manned := fun hstarted => ?_, unmanned := fun _ => hqueued
    gone := fun _ => ⟨hphase, hqueued⟩, jobs := ?_ }
  · rw [hphase] at hidle
    cases hidle
  · rw [hphase] at hstarted
    cases hstarted
  · rw [jobs_leave hworker]
    exact hkept.jobs

theorem step (hkept : Conserved room queue history) {handle : α → Verdict}
    {event : QueueEvent α} (hstep : queue.step? handle event = some next) :
    Conserved room next (history.after queue event) := by
  cases event with
  | start => exact hkept.start? hstep
  | send job => exact hkept.send? hstep
  | count => exact hkept.count? hstep
  | take worker => exact hkept.take? hstep
  | finish worker => exact hkept.finish? hstep
  | close => exact hkept.close? hstep
  | leave worker => exact hkept.leave? hstep

/-- The handler was called with the jobs that do not wait. -/
theorem handled_eq (hkept : Conserved room queue history) :
    (history.handled : Multiset α) = queue.inHand + queue.done + queue.failed := by
  have hjobs := hkept.jobs
  rw [hkept.order, jobs_eq, ← Multiset.coe_add, add_comm (history.handled : Multiset α)] at hjobs
  simpa only [add_assoc, add_right_inj] using hjobs

/-- When all workers are gone, all jobs were handled and counted. -/
theorem of_isOver (hkept : Conserved room queue history) (hover : queue.isOver = true) :
    queue.queued = [] ∧ queue.inHand = [] ∧ queue.uncounted = 0 ∧
      queue.submitted = queue.done.length + queue.failed.length ∧
      history.handled = history.accepted := by
  obtain ⟨hclosed, hgone⟩ := isOver_eq_true_iff.mp hover
  have hqueued : queue.queued = [] := by
    by_cases hcrew : queue.crew = []
    · exact hkept.unmanned hcrew
    · obtain ⟨member, hmember⟩ := List.exists_mem_of_ne_nil _ hcrew
      exact (hkept.gone (hgone member hmember ▸ hmember)).2
  have hhands : queue.inHand = [] := by
    rw [← Multiset.coe_eq_zero, coe_inHand, sum_hand_of_gone hgone]
  have hcounted := hkept.closed hclosed
  have hsum := hkept.counted
  have hcard := congrArg Multiset.card hkept.jobs
  rw [jobs_eq, hqueued, hhands] at hcard
  simp only [Multiset.coe_card, Multiset.card_add, List.length_nil] at hcard
  refine ⟨hqueued, hhands, hcounted, ?_, ?_⟩
  · omega
  · rw [hkept.order, hqueued, List.append_nil]

end Conserved

theorem Reached.conserved {workers capacity machine : Nat}
    (hworkers : 0 < workers ∨ 0 < machine)
    (hreached : Reached workers capacity machine queue history) :
    Conserved (max capacity 1) queue history := by
  induction hreached with
  | requested => exact .requested hworkers capacity
  | step _ handle hstep ih => exact ih.step hstep

end WorkQueue

/-! ## The way to the end -/

/-- The number of events that a worker still takes if no more jobs come. -/
def Worker.load {α : Type} : Worker α → Nat
  | .ready => 1
  | .busy _ => 2
  | .gone => 0

namespace WorkQueue

variable {α : Type} {queue next : WorkQueue α} {history : QueueHistory α}

/-- The number of events that a closed queue still takes. -/
def left (queue : WorkQueue α) : Nat :=
  2 * queue.queued.length + (queue.crew.map Worker.load).sum

/-- Every event of a closed queue takes away one unit of work. -/
theorem left_step? (hclosed : queue.phase = .closed) (hcounted : queue.uncounted = 0)
    {handle : α → Verdict} {event : QueueEvent α} (hstep : queue.step? handle event = some next) :
    next.left + 1 = queue.left ∧ next.phase = .closed ∧ next.uncounted = 0 := by
  cases event with
  | start =>
      rcases start?_eq_some_iff.mp hstep with ⟨⟨hidle, -⟩, -⟩ | ⟨hstarted, -⟩
      · rw [hclosed] at hidle
        cases hidle
      · rw [hclosed] at hstarted
        cases hstarted
  | send job =>
      have hstarted := (send?_eq_some_iff.mp hstep).1.1
      rw [hclosed] at hstarted
      cases hstarted
  | count =>
      obtain ⟨rest, hrest, -⟩ := count?_eq_some_iff.mp hstep
      omega
  | take worker =>
      obtain ⟨job, rest, hworker, hqueued, rfl⟩ := take?_eq_some_iff.mp hstep
      obtain ⟨others, hold, hnew⟩ := exists_sum_set Worker.load hworker
      refine ⟨?_, hclosed, hcounted⟩
      simp only [left, hqueued, hold, hnew, Worker.load, List.length_cons]
      omega
  | finish worker =>
      obtain ⟨job, hworker, rfl⟩ := finish?_eq_some_iff.mp hstep
      obtain ⟨others, hold, hnew⟩ := exists_sum_set Worker.load hworker
      split <;> refine ⟨?_, hclosed, hcounted⟩ <;>
      · simp only [left, hold, hnew, Worker.load]
        omega
  | close => exact absurd hclosed (close?_eq_some_iff.mp hstep).1.2
  | leave worker =>
      obtain ⟨⟨hworker, -, -⟩, rfl⟩ := leave?_eq_some_iff.mp hstep
      obtain ⟨others, hold, hnew⟩ := exists_sum_set Worker.load hworker
      refine ⟨?_, hclosed, hcounted⟩
      simp only [left, hold, hnew, Worker.load]
      omega

theorem length_add_left (hclosed : queue.phase = .closed) (hcounted : queue.uncounted = 0)
    {handle : α → Verdict} {events : List (QueueEvent α)} {last : WorkQueue α}
    (hrun : queue.run? handle events = some last) :
    events.length + last.left = queue.left ∧ last.phase = .closed := by
  induction events generalizing queue with
  | nil =>
      cases hrun
      exact ⟨Nat.zero_add _, hclosed⟩
  | cons event rest ih =>
      rw [WorkQueue.run?] at hrun
      split at hrun
      · cases hrun
      next next hstep =>
        obtain ⟨hless, hphase, hnone⟩ := left_step? hclosed hcounted hstep
        obtain ⟨hlength, hlast⟩ := ih hphase hnone hrun
        refine ⟨?_, hlast⟩
        rw [List.length_cons]
        omega

/-- A worker that has not left a closed queue can go on. -/
theorem exists_nextEvent?_of_closed (hclosed : queue.phase = .closed)
    (hover : queue.isOver = false) (handle : α → Verdict) :
    ∃ event next, queue.nextEvent? = some event ∧ queue.step? handle event = some next := by
  cases hnext : queue.nextEvent? with
  | none =>
      rw [isOver_eq_true_iff.mpr ⟨hclosed, nextEvent?_eq_none_iff.mp hnext⟩] at hover
      cases hover
  | some event =>
      obtain ⟨next, hstep⟩ := exists_step?_of_nextEvent? hnext (fun _ => hclosed) handle
      exact ⟨event, next, rfl, hstep⟩

/-! ## Every job is handled once -/

/-- **Every job is handled once.**  In every state that a queue can come to, the jobs
that were taken in are those that wait, those in the hands of workers and those that
have ended, the handler was called once with each of them that does not wait, and no
more jobs wait than there is room for.  When all workers are gone no job waits, all
jobs were counted, and the handler was called with exactly the jobs that were taken
in.  A closed queue comes to that end whatever the order of events is.  Before the
start no job is taken in, and another start changes nothing. -/
theorem every_job_handled_once {workers capacity machine : Nat}
    (hworkers : 0 < workers ∨ 0 < machine)
    (hreached : Reached workers capacity machine queue history) :
    (history.accepted : Multiset α) =
        queue.queued + queue.inHand + queue.done + queue.failed ∧
      (history.handled : Multiset α) = queue.inHand + queue.done + queue.failed ∧
      queue.queued.length ≤ max capacity 1 ∧
      (queue.isOver = true →
        queue.queued = [] ∧ (∀ member ∈ queue.crew, member = .gone) ∧
        queue.submitted = queue.done.length + queue.failed.length ∧
        queue.uncounted = 0 ∧ queue.submitted = history.accepted.length ∧
        history.handled = history.accepted) ∧
      (queue.phase = .closed → ∀ handle events last, queue.run? handle events = some last →
        events.length ≤ queue.left ∧
          (last.isOver = true ∨ ∃ event next, last.step? handle event = some next)) ∧
      (queue.phase = .idle → ∀ handle job,
        queue.add handle job = .error .notStarted ∧ queue.step? handle (.send job) = none) ∧
      (queue.phase = .started → ∀ handle, queue.step? handle .start = some queue) := by
  have hkept := hreached.conserved hworkers
  refine ⟨?_, hkept.handled_eq, hkept.length_le, ?_, ?_, ?_, ?_⟩
  · rw [hkept.jobs, jobs_eq]
  · intro hover
    obtain ⟨hqueued, -, hcounted, hsum, hall⟩ := hkept.of_isOver hover
    have hsubmitted := hkept.counted
    rw [hcounted, Nat.add_zero] at hsubmitted
    exact ⟨hqueued, (isOver_eq_true_iff.mp hover).2, hsum, hcounted, hsubmitted, hall⟩
  · intro hclosed handle events last hrun
    obtain ⟨hlength, hlast⟩ := length_add_left hclosed (hkept.closed hclosed) hrun
    refine ⟨by omega, ?_⟩
    cases hover : last.isOver with
    | true => exact .inl rfl
    | false =>
        obtain ⟨event, next, -, hstep⟩ := exists_nextEvent?_of_closed hlast hover handle
        exact .inr ⟨event, next, hstep⟩
  · intro hidle handle job
    refine ⟨by rw [add, hidle], ?_⟩
    rw [step?, send?, if_neg]
    rintro ⟨hstarted, -⟩
    rw [hidle] at hstarted
    cases hstarted
  · intro hstarted handle
    exact start?_eq_some_iff.mpr (.inr ⟨hstarted, rfl⟩)

/-! ## Two workers and room for one job -/

/-- A handler that takes to even jobs, refuses odd ones and crashes on job 4. -/
def handlerSample (job : Nat) : Verdict :=
  if job = 4 then .crash else if job % 2 = 0 then .good else .bad

/-- The first job has ended before it is counted, the queue is started once more, and
it is closed while a job waits. -/
def eventSample : List (QueueEvent Nat) :=
  [.start, .send 2, .take 1, .finish 1, .count, .send 3, .take 0, .start, .send 4, .count, .count,
    .close, .finish 0, .take 0, .leave 1, .finish 0, .leave 0]

theorem every_job_handled_once_eventSample :
    ∃ last, (ofRequest 2 0 1).run? handlerSample eventSample = some last ∧
      last.isOver = true ∧ (last.done, last.failed) = ([2], [3, 4]) ∧
      last.submitted = last.done.length + last.failed.length ∧
      (QueueHistory.afterAll handlerSample {} (ofRequest 2 0 1) eventSample).handled =
        [2, 3, 4] := by
  have hend : ((ofRequest 2 0 1).run? handlerSample eventSample).map (fun last =>
      (last.isOver, last.done, last.failed)) = some (true, [2], [3, 4]) := by
    decide
  obtain ⟨last, hrun, hlast⟩ := Option.map_eq_some_iff.mp hend
  obtain ⟨hover, hended⟩ := Prod.mk.inj hlast
  have hreached := (.requested : Reached 2 0 1 (ofRequest 2 0 1) {}).run? hrun
  obtain ⟨-, -, -, hall, -⟩ := every_job_handled_once (.inl Nat.zero_lt_two) hreached
  obtain ⟨-, -, hsum, -, -, hhandled⟩ := hall hover
  refine ⟨last, hrun, hover, hended, hsum, ?_⟩
  rw [hhandled]
  decide

end WorkQueue
end SourceIndex
