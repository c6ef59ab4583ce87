import SourceIndex.Proofs.Pipeline.Conservation

/-!
# Handing in jobs and waiting for the end

`WorkQueue.add` and `WorkQueue.wait` run the system of steps in one way, and what they do is
what some sequence of events does.

* `WorkQueue.add_eq_run?`: in every state that a started queue can come to, to hand in a job is
  to let a worker make room, to send the job and to count it.  The job is never refused.
* `WorkQueue.wait_eq_run?`: in every state in which no job is being handed in, to wait is to
  close the queue and to let the workers go on until all of them are gone.
* `WorkQueue.report_of_jobs`: so all jobs that are handed in one after the other are handled, in
  their order, and the report accounts for each of them.

A worker need NOT be ready when a job is handed in: in a full queue with a worker at work, room
is made as soon as that worker has ended its job and taken the next one.
-/

namespace SourceIndex

/-- Whether an event is one of a worker. -/
def QueueEvent.isOfWorker {α : Type} : QueueEvent α → Bool
  | .take _ | .finish _ | .leave _ => true
  | .start | .send _ | .count | .close => false

/-- The job that an event sends. -/
def QueueEvent.sent? {α : Type} : QueueEvent α → Option α
  | .send job => some job
  | _ => none

namespace WorkQueue

variable {α : Type} {queue next last : WorkQueue α} {history : QueueHistory α}
  {handle : α → Verdict} {event : QueueEvent α} {events : List (QueueEvent α)}

/-! ## Runs -/

theorem run?_append (first second : List (QueueEvent α)) :
    queue.run? handle (first ++ second) = (queue.run? handle first).bind (·.run? handle second) := by
  induction first generalizing queue with
  | nil => rfl
  | cons event rest ih =>
      rw [List.cons_append, run?, run?]
      cases queue.step? handle event with
      | none => rfl
      | some next => exact ih

/-- What was taken in is what was sent. -/
theorem accepted_afterAll (hrun : queue.run? handle events = some last) :
    (history.afterAll handle queue events).accepted =
      history.accepted ++ events.filterMap QueueEvent.sent? := by
  induction events generalizing queue history with
  | nil => exact (List.append_nil _).symm
  | cons event rest ih =>
      rw [run?] at hrun
      split at hrun
      · cases hrun
      next next hstep =>
        rw [QueueHistory.afterAll, hstep]
        dsimp only
        rw [ih hrun]
        cases event <;> simp [QueueHistory.after, QueueEvent.sent?, List.filterMap_cons]

theorem Reached.exists_run? {workers capacity machine : Nat}
    (hreached : Reached workers capacity machine queue history)
    (hrun : queue.run? handle events = some last) :
    ∃ handled, Reached workers capacity machine last
      { accepted := history.accepted ++ events.filterMap QueueEvent.sent?, handled } := by
  refine ⟨(history.afterAll handle queue events).handled, ?_⟩
  rw [← accepted_afterAll hrun]
  exact hreached.run? hrun

theorem filterMap_sent?_of_isOfWorker (hworkers : ∀ event ∈ events, event.isOfWorker = true) :
    events.filterMap QueueEvent.sent? = [] := by
  refine List.filterMap_eq_nil_iff.mpr fun event hevent => ?_
  have hworker := hworkers event hevent
  cases event with
  | send job => cases hworker
  | _ => rfl

/-- A worker neither opens nor closes a queue, and it counts nothing that was sent. -/
theorem kept_of_step? (hstep : queue.step? handle event = some next)
    (hworker : event.isOfWorker = true) :
    next.phase = queue.phase ∧ next.capacity = queue.capacity ∧
      next.uncounted = queue.uncounted := by
  cases event with
  | take worker =>
      obtain ⟨job, rest, -, -, rfl⟩ := take?_eq_some_iff.mp hstep
      exact ⟨rfl, rfl, rfl⟩
  | finish worker =>
      obtain ⟨job, -, rfl⟩ := finish?_eq_some_iff.mp hstep
      split <;> exact ⟨rfl, rfl, rfl⟩
  | leave worker =>
      obtain ⟨-, rfl⟩ := leave?_eq_some_iff.mp hstep
      exact ⟨rfl, rfl, rfl⟩
  | start => cases hworker
  | send job => cases hworker
  | count => cases hworker
  | close => cases hworker

/-- Nor do many steps of workers. -/
theorem kept_of_run? (hrun : queue.run? handle events = some last)
    (hworkers : ∀ event ∈ events, event.isOfWorker = true) :
    last.phase = queue.phase ∧ last.capacity = queue.capacity ∧
      last.uncounted = queue.uncounted := by
  induction events generalizing queue with
  | nil =>
      cases hrun
      exact ⟨rfl, rfl, rfl⟩
  | cons event rest ih =>
      obtain ⟨hevent, hrest⟩ := List.forall_mem_cons.mp hworkers
      rw [run?] at hrun
      split at hrun
      · cases hrun
      next next hstep =>
        obtain ⟨hphase, hcapacity, huncounted⟩ := ih hrun hrest
        rw [hphase, hcapacity, huncounted]
        exact kept_of_step? hstep hevent

theorem isOfWorker_of_nextEvent? (hnext : queue.nextEvent? = some event) :
    event.isOfWorker = true := by
  obtain ⟨worker, ⟨job, -, rfl⟩ | ⟨-, -, rfl⟩ | ⟨-, -, rfl⟩⟩ := nextEvent?_cases hnext <;> rfl

theorem goOn_succ (hnext : queue.nextEvent? = some event)
    (hstep : queue.step? handle event = some next) (steps : Nat) :
    queue.goOn handle (steps + 1) = next.goOn handle steps := by
  rw [goOn, hnext, Option.bind_some, hstep]

/-- To let a worker go on is to run events of workers. -/
theorem exists_run?_goOn (queue : WorkQueue α) (handle : α → Verdict) (steps : Nat) :
    ∃ events, (∀ event ∈ events, event.isOfWorker = true) ∧
      queue.run? handle events = some (queue.goOn handle steps) := by
  induction steps generalizing queue with
  | zero => exact ⟨[], by simp, rfl⟩
  | succ steps ih =>
      cases hnext : queue.nextEvent? with
      | none => exact ⟨[], by simp, by rw [goOn, hnext]; rfl⟩
      | some event =>
          cases hstep : queue.step? handle event with
          | none => exact ⟨[], by simp, by rw [goOn, hnext, Option.bind_some, hstep]; rfl⟩
          | some next =>
              obtain ⟨events, hworkers, hrun⟩ := ih next
              refine ⟨event :: events, ?_, ?_⟩
              · exact List.forall_mem_cons.mpr ⟨isOfWorker_of_nextEvent? hnext, hworkers⟩
              · rw [run?, hstep, goOn_succ hnext hstep]
                exact hrun

/-! ## Handing in a job -/

section FirstWorker

variable {job : α} {rest : List α} {others : List (Worker α)}

theorem exists_take_of_ready (hcrew : queue.crew = .ready :: others)
    (hqueued : queue.queued = job :: rest) (handle : α → Verdict) :
    ∃ next, queue.nextEvent? = some (.take 0) ∧ queue.step? handle (.take 0) = some next ∧
      next.queued = rest ∧ next.crew = .busy job :: others := by
  have hworker : queue.crew[0]? = some .ready := by rw [hcrew]; rfl
  refine ⟨_, by simp [nextEvent?, hcrew, hqueued],
    take?_eq_some_iff.mpr ⟨job, rest, hworker, hqueued, rfl⟩, rfl, ?_⟩
  rw [hcrew]
  rfl

theorem exists_finish_of_busy (hcrew : queue.crew = .busy job :: others) (handle : α → Verdict) :
    ∃ next, queue.nextEvent? = some (.finish 0) ∧ queue.step? handle (.finish 0) = some next ∧
      next.queued = queue.queued ∧ next.crew = .ready :: others := by
  have hworker : queue.crew[0]? = some (.busy job) := by rw [hcrew]; rfl
  refine ⟨_, by simp [nextEvent?, hcrew], finish?_eq_some_iff.mpr ⟨job, hworker, rfl⟩, ?_⟩
  split <;> exact ⟨rfl, by rw [hcrew]; rfl⟩

/-- In two steps the first worker takes a job, whether it is ready or at work. -/
theorem queued_goOn_two {first : Worker α} (hcrew : queue.crew = first :: others)
    (hstays : first ≠ .gone) (hqueued : queue.queued = job :: rest) (handle : α → Verdict) :
    (queue.goOn handle 2).queued = rest := by
  cases first with
  | gone => exact absurd rfl hstays
  | ready =>
      obtain ⟨taken, hnext, htake, hrest, hbusy⟩ := exists_take_of_ready hcrew hqueued handle
      obtain ⟨ended, hlater, hfinish, hsame, -⟩ := exists_finish_of_busy hbusy handle
      rw [goOn_succ hnext htake, goOn_succ hlater hfinish, goOn, hsame, hrest]
  | busy earlier =>
      obtain ⟨ended, hnext, hfinish, hsame, hready⟩ := exists_finish_of_busy hcrew handle
      obtain ⟨taken, hlater, htake, hrest, -⟩ :=
        exists_take_of_ready hready (hsame.trans hqueued) handle
      rw [goOn_succ hnext hfinish, goOn_succ hlater htake, goOn, hrest]

end FirstWorker

/-- A queue with room takes a job. -/
theorem exists_run?_send_count (hstarted : queue.phase = .started)
    (hroom : queue.queued.length < queue.capacity) (handle : α → Verdict) (job : α) :
    ∃ next, queue.run? handle [.send job, .count] = some next ∧ next.phase = .started ∧
      next.uncounted = queue.uncounted := by
  have hsend : queue.step? handle (.send job) =
      some { queue with queued := queue.queued ++ [job], uncounted := queue.uncounted + 1 } :=
    send?_eq_some_iff.mpr ⟨⟨hstarted, hroom⟩, rfl⟩
  refine ⟨{ queue with queued := queue.queued ++ [job], submitted := queue.submitted + 1 }, ?_,
    hstarted, rfl⟩
  rw [run?, hsend]
  rfl

section Reached

variable {workers capacity machine : Nat} (hworkers : 0 < workers ∨ 0 < machine)
  (hreached : Reached workers capacity machine queue history)
include hworkers hreached

/-- A full queue that was started has room once a worker has gone on. -/
theorem length_goOn_lt (hstarted : queue.phase = .started)
    (hfull : ¬queue.queued.length < queue.capacity) (handle : α → Verdict) :
    (queue.goOn handle 2).queued.length < queue.capacity := by
  have hkept := hreached.conserved hworkers
  have hcapacity := hkept.capacity
  have hlength := hkept.length_le
  have hmore : queue.queued ≠ [] := by
    intro hempty
    rw [hempty, List.length_nil] at hfull
    omega
  obtain ⟨job, rest, hqueued⟩ := List.exists_cons_of_ne_nil hmore
  obtain ⟨first, others, hcrew⟩ := List.exists_cons_of_ne_nil (hkept.manned hstarted)
  have hstays : first ≠ .gone := by
    rintro rfl
    have hclosed := (hkept.gone (by rw [hcrew]; exact List.mem_cons_self)).1
    rw [hstarted] at hclosed
    cases hclosed
  rw [queued_goOn_two hcrew hstays hqueued]
  rw [hqueued, List.length_cons] at hlength
  omega

/-- To hand in a job is to let a worker make room, if need be, and then to send and to count the
job.  A started queue takes every job. -/
theorem add_eq_run? (hstarted : queue.phase = .started) (handle : α → Verdict) (job : α) :
    ∃ served next, (∀ event ∈ served, event.isOfWorker = true) ∧
      (queue.queued.length < queue.capacity → served = []) ∧
      queue.run? handle (served ++ [.send job, .count]) = some next ∧
      queue.add handle job = .ok next ∧
      next.phase = .started ∧ next.uncounted = queue.uncounted := by
  by_cases hroom : queue.queued.length < queue.capacity
  · obtain ⟨next, hsend, hphase, huncounted⟩ :=
      exists_run?_send_count hstarted hroom handle job
    refine ⟨[], next, by simp, fun _ => rfl, hsend, ?_, hphase, huncounted⟩
    simp only [add, hstarted, if_pos hroom, hsend]
  · obtain ⟨served, hserved, hrun⟩ := queue.exists_run?_goOn handle 2
    obtain ⟨hphase, hcapacity, huncounted⟩ := kept_of_run? hrun hserved
    have hmade := length_goOn_lt hworkers hreached hstarted hroom handle
    rw [← hcapacity] at hmade
    obtain ⟨next, hsend, hnext, hsame⟩ :=
      exists_run?_send_count (hphase.trans hstarted) hmade handle job
    refine ⟨served, next, hserved, fun hless => absurd hless hroom, ?_, ?_, hnext,
      hsame.trans huncounted⟩
    · rw [run?_append, hrun, Option.bind_some, hsend]
    · simp only [add, hstarted, if_neg hroom, hsend]

theorem exists_reached_add (hstarted : queue.phase = .started) (handle : α → Verdict) (job : α) :
    ∃ next handled, queue.add handle job = .ok next ∧
      Reached workers capacity machine next { accepted := history.accepted ++ [job], handled } ∧
      next.phase = .started ∧ next.uncounted = queue.uncounted := by
  obtain ⟨served, next, hserved, -, hrun, hadd, hphase, huncounted⟩ :=
    add_eq_run? hworkers hreached hstarted handle job
  obtain ⟨handled, hafter⟩ := hreached.exists_run? hrun
  rw [List.filterMap_append, filterMap_sent?_of_isOfWorker hserved] at hafter
  exact ⟨next, handled, hadd, hafter, hphase, huncounted⟩

theorem exists_reached_addAll (hstarted : queue.phase = .started) (handle : α → Verdict)
    (jobs : List α) :
    ∃ filled handled, jobs.foldlM (fun queue job => queue.add handle job) queue = .ok filled ∧
      Reached workers capacity machine filled { accepted := history.accepted ++ jobs, handled } ∧
      filled.phase = .started ∧ filled.uncounted = queue.uncounted := by
  induction jobs generalizing queue history with
  | nil => exact ⟨queue, history.handled, rfl, by rwa [List.append_nil], hstarted, rfl⟩
  | cons job rest ih =>
      obtain ⟨next, handled, hadd, hnext, hphase, hcounted⟩ :=
        exists_reached_add hworkers hreached hstarted handle job
      obtain ⟨filled, later, hrest, hfilled, hlast, hall⟩ := ih hnext hphase
      refine ⟨filled, later, ?_, ?_, hlast, hall.trans hcounted⟩
      · rw [List.foldlM_cons, hadd]
        exact hrest
      · rwa [List.append_assoc, List.singleton_append] at hfilled

end Reached

/-! ## Waiting for the end -/

theorem left_le (queue : WorkQueue α) :
    queue.left ≤ 2 * (queue.queued.length + queue.crew.length) := by
  have hloads : (queue.crew.map Worker.load).sum ≤ 2 * queue.crew.length := by
    induction queue.crew with
    | nil => exact Nat.zero_le _
    | cons member rest ih =>
        rw [List.map_cons, List.sum_cons, List.length_cons]
        have hload : member.load ≤ 2 := by
          cases member <;> simp [Worker.load]
        omega
  rw [left]
  omega

/-- Workers that go on for long enough in a closed queue are gone in the end. -/
theorem isOver_goOn (hclosed : queue.phase = .closed) (hcounted : queue.uncounted = 0)
    (handle : α → Verdict) {steps : Nat} (henough : queue.left ≤ steps) :
    (queue.goOn handle steps).isOver = true := by
  induction steps generalizing queue with
  | zero =>
      rw [goOn]
      by_contra hstays
      obtain ⟨event, next, -, hstep⟩ :=
        exists_nextEvent?_of_closed hclosed (Bool.eq_false_iff.mpr hstays) handle
      have hless := (left_step? hclosed hcounted hstep).1
      omega
  | succ steps ih =>
      cases hover : queue.isOver with
      | true =>
          have hnone := nextEvent?_eq_none_iff.mpr (isOver_eq_true_iff.mp hover).2
          rw [goOn, hnone]
          exact hover
      | false =>
          obtain ⟨event, next, hnext, hstep⟩ := exists_nextEvent?_of_closed hclosed hover handle
          obtain ⟨hless, hphase, hnone⟩ := left_step? hclosed hcounted hstep
          rw [goOn_succ hnext hstep]
          exact ih hphase hnone (by omega)

/-- To wait for the end of a queue into which no job is being handed is to close it and to let
the workers go on until all of them are gone. -/
theorem wait_eq_run? (hopen : queue.phase ≠ .closed) (hcounted : queue.uncounted = 0)
    (handle : α → Verdict) :
    (queue.wait handle).isOver = true ∧ ∃ served, (∀ event ∈ served, event.isOfWorker = true) ∧
      queue.run? handle (.close :: served) = some (queue.wait handle) := by
  obtain ⟨closed, hclose, hphase, hnone⟩ : ∃ closed, queue.close? = some closed ∧
      closed.phase = .closed ∧ closed.uncounted = 0 :=
    ⟨_, close?_eq_some_iff.mpr ⟨⟨hcounted, hopen⟩, rfl⟩, rfl, hcounted⟩
  rw [wait, hclose, Option.getD_some]
  refine ⟨isOver_goOn hphase hnone handle closed.left_le, ?_⟩
  obtain ⟨served, hserved, hrun⟩ :=
    closed.exists_run?_goOn handle (2 * (closed.queued.length + closed.crew.length))
  refine ⟨served, hserved, ?_⟩
  rw [run?, step?, hclose]
  exact hrun

/-- **Jobs that are handed in one after the other are all handled, in their order.**  A queue that
can hold as many jobs as it is meant to is started, takes every job, and has come to its end when
it was waited for; then the handler was called with these jobs, and the report is complete. -/
theorem report_of_jobs {workers capacity machine : Nat} (hworkers : 0 < workers ∨ 0 < machine)
    (hcapacity : max capacity 1 ≤ maxCapacity) (handle : α → Verdict) (jobs : List α) :
    ∃ started filled history,
      (ofRequest workers capacity machine).start handle = .done started ∧
      jobs.foldlM (fun queue job => queue.add handle job) started = .ok filled ∧
      Reached workers capacity machine (filled.wait handle) history ∧
      (filled.wait handle).isOver = true ∧ history.handled = jobs ∧
      (filled.wait handle).report.submitted = jobs.length ∧
      (filled.wait handle).report.isComplete = true := by
  obtain ⟨started, hstart, hphase, hcounted⟩ : ∃ started,
      (ofRequest workers capacity machine : WorkQueue α).start? = some started ∧
        started.phase = .started ∧ started.uncounted = 0 :=
    ⟨_, start?_eq_some_iff.mpr (.inl ⟨⟨rfl, hcapacity⟩, rfl⟩), rfl, rfl⟩
  have hstep : (ofRequest workers capacity machine : WorkQueue α).step? handle .start =
      some started := hstart
  obtain ⟨filled, handled, hadds, hfilled, hlast, hall⟩ :=
    exists_reached_addAll hworkers (Reached.requested.step handle hstep) hphase handle jobs
  have hopen : filled.phase ≠ .closed := by
    rw [hlast]
    nofun
  obtain ⟨hover, served, hserved, hrun⟩ := wait_eq_run? hopen (hall.trans hcounted) handle
  obtain ⟨later, hwaited⟩ := hfilled.exists_run? hrun
  rw [List.filterMap_cons_none rfl, filterMap_sent?_of_isOfWorker hserved, List.append_nil]
    at hwaited
  have hkept := hwaited.conserved hworkers
  obtain ⟨-, -, hnone, hsum, hhandled⟩ := hkept.of_isOver hover
  have hsubmitted := hkept.counted
  rw [hnone, Nat.add_zero] at hsubmitted
  refine ⟨started, filled, _, by rw [start, hstep], hadds, hwaited, hover, hhandled, hsubmitted, ?_⟩
  rw [QueueReport.isComplete, beq_iff_eq]
  exact hsum

end WorkQueue
end SourceIndex
