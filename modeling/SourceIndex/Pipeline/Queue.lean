import SourceIndex.Outcome

/-!
# The work queue

Jobs go through a queue of bounded length to a fixed number of workers.  The
queue is a system of small steps: any step that can happen may be the next one,
so that a sequence of events is one interleaving of the sender and the workers.

Handing in a job takes two steps, sending and counting, and a worker may have
finished the job in between.  A job that fails, and one that crashes, occupies
its worker no longer than a job that goes well.

`add` and `wait` at the end are one way to run the system: the workers go on only
where they are waited for, and then it is the first one that does.
-/

namespace SourceIndex

/-- How the handling of a job ends. -/
inductive Verdict where
  | good
  | bad
  | crash
  deriving DecidableEq, Repr

/-- What a worker does. -/
inductive Worker (α : Type) where
  | ready
  | busy (job : α)
  | gone
  deriving DecidableEq, Repr

/-- How far the life of a queue has come. -/
inductive QueuePhase where
  /-- No worker has been started, and no job is taken in. -/
  | idle
  | started
  /-- No more jobs are taken in, and the workers leave once the queue is empty. -/
  | closed
  deriving DecidableEq, Repr

/-- A queue, its workers, and what has become of the jobs so far. -/
structure WorkQueue (α : Type) where
  /-- The number of workers that will be started. -/
  workers : Nat
  /-- The number of jobs that may wait. -/
  capacity : Nat
  phase : QueuePhase := .idle
  /-- The jobs that wait, the oldest first. -/
  queued : List α := []
  crew : List (Worker α) := []
  /-- The number of jobs that were sent and not yet counted. -/
  uncounted : Nat := 0
  /-- The number of jobs that were counted. -/
  submitted : Nat := 0
  done : List α := []
  failed : List α := []
  deriving Repr

/-- What can happen next. -/
inductive QueueEvent (α : Type) where
  | start
  | send (job : α)
  | count
  | take (worker : Nat)
  | finish (worker : Nat)
  | close
  | leave (worker : Nat)
  deriving DecidableEq, Repr

/-- Why a job is not taken in. -/
inductive QueueFault where
  | notStarted
  /-- No worker takes jobs any more. -/
  | stopped
  deriving DecidableEq, Repr

/-- The wording of a fault. -/
def QueueFault.message : QueueFault → String
  | .notStarted => "Dispatcher not started"
  | .stopped => "Dispatcher workers have stopped"

/-- How many jobs there were and how they ended. -/
structure QueueReport where
  submitted : Nat
  done : Nat
  failed : Nat
  deriving DecidableEq, Repr

/-- Whether every job has ended. -/
def QueueReport.isComplete (report : QueueReport) : Bool :=
  report.submitted == report.done + report.failed

namespace WorkQueue

variable {α : Type}

/-- A queue that has not been started.  Zero workers stand for as many as the
machine can run at a time, and there is room for one job at least. -/
def ofRequest (workers capacity machine : Nat) : WorkQueue α :=
  { workers := if workers = 0 then machine else workers, capacity := max capacity 1 }

/-- The greatest number of jobs that may wait in a queue. -/
def maxCapacity : Nat := 0x1fffffffffffffff

/-! ## Steps -/

/-- Starts the workers, unless the queue is meant to hold more jobs than any can;
a started queue stays as it is. -/
def start? (queue : WorkQueue α) : Option (WorkQueue α) :=
  match queue.phase with
  | .idle =>
    if queue.capacity ≤ maxCapacity then
      some { queue with phase := .started, crew := List.replicate queue.workers .ready }
    else none
  | .started => some queue
  | .closed => none

/-- Puts a job into a queue that has room. -/
def send? (queue : WorkQueue α) (job : α) : Option (WorkQueue α) :=
  if queue.phase = .started ∧ queue.queued.length < queue.capacity then
    some { queue with queued := queue.queued ++ [job], uncounted := queue.uncounted + 1 }
  else none

/-- Counts a job that was sent. -/
def count? (queue : WorkQueue α) : Option (WorkQueue α) :=
  match queue.uncounted with
  | 0 => none
  | rest + 1 => some { queue with uncounted := rest, submitted := queue.submitted + 1 }

/-- A worker that is ready takes the oldest job. -/
def take? (queue : WorkQueue α) (worker : Nat) : Option (WorkQueue α) :=
  match queue.crew[worker]?, queue.queued with
  | some .ready, job :: rest =>
    some { queue with queued := rest, crew := queue.crew.set worker (.busy job) }
  | _, _ => none

/-- A worker ends its job. -/
def finish? (handle : α → Verdict) (queue : WorkQueue α) (worker : Nat) :
    Option (WorkQueue α) :=
  match queue.crew[worker]? with
  | some (.busy job) =>
    let crew := queue.crew.set worker .ready
    match handle job with
    | .good => some { queue with crew, done := queue.done ++ [job] }
    | .bad | .crash => some { queue with crew, failed := queue.failed ++ [job] }
  | _ => none

/-- Closes a queue into which no job is being handed. -/
def close? (queue : WorkQueue α) : Option (WorkQueue α) :=
  if queue.uncounted = 0 ∧ queue.phase ≠ .closed then some { queue with phase := .closed }
  else none

/-- A worker that is ready leaves a closed queue that is empty. -/
def leave? (queue : WorkQueue α) (worker : Nat) : Option (WorkQueue α) :=
  match queue.crew[worker]? with
  | some .ready =>
    if queue.phase = .closed ∧ queue.queued.isEmpty then
      some { queue with crew := queue.crew.set worker .gone }
    else none
  | _ => none

/-- The queue after an event; none if the event cannot happen. -/
def step? (handle : α → Verdict) (queue : WorkQueue α) : QueueEvent α → Option (WorkQueue α)
  | .start => queue.start?
  | .send job => queue.send? job
  | .count => queue.count?
  | .take worker => queue.take? worker
  | .finish worker => queue.finish? handle worker
  | .close => queue.close?
  | .leave worker => queue.leave? worker

/-- The queue after a sequence of events. -/
def run? (handle : α → Verdict) (queue : WorkQueue α) :
    List (QueueEvent α) → Option (WorkQueue α)
  | [] => some queue
  | event :: rest =>
    match queue.step? handle event with
    | none => none
    | some next => next.run? handle rest

/-- Whether all workers have left a closed queue. -/
def isOver (queue : WorkQueue α) : Bool :=
  queue.phase == .closed && queue.crew.all fun worker =>
    match worker with
    | .gone => true
    | _ => false

/-- The jobs that workers have at hand. -/
def inHand (queue : WorkQueue α) : List α :=
  queue.crew.filterMap fun worker =>
    match worker with
    | .busy job => some job
    | _ => none

/-- The numbers of a queue. -/
def report (queue : WorkQueue α) : QueueReport where
  submitted := queue.submitted
  done := queue.done.length
  failed := queue.failed.length

/-! ## One way to run -/

/-- What the first worker that has not left does next. -/
def nextEvent? (queue : WorkQueue α) : Option (QueueEvent α) :=
  queue.crew.zipIdx.findSome? fun (member, worker) =>
    match member with
    | .busy _ => some (.finish worker)
    | .ready => some (if queue.queued.isEmpty then .leave worker else .take worker)
    | .gone => none

/-- Lets that worker go on for some steps, as far as it can. -/
def goOn (handle : α → Verdict) (queue : WorkQueue α) : (steps : Nat) → WorkQueue α
  | 0 => queue
  | steps + 1 =>
    match queue.nextEvent?.bind (queue.step? handle) with
    | none => queue
    | some next => next.goOn handle steps

/-- Starts the workers.  A queue that cannot be started crashes. -/
def start (handle : α → Verdict) (queue : WorkQueue α) : Outcome QueueFault (WorkQueue α) :=
  match queue.step? handle .start with
  | some next => .done next
  | none => .crashed

/-- Hands in a job.  In a full queue a worker goes on until it has taken a job. -/
def add (handle : α → Verdict) (queue : WorkQueue α) (job : α) :
    Except QueueFault (WorkQueue α) :=
  match queue.phase with
  | .idle | .closed => .error .notStarted
  | .started =>
    let roomy := if queue.queued.length < queue.capacity then queue else queue.goOn handle 2
    match roomy.run? handle [.send job, .count] with
    | some next => .ok next
    | none => .error .stopped

/-- Closes the queue, serves what waits, and lets all workers leave. -/
def wait (handle : α → Verdict) (queue : WorkQueue α) : WorkQueue α :=
  let closed := queue.close?.getD queue
  closed.goOn handle (2 * (closed.queued.length + closed.crew.length))

end WorkQueue
end SourceIndex
