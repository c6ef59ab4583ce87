import SourceIndex.Pipeline.Index

/-!
# Runs with several workers

A run hands its files to a work queue, and each worker takes its file through the
steps of indexing, one at a time.  As in the queue, any step that can happen may be
the next one, so that a sequence of events is one interleaving of the sender and the
workers.

How a file ends is counted twice.  First it is noted in the numbers of the run,
also if the handling of the file has crashed; then the worker ends the file for the
queue, which has numbers of its own.

`Indexer.run` is the run in which each file ends before the next one begins.
-/

namespace SourceIndex

/-- How far a run has come with a file. -/
inductive Progress where
  /-- No worker has begun with the file. -/
  | waiting
  | working (stage : IndexStage)
  /-- The end of the file has been noted. -/
  | counted (result : Outcome IndexFault FileOutcome)
  deriving DecidableEq, Repr

/-- A file of a run. -/
structure Task where
  job : Job
  progress : Progress := .waiting
  deriving DecidableEq, Repr

/-- How the handling of a file ends for the queue. -/
def Task.verdict (task : Task) : Verdict :=
  match task.progress with
  | .counted (.done _) => .good
  | .counted (.failed _) => .bad
  | _ => .crash

/-- A run on its way. -/
structure RunState (σ : Type) where
  /-- The files that have not been handed in, in order. -/
  pending : List Job
  queue : WorkQueue Task
  index : IndexState σ
  /-- The numbers of the run, except the one of the files that were handed in. -/
  summary : RunSummary := {}

/-- What can happen next. -/
inductive RunEvent where
  /-- The next file goes into the queue. -/
  | submit
  /-- The queue counts a file that was handed in. -/
  | acknowledge
  | take (worker : Nat)
  /-- A worker does one step of its file. -/
  | work (worker : Nat)
  /-- The end of a worker's file is noted. -/
  | note (worker : Nat)
  | finish (worker : Nat)
  /-- No more files come. -/
  | close
  | leave (worker : Nat)
  deriving DecidableEq, Repr

namespace WorkQueue

variable {α : Type}

/-- The job that a worker has at hand. -/
def jobOf? (queue : WorkQueue α) (worker : Nat) : Option α :=
  match queue.crew[worker]? with
  | some (.busy job) => some job
  | _ => none

/-- Puts a job into the hand of a worker. -/
def setJob (queue : WorkQueue α) (worker : Nat) (job : α) : WorkQueue α :=
  { queue with crew := queue.crew.set worker (.busy job) }

end WorkQueue

namespace RunState

variable {σ : Type}

/-- Changes the queue by a step that may be impossible. -/
def onQueue? (run : RunState σ) (change : WorkQueue Task → Option (WorkQueue Task)) :
    Option (RunState σ) :=
  (change run.queue).map fun queue => { run with queue }

/-- The numbers of a run. -/
def report (run : RunState σ) : RunSummary :=
  { run.summary with
    submitted := run.queue.submitted
    unhandledKinds := (run.index.tally.map Tally.ranking).getD [] }

end RunState

namespace Indexer

variable {σ : Type}

/-- The next step of a file; none if the file has ended.  The first step derives its
key. -/
def work? (indexer : Indexer σ) (task : Task) (state : IndexState σ) :
    Option (Task × IndexState σ) :=
  match task.progress with
  | .waiting =>
    some ({ task with progress := .working (indexer.firstStage state.files task.job) }, state)
  | .working (.ended _) | .counted _ => none
  | .working stage =>
    let (stage, state) := indexer.advance task.job stage state
    some ({ task with progress := .working stage }, state)

/-- The first state of a run, with as many workers as the options ask for, on a
machine that can run `machine` of them at a time.  There is none if the queue
cannot be started. -/
def open? (indexer : Indexer σ) (machine : Nat) (state : IndexState σ) (jobs : List Job) :
    Option (RunState σ) :=
  (WorkQueue.ofRequest indexer.options.jobs indexer.options.queueCapacity machine).start?.map
    fun queue => { pending := jobs, queue, index := state }

/-- The run after an event; none if the event cannot happen. -/
def step? (indexer : Indexer σ) (run : RunState σ) : RunEvent → Option (RunState σ)
  | .submit =>
    match run.pending with
    | [] => none
    | job :: rest => RunState.onQueue? { run with pending := rest } (·.send? { job })
  | .acknowledge => run.onQueue? (·.count?)
  | .take worker => run.onQueue? (·.take? worker)
  | .work worker =>
    match run.queue.jobOf? worker with
    | none => none
    | some task =>
      match indexer.work? task run.index with
      | none => none
      | some (task, index) => some { run with queue := run.queue.setJob worker task, index }
  | .note worker =>
    match run.queue.jobOf? worker with
    | some ⟨job, .working (.ended result)⟩ =>
      some { run with
             queue := run.queue.setJob worker ⟨job, .counted result⟩
             summary := run.summary.count result }
    | _ => none
  | .finish worker =>
    match run.queue.jobOf? worker with
    | some ⟨_, .counted _⟩ => run.onQueue? (·.finish? Task.verdict worker)
    | _ => none
  | .close => if run.pending.isEmpty then run.onQueue? (·.close?) else none
  | .leave worker => run.onQueue? (·.leave? worker)

/-- The run after a sequence of events. -/
def schedule? (indexer : Indexer σ) (run : RunState σ) : List RunEvent → Option (RunState σ)
  | [] => some run
  | event :: rest =>
    match indexer.step? run event with
    | none => none
    | some next => indexer.schedule? next rest

end Indexer
end SourceIndex
