import Mathlib.Algebra.BigOperators.Group.Multiset.Basic
import Mathlib.Data.List.Perm.Basic
import Mathlib.Tactic.Abel
import SourceIndex.Pipeline.Queue

/-!
# Steps of the work queue

For each step of the queue there is one lemma that says when it is possible and what
it leads to, so that nothing else has to look into the definitions.  The jobs of a
queue are those that wait, those in the hands of workers and those that have ended
(`WorkQueue.jobs`), as a multiset: in which order the workers stand does NOT matter.
-/

namespace SourceIndex

/-- What a worker has in its hands. -/
def Worker.hand {α : Type} : Worker α → Multiset α
  | .busy job => {job}
  | .ready | .gone => 0

/-- A worker that does not leave makes no worker gone. -/
theorem gone_mem_of_set {α : Type} {crew : List (Worker α)} {worker : Nat} {new : Worker α}
    (hgone : .gone ∈ crew.set worker new) (hnew : new ≠ .gone) : .gone ∈ crew :=
  (List.mem_or_eq_of_mem_set hgone).resolve_right hnew.symm

theorem set_ne_nil {α : Type} {crew : List (Worker α)} (hcrew : crew ≠ []) (worker : Nat)
    (new : Worker α) : crew.set worker new ≠ [] := by
  rwa [Ne, List.set_eq_nil_iff]

namespace WorkQueue

variable {α : Type} {queue next : WorkQueue α} {worker : Nat}

/-! ## When steps are possible -/

theorem start?_eq_some_iff :
    queue.start? = some next ↔
      ((queue.phase = .idle ∧ queue.capacity ≤ maxCapacity) ∧
        next = { queue with phase := .started, crew := List.replicate queue.workers .ready }) ∨
      (queue.phase = .started ∧ next = queue) := by
  unfold start?
  split
  next hidle =>
    split
    next hfits => simp [hidle, hfits, eq_comm]
    next hlong => simp [hidle, hlong]
  next hstarted => simp [hstarted, eq_comm]
  next hclosed => simp [hclosed]

theorem send?_eq_some_iff {job : α} :
    queue.send? job = some next ↔
      (queue.phase = .started ∧ queue.queued.length < queue.capacity) ∧
        next = { queue with queued := queue.queued ++ [job], uncounted := queue.uncounted + 1 } := by
  unfold send?
  split
  next hroom => simp only [hroom, true_and, and_self, Option.some.injEq, eq_comm]
  next hfull => simp only [hfull, false_and, reduceCtorEq]

theorem count?_eq_some_iff :
    queue.count? = some next ↔ ∃ rest, queue.uncounted = rest + 1 ∧
      next = { queue with uncounted := rest, submitted := queue.submitted + 1 } := by
  unfold count?
  split
  next hnone => simp [hnone]
  next rest hsome => simp [hsome, eq_comm]

theorem take?_eq_some_iff :
    queue.take? worker = some next ↔ ∃ job rest, queue.crew[worker]? = some .ready ∧
      queue.queued = job :: rest ∧
        next = { queue with queued := rest, crew := queue.crew.set worker (.busy job) } := by
  unfold take?
  split
  next job rest hworker hqueued => simp [hworker, hqueued, eq_comm]
  next hother =>
    simp only [reduceCtorEq, false_iff, not_exists, not_and]
    exact fun job rest hworker hqueued => absurd hqueued (hother job rest hworker)

theorem finish?_eq_some_iff {handle : α → Verdict} :
    queue.finish? handle worker = some next ↔ ∃ job, queue.crew[worker]? = some (.busy job) ∧
      next = if handle job = .good then
          { queue with crew := queue.crew.set worker .ready, done := queue.done ++ [job] }
        else
          { queue with crew := queue.crew.set worker .ready, failed := queue.failed ++ [job] } := by
  unfold finish?
  split
  next job hworker => cases hverdict : handle job <;> simp [hworker, hverdict, eq_comm]
  next hother =>
    simp only [reduceCtorEq, false_iff, not_exists, not_and]
    exact fun job hworker => absurd hworker (hother job)

theorem close?_eq_some_iff :
    queue.close? = some next ↔ (queue.uncounted = 0 ∧ queue.phase ≠ .closed) ∧
      next = { queue with phase := .closed } := by
  unfold close?
  split
  next hopen => simp [hopen, eq_comm]
  next hbusy => simp [hbusy]

theorem leave?_eq_some_iff :
    queue.leave? worker = some next ↔
      (queue.crew[worker]? = some .ready ∧ queue.phase = .closed ∧ queue.queued = []) ∧
        next = { queue with crew := queue.crew.set worker .gone } := by
  unfold leave?
  split
  next hworker =>
    split
    next hempty =>
      rw [List.isEmpty_iff] at hempty
      simp [hworker, hempty, eq_comm]
    next hmore =>
      rw [List.isEmpty_iff] at hmore
      simp [hworker, hmore]
  next hother =>
    simp only [reduceCtorEq, false_iff, not_and]
    exact fun hready => absurd hready.1 (by simpa using hother)

/-! ## The jobs of a queue -/

/-- All jobs that were put into a queue. -/
def jobs (queue : WorkQueue α) : Multiset α :=
  queue.queued + (queue.crew.map Worker.hand).sum + queue.done + queue.failed

/-- What the workers have in their hands, one after the other. -/
theorem coe_inHand (queue : WorkQueue α) :
    (queue.inHand : Multiset α) = (queue.crew.map Worker.hand).sum := by
  unfold inHand
  induction queue.crew with
  | nil => rfl
  | cons member rest ih =>
      rw [List.map_cons, List.sum_cons, ← ih]
      cases member with
      | busy job =>
          rw [Worker.hand, Multiset.singleton_add, Multiset.cons_coe]
          rfl
      | ready => exact (zero_add _).symm
      | gone => exact (zero_add _).symm

theorem jobs_eq (queue : WorkQueue α) :
    queue.jobs = queue.queued + queue.inHand + queue.done + queue.failed := by
  rw [jobs, coe_inHand]

/-- When one worker changes, a sum over the workers changes by its part. -/
theorem exists_sum_set {M : Type} [AddCommMonoid M] (part : Worker α → M)
    {crew : List (Worker α)} {old : Worker α} (hworker : crew[worker]? = some old) :
    ∃ rest, (crew.map part).sum = part old + rest ∧
      ∀ new, ((crew.set worker new).map part).sum = part new + rest := by
  obtain ⟨hlength, hold⟩ := List.getElem?_eq_some_iff.mp hworker
  refine ⟨((crew.eraseIdx worker).map part).sum, ?_, fun new => ?_⟩
  · have hperm := (List.getElem_cons_eraseIdx_perm hlength).symm.map part
    rw [hperm.sum_eq, hold]
    simp
  · rw [((List.set_perm_cons_eraseIdx hlength new).map part).sum_eq]
    simp

theorem jobs_send (queue : WorkQueue α) (job : α) :
    ({ queue with queued := queue.queued ++ [job], uncounted := queue.uncounted + 1 } :
      WorkQueue α).jobs = {job} + queue.jobs := by
  simp only [jobs, ← Multiset.coe_add, Multiset.coe_singleton]
  abel

theorem jobs_take {job : α} {rest : List α} (hworker : queue.crew[worker]? = some .ready)
    (hqueued : queue.queued = job :: rest) :
    ({ queue with queued := rest, crew := queue.crew.set worker (.busy job) } :
      WorkQueue α).jobs = queue.jobs := by
  obtain ⟨others, hold, hnew⟩ := exists_sum_set Worker.hand hworker
  simp only [jobs, hqueued, hold, hnew, Worker.hand, ← Multiset.cons_coe,
    ← Multiset.singleton_add]
  abel

theorem jobs_done {job : α} (hworker : queue.crew[worker]? = some (.busy job)) :
    ({ queue with crew := queue.crew.set worker .ready, done := queue.done ++ [job] } :
      WorkQueue α).jobs = queue.jobs := by
  obtain ⟨others, hold, hnew⟩ := exists_sum_set Worker.hand hworker
  simp only [jobs, hold, hnew, Worker.hand, ← Multiset.coe_add, Multiset.coe_singleton]
  abel

theorem jobs_failed {job : α} (hworker : queue.crew[worker]? = some (.busy job)) :
    ({ queue with crew := queue.crew.set worker .ready, failed := queue.failed ++ [job] } :
      WorkQueue α).jobs = queue.jobs := by
  obtain ⟨others, hold, hnew⟩ := exists_sum_set Worker.hand hworker
  simp only [jobs, hold, hnew, Worker.hand, ← Multiset.coe_add, Multiset.coe_singleton]
  abel

theorem jobs_leave (hworker : queue.crew[worker]? = some .ready) :
    ({ queue with crew := queue.crew.set worker .gone } : WorkQueue α).jobs = queue.jobs := by
  obtain ⟨others, hold, hnew⟩ := exists_sum_set Worker.hand hworker
  simp only [jobs, hold, hnew, Worker.hand]

/-- A worker that changes its job. -/
theorem exists_jobs_busy {job : α} (hworker : queue.crew[worker]? = some (.busy job)) :
    ∃ others, queue.jobs = job ::ₘ others ∧ ∀ other,
      ({ queue with crew := queue.crew.set worker (.busy other) } : WorkQueue α).jobs =
        other ::ₘ others := by
  obtain ⟨others, hold, hnew⟩ := exists_sum_set Worker.hand hworker
  refine ⟨queue.queued + others + queue.done + queue.failed, ?_, fun other => ?_⟩
  · simp only [jobs, hold, Worker.hand, ← Multiset.singleton_add]
    abel
  · simp only [jobs, hnew, Worker.hand, ← Multiset.singleton_add]
    abel

/-! ## The end of a queue -/

theorem isOver_eq_true_iff :
    queue.isOver = true ↔ queue.phase = .closed ∧ ∀ member ∈ queue.crew, member = .gone := by
  simp only [isOver, Bool.and_eq_true, beq_iff_eq, List.all_eq_true]
  refine and_congr_right fun _ => forall₂_congr fun member _ => ?_
  cases member <;> simp

/-- Workers that are gone have nothing in their hands. -/
theorem sum_hand_of_gone {crew : List (Worker α)} (hgone : ∀ member ∈ crew, member = .gone) :
    (crew.map Worker.hand).sum = 0 := by
  refine List.sum_eq_zero fun hand hhand => ?_
  obtain ⟨member, hmember, rfl⟩ := List.mem_map.mp hhand
  rw [hgone member hmember, Worker.hand]

/-! ## The event that comes next -/

theorem nextEvent?_eq_none_iff :
    queue.nextEvent? = none ↔ ∀ member ∈ queue.crew, member = .gone := by
  rw [nextEvent?, List.findSome?_eq_none_iff]
  constructor
  · intro hnone member hmember
    obtain ⟨worker, hworker⟩ := List.mem_iff_getElem?.mp hmember
    have hgone := hnone (member, worker) (List.mem_zipIdx_iff_getElem?.mpr hworker)
    cases member with
    | gone => rfl
    | busy job => cases hgone
    | ready => cases hgone
  · rintro hgone ⟨member, worker⟩ hmember
    rw [hgone member (List.mem_of_getElem? (List.mem_zipIdx_iff_getElem?.mp hmember))]

/-- The next event ends a job, takes one, or lets a worker go that has nothing to take. -/
theorem nextEvent?_cases {event : QueueEvent α} (hnext : queue.nextEvent? = some event) :
    ∃ worker, (∃ job, queue.crew[worker]? = some (.busy job) ∧ event = .finish worker) ∨
      (queue.crew[worker]? = some .ready ∧ queue.queued ≠ [] ∧ event = .take worker) ∨
      (queue.crew[worker]? = some .ready ∧ queue.queued = [] ∧ event = .leave worker) := by
  obtain ⟨⟨member, worker⟩, hmember, hevent⟩ := List.exists_of_findSome?_eq_some hnext
  have hworker := List.mem_zipIdx_iff_getElem?.mp hmember
  refine ⟨worker, ?_⟩
  cases member with
  | gone => cases hevent
  | busy job =>
      cases hevent
      exact .inl ⟨job, hworker, rfl⟩
  | ready =>
      cases hevent
      by_cases hqueued : queue.queued = []
      · exact .inr (.inr ⟨hworker, hqueued, by simp [hqueued]⟩)
      · exact .inr (.inl ⟨hworker, hqueued, by simp [hqueued]⟩)

/-- It can happen, unless a worker would leave a queue that is not closed. -/
theorem exists_step?_of_nextEvent? {event : QueueEvent α} (hnext : queue.nextEvent? = some event)
    (hleave : queue.queued = [] → queue.phase = .closed) (handle : α → Verdict) :
    ∃ next, queue.step? handle event = some next := by
  obtain ⟨worker, ⟨job, hworker, rfl⟩ | ⟨hworker, hmore, rfl⟩ | ⟨hworker, hempty, rfl⟩⟩ :=
    nextEvent?_cases hnext
  · exact ⟨_, finish?_eq_some_iff.mpr ⟨job, hworker, rfl⟩⟩
  · obtain ⟨job, rest, hqueued⟩ := List.exists_cons_of_ne_nil hmore
    exact ⟨_, take?_eq_some_iff.mpr ⟨job, rest, hworker, hqueued, rfl⟩⟩
  · exact ⟨_, leave?_eq_some_iff.mpr ⟨⟨hworker, hleave hempty, hempty⟩, rfl⟩⟩

end WorkQueue
end SourceIndex
