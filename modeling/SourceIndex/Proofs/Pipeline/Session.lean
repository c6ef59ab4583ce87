import SourceIndex.Proofs.Pipeline.InOrder
import SourceIndex.Proofs.Pipeline.Latest

/-!
# Runs of one indexer

An indexer is made once and may be run many times.  The numbers of a run start from zero, but
its tally of unhandled kinds goes on from where the last run left it (`Indexer.Session`).

* `Indexer.Accounted` is what the events of a run keep: its tally has counted the names of the
  files that it has parsed, and no file that the cache had is among them.
* `Indexer.Session.report_of_run`: the numbers of a run are those of its own files, and its
  unhandled kinds are those of all runs so far.

So the kinds of a run are NOT the kinds of its own files if an earlier run has counted any
(`Indexer.Session.kinds_carried_over`).
-/

namespace SourceIndex

/-- A file that was parsed, as far as can be seen from where it stands.  A file that the cache
had was not parsed. -/
def Progress.MayBeParsed : Progress → Prop
  | .waiting | .working (.lookup _) | .working (.fetch _) | .working (.parse _) => False
  | .working (.persist _ _) => True
  | .working (.ended result) | .counted result => result ≠ .done .cacheHit

namespace Indexer

variable {σ : Type} {indexer : Indexer σ} {run next last : RunState σ} {start : IndexState σ}
  {job : Job} {jobs : List Job} {stage : IndexStage}

/-! ## One run -/

/-- A parse makes a file a parsed one, and a parsed one stays so. -/
theorem mayBeParsed_advance {state : IndexState σ}
    (hstage : .parse job ∈ stage.actions job ∨ (Progress.working stage).MayBeParsed) :
    (Progress.working (indexer.advance job stage state).1).MayBeParsed := by
  cases stage with
  | lookup key => simp [IndexStage.actions, Progress.MayBeParsed] at hstage
  | fetch key => simp [IndexStage.actions, Progress.MayBeParsed] at hstage
  | parse key =>
      have hmiss := indexer.parseStep_ne_hit state job key
      rw [advance]
      cases hnext : (indexer.parseStep state job key).1 with
      | persist key record => trivial
      | ended result =>
          rintro rfl
          exact hmiss hnext
      | _ =>
          have hrank := (indexer.advances_parseStep job state key).rank_le
          rw [hnext] at hrank
          simp [IndexStage.rank] at hrank
  | persist key record =>
      rw [advance, persistStep]
      split
      · rintro ⟨⟩
      · rintro ⟨⟩
  | ended result => exact hstage.resolve_left List.not_mem_nil

/-- The tally of a run has counted what the run has parsed. -/
structure Accounted (indexer : Indexer σ) (start : IndexState σ) (run : RunState σ) : Prop where
  traced : ∃ added, indexer.Traced start run.index added ∧
    ∀ job, .parse job ∈ added → ∃ task ∈ run.tasks, task.job = job ∧ task.progress.MayBeParsed
  owns : ∀ task ∈ run.tasks, ∀ stage, task.progress = .working stage →
    indexer.Owns start.files task.job stage

theorem exists_parsed_of_cons {task after : Task} {rest : Multiset Task}
    (hjob : after.job = task.job)
    (hkeeps : task.progress.MayBeParsed → after.progress.MayBeParsed)
    (hparsed : ∃ other ∈ task ::ₘ rest, other.job = job ∧ other.progress.MayBeParsed) :
    ∃ other ∈ after ::ₘ rest, other.job = job ∧ other.progress.MayBeParsed := by
  obtain ⟨other, hother, hname, hdone⟩ := hparsed
  rcases Multiset.mem_cons.mp hother with rfl | hrest
  · exact ⟨after, Multiset.mem_cons_self _ _, hjob.trans hname, hkeeps hdone⟩
  · exact ⟨other, Multiset.mem_cons_of_mem hrest, hname, hdone⟩

/-- A file that does a step counts what it parses. -/
theorem Accounted.work {task after : Task} {rest : Multiset Task} (hold : run.tasks = task ::ₘ rest)
    (hnew : next.tasks = after ::ₘ rest)
    (hwork : indexer.work? task run.index = some (after, next.index))
    (hrun : indexer.Accounted start run) : indexer.Accounted start next := by
  obtain ⟨⟨added, htraced, hparsed⟩, howns⟩ := hrun
  rw [hold] at hparsed howns
  have hrest : ∀ other ∈ rest, ∀ stage, other.progress = .working stage →
      indexer.Owns start.files other.job stage :=
    fun other hother => howns other (Multiset.mem_cons_of_mem hother)
  obtain ⟨hjob, ⟨hwaiting, hindex, hafter⟩ | ⟨stage, hworking, -, hafter, hindex⟩⟩ :=
    work?_cases hwork
  · refine ⟨⟨added, by rwa [hindex], ?_⟩, ?_⟩
    · intro job hjobParsed
      rw [hnew]
      refine exists_parsed_of_cons hjob (fun hdone => ?_) (hparsed job hjobParsed)
      rw [hwaiting] at hdone
      exact hdone.elim
    · rw [hnew, Multiset.forall_mem_cons]
      refine ⟨fun stage hstage => ?_, hrest⟩
      rw [hafter, Progress.working.injEq] at hstage
      rw [← hstage, hjob, htraced.files]
      exact indexer.owns_firstStage start.files task.job
  · have hown := howns task (Multiset.mem_cons_self _ _) stage hworking
    have hstep := indexer.advances_advance task.job stage run.index
    refine ⟨⟨stage.actions task.job ++ added, ?_, ?_⟩, ?_⟩
    · rw [hindex]
      exact htraced.advance hstep hown
    · intro job hjobParsed
      rw [hnew]
      rcases List.mem_append.mp hjobParsed with hnow | hbefore
      · have hsame : job = task.job := by
          cases stage with
          | parse key => exact (IndexAction.parse.inj (List.mem_singleton.mp hnow))
          | persist key record => cases List.mem_singleton.mp hnow
          | _ => cases hnow
        subst hsame
        refine ⟨after, Multiset.mem_cons_self _ _, hjob, ?_⟩
        rw [hafter]
        exact mayBeParsed_advance (.inl hnow)
      · refine exists_parsed_of_cons hjob (fun hdone => ?_) (hparsed job hbefore)
        rw [hworking] at hdone
        rw [hafter]
        exact mayBeParsed_advance (.inr hdone)
    · rw [hnew, Multiset.forall_mem_cons]
      refine ⟨fun next hstage => ?_, hrest⟩
      rw [hafter, Progress.working.injEq] at hstage
      rw [← hstage, hjob]
      exact hstep.owns hown

theorem Accounted.move (hmove : Moves indexer run next) (hrun : indexer.Accounted start run) :
    indexer.Accounted start next := by
  rcases hmove.tasks_cases with ⟨htasks, hindex, -⟩ |
    ⟨task, after, rest, hold, hnew, hwork, -⟩ | ⟨job, result, rest, hold, hnew, hindex, -⟩
  · obtain ⟨htraced, howns⟩ := hrun
    rw [← htasks] at htraced howns
    exact ⟨by rwa [hindex], howns⟩
  · exact hrun.work hold hnew hwork
  · obtain ⟨⟨added, htraced, hparsed⟩, howns⟩ := hrun
    rw [hold] at hparsed howns
    refine ⟨⟨added, by rwa [hindex], fun job hjobParsed => ?_⟩, ?_⟩
    · rw [hnew]
      have hkeeps : (Progress.working (.ended result)).MayBeParsed →
          (Progress.counted result).MayBeParsed := fun hdone => hdone
      refine exists_parsed_of_cons ?_ hkeeps (hparsed job hjobParsed)
      rfl
    · rw [hnew, Multiset.forall_mem_cons]
      rw [Multiset.forall_mem_cons] at howns
      exact ⟨by nofun, howns.2⟩

theorem accounted_opened (indexer : Indexer σ) (workers capacity : Nat) (start : IndexState σ)
    (jobs : List Job) : indexer.Accounted start (.opened workers capacity start jobs) := by
  refine ⟨⟨[], .refl indexer start, by nofun⟩, fun task htask stage hworking => ?_⟩
  rw [RunState.tasks_opened] at htask
  obtain ⟨job, -, rfl⟩ := List.mem_map.mp (Multiset.mem_coe.mp htask)
  cases hworking

theorem Ran.accounted (hran : indexer.Ran start jobs last) : indexer.Accounted start last :=
  hran.induct (fun _ _ => indexer.accounted_opened _ _ start jobs) Accounted.move

/-- The names of the cursors that a run has counted, file by file. -/
def namesCounted (indexer : Indexer σ) (run : RunState σ) : List String :=
  run.index.parses.flatMap (indexer.ignoredNames run.index.files)

theorem flatMap_namesOf (indexer : Indexer σ) (state : IndexState σ) (files : FileTree) :
    state.log.flatMap (indexer.namesOf files) =
      state.parses.flatMap (indexer.ignoredNames files) := by
  unfold IndexState.parses
  induction state.log with
  | nil => rfl
  | cons action rest ih =>
      cases action with
      | parse job => simpa [namesOf] using ih
      | put key path value => simpa [namesOf] using ih

/-- A run goes on with the tally that it starts with. -/
theorem Ran.tally_eq (hran : indexer.Ran start jobs last) (hlog : start.log = []) :
    ∃ names, names.Perm (indexer.namesCounted last) ∧
      last.index.tally = start.tally.map (·.countAll names) := by
  obtain ⟨added, htraced, -⟩ := hran.accounted.traced
  refine ⟨_, ?_, htraced.tally⟩
  have hlogged := htraced.log
  rw [hlog, List.append_nil] at hlogged
  rw [namesCounted, ← flatMap_namesOf, htraced.files, hlogged]
  exact (List.reverse_perm added).flatMap_right _

/-- The files of a run that has ended, each with its end. -/
theorem Ran.exists_ends (hran : indexer.Ran start jobs last) :
    ∃ ends : Multiset (Job × Outcome IndexFault FileOutcome),
      last.tasks = ends.map (fun ended => ⟨ended.1, .counted ended.2⟩) ∧
      ends.map Prod.fst = jobs ∧
      last.report = { RunSummary.ofResults (ends.map Prod.snd) with
        unhandledKinds := last.report.unhandledKinds } := by
  obtain ⟨ends, htasks⟩ : ∃ ends : Multiset (Job × Outcome IndexFault FileOutcome),
      last.tasks = ends.map fun ended => ⟨ended.1, .counted ended.2⟩ := by
    have hcounted : ∀ task ∈ last.tasks, ∃ result, task.progress = .counted result :=
      fun task htask => hran.exists_counted htask
    generalize last.tasks = tasks at hcounted
    induction tasks using Multiset.induction_on with
    | empty => exact ⟨0, rfl⟩
    | cons task tasks ih =>
        rw [Multiset.forall_mem_cons] at hcounted
        obtain ⟨⟨result, hresult⟩, hothers⟩ := hcounted
        obtain ⟨ends, rfl⟩ := ih hothers
        refine ⟨(task.job, result) ::ₘ ends, ?_⟩
        rw [Multiset.map_cons, ← hresult]
  refine ⟨ends, htasks, ?_, ?_⟩
  · rw [← hran.map_job, htasks, Multiset.map_map]
    rfl
  · have hresults : last.tasks.filterMap Task.result? = ends.map Prod.snd := by
      rw [htasks, Multiset.filterMap_map]
      exact filterMap_eq_map fun _ _ => rfl
    have hcard : last.queue.submitted = (ends.map Prod.snd).card := by
      rw [(hran.orderly.over hran.ended).2, htasks, Multiset.card_map, Multiset.card_map]
    rw [RunState.report, hran.summary_eq, hresults, hcard]
    rfl

/-- A file that was parsed was not one that the cache had. -/
theorem Ran.exists_end_of_parsed (hran : indexer.Ran start jobs last) (hlog : start.log = [])
    {ends : Multiset (Job × Outcome IndexFault FileOutcome)}
    (htasks : last.tasks = ends.map fun ended => ⟨ended.1, .counted ended.2⟩) :
    ∀ job ∈ last.index.parses, ∃ result, (job, result) ∈ ends ∧ result ≠ .done .cacheHit := by
  intro job hjob
  obtain ⟨added, htraced, hparsed⟩ := hran.accounted.traced
  have hlogged := htraced.log
  rw [hlog, List.append_nil] at hlogged
  have haction : .parse job ∈ added := by
    rw [IndexState.parses, hlogged, List.mem_filterMap] at hjob
    obtain ⟨action, haction, hsome⟩ := hjob
    split at hsome
    · cases hsome
      exact haction
    · cases hsome
  obtain ⟨task, htask, rfl, hdone⟩ := hparsed job haction
  rw [htasks] at htask
  obtain ⟨ended, hended, rfl⟩ := Multiset.mem_map.mp htask
  exact ⟨ended.2, hended, hdone⟩

/-! ## Several runs -/

/-- Runs of one indexer, the last one first, each with its files, and the tally that they have
left.  Files and cache may have become others between two runs. -/
inductive Session (indexer : Indexer σ) : List (List Job × RunState σ) → Option Tally → Prop
  | new : Session indexer [] (if indexer.options.diagnostics then some [] else none)
  | run {earlier : List (List Job × RunState σ)} {tally : Option Tally}
      (hbefore : Session indexer earlier tally) {files : FileTree} {cache : σ} {jobs : List Job}
      {last : RunState σ} (hran : indexer.Ran { files, cache, tally } jobs last) :
      Session indexer ((jobs, last) :: earlier) last.index.tally

namespace Session

variable {earlier later : List (List Job × RunState σ)} {tally : Option Tally}

/-- A session as it was before some of its runs. -/
theorem exists_before (hsession : indexer.Session (later ++ earlier) tally) :
    ∃ tally, indexer.Session earlier tally := by
  induction later generalizing tally with
  | nil => exact ⟨tally, hsession⟩
  | cons ended later ih =>
      cases hsession with
      | run hbefore hran => exact ih hbefore

/-- The tally of a session has counted the names of all its runs. -/
theorem exists_names (hsession : indexer.Session earlier tally)
    (hdiagnostics : indexer.options.diagnostics = true) :
    ∃ names, names.Perm (earlier.flatMap fun ended => indexer.namesCounted ended.2) ∧
      tally = some (Tally.countAll [] names) := by
  induction hsession with
  | new => exact ⟨[], .refl _, by rw [hdiagnostics]; rfl⟩
  | run hbefore hran ih =>
      obtain ⟨names, hnames, htally⟩ := ih
      obtain ⟨own, hown, hlast⟩ := hran.tally_eq rfl
      refine ⟨names ++ own, ?_, ?_⟩
      · rw [List.flatMap_cons]
        exact (hnames.append hown).trans List.perm_append_comm
      · rw [hlast, htally]
        exact (Tally.map_countAll_append (some []) names own).symm

/-- The unhandled kinds of the last run are those of all runs. -/
theorem unhandledKinds_eq (hsession : indexer.Session ((jobs, last) :: earlier) tally)
    (hdiagnostics : indexer.options.diagnostics = true) :
    last.report.unhandledKinds = (Tally.countAll [] (indexer.namesCounted last ++
      earlier.flatMap fun ended => indexer.namesCounted ended.2)).ranking := by
  obtain ⟨names, hnames, htally⟩ := hsession.exists_names hdiagnostics
  have hlast : last.index.tally = tally := by
    cases hsession with
    | run hbefore hran => rfl
  rw [RunState.report, hlast, htally]
  exact Tally.ranking_countAll [] hnames

/-- **The numbers of a run are its own, its kinds are those of all runs so far.**  Every file of
a run is counted once, by how it ended in this run.  The unhandled kinds are the names of the
cursors in the files that were parsed, in this run and in the earlier ones, with how often they
were counted.  They are those of this run alone exactly if the earlier runs have counted
nothing; and a run in which the cache had every file has counted nothing itself. -/
theorem report_of_run (hsession : indexer.Session (later ++ (jobs, last) :: earlier) tally)
    (hdiagnostics : indexer.options.diagnostics = true) :
    (∃ ends : Multiset (Job × Outcome IndexFault FileOutcome),
      last.tasks = ends.map (fun ended => ⟨ended.1, .counted ended.2⟩) ∧
      ends.map Prod.fst = jobs ∧
      last.report = { RunSummary.ofResults (ends.map Prod.snd) with
        unhandledKinds := last.report.unhandledKinds } ∧
      (∀ job ∈ last.index.parses, ∃ result, (job, result) ∈ ends ∧ result ≠ .done .cacheHit) ∧
      ((∀ ended ∈ ends, ended.2 = .done .cacheHit) → indexer.namesCounted last = [])) ∧
    last.report.unhandledKinds = (Tally.countAll [] (indexer.namesCounted last ++
      earlier.flatMap fun ended => indexer.namesCounted ended.2)).ranking ∧
    (∀ kind times, (kind, times) ∈ last.report.unhandledKinds ↔ 0 < times ∧
      times = (indexer.namesCounted last).count kind +
        (earlier.flatMap fun ended => indexer.namesCounted ended.2).count kind) ∧
    (last.report.unhandledKinds = (Tally.countAll [] (indexer.namesCounted last)).ranking ↔
      (earlier.flatMap fun ended => indexer.namesCounted ended.2) = []) := by
  obtain ⟨after, hcut⟩ := hsession.exists_before
  have hkinds := hcut.unhandledKinds_eq hdiagnostics
  have hmem (kind : String) (times : Nat) : (kind, times) ∈ last.report.unhandledKinds ↔
      0 < times ∧ times = (indexer.namesCounted last).count kind +
        (earlier.flatMap fun ended => indexer.namesCounted ended.2).count kind := by
    rw [hkinds, Tally.mem_ranking_countAll, List.count_append]
  refine ⟨?_, hkinds, hmem, ?_⟩
  · cases hcut with
    | run hbefore hran =>
        obtain ⟨ends, htasks, hjobs, hreport⟩ := hran.exists_ends
        have hparsed := hran.exists_end_of_parsed rfl htasks
        refine ⟨ends, htasks, hjobs, hreport, hparsed, fun hhits => ?_⟩
        have hnone : last.index.parses = [] := by
          rw [List.eq_nil_iff_forall_not_mem]
          intro job hjob
          obtain ⟨result, hended, hmiss⟩ := hparsed job hjob
          exact hmiss (hhits _ hended)
        rw [namesCounted, hnone, List.flatMap_nil]
  · constructor
    · intro hown
      rw [List.eq_nil_iff_forall_not_mem]
      intro kind hkind
      have hmore := List.count_pos_iff.mpr hkind
      have hall := (hmem kind _).mpr ⟨Nat.add_pos_right _ hmore, rfl⟩
      rw [hown, Tally.mem_ranking_countAll] at hall
      omega
    · intro hnone
      rw [hkinds, hnone, List.append_nil]

/-! ## A file with a cursor of no known kind -/

/-- A tree with one cursor that contributes nothing. -/
def asmSample : CursorTree where
  spelling := "t.c"
  nodes := #[{ kind := .unit, spelling := "t.c", location := .nowhere, children := #[1] },
    { kind := .unexposed "asm", spelling := "", location := { file := "t.c", line := 1 } }]

/-- An indexer that counts unhandled kinds. -/
def tallySample : Indexer Store where
  parser := fun _ _ _ => .done { tree := asmSample }
  cache := .ofStore 0
  options := { diagnostics := true }

def filesSample : List Job :=
  [{ file := "t.c", flags := [] }]

def firstSample : IndexState Store :=
  tallySample.init startSample.files Store.fresh

/-- What a second run of the same files starts with. -/
def againSample : IndexState Store where
  files := startSample.files
  cache := (tallySample.run firstSample filesSample).2.cache
  tally := (tallySample.run firstSample filesSample).2.tally

/-- The file is indexed, and then found in the cache. -/
theorem exists_filesSample :
    ∃ first second : RunState Store,
      tallySample.Session [(filesSample, second), (filesSample, first)] second.index.tally ∧
      first.report = { submitted := 1, indexed := 1, unhandledKinds := [("asm", 1)] } ∧
      second.report = { submitted := 1, cacheHits := 1, unhandledKinds := [("asm", 1)] } := by
  have hfirst : (tallySample.run firstSample filesSample).1 =
      .done { submitted := 1, indexed := 1, unhandledKinds := [("asm", 1)] } := by
    decide +kernel
  have hagain : (tallySample.run againSample filesSample).1 =
      .done { submitted := 1, cacheHits := 1, unhandledKinds := [("asm", 1)] } := by
    decide +kernel
  obtain ⟨first, hran, hreport, hindex⟩ := exists_ran_of_run (Prod.ext hfirst rfl)
  obtain ⟨second, hranAgain, hreportAgain, -⟩ := exists_ran_of_run (Prod.ext hagain rfl)
  have htally : first.index.tally = againSample.tally := by
    rw [hindex]
    rfl
  have hgoesOn : tallySample.Ran { againSample with tally := first.index.tally } filesSample
      second := by
    rw [htally]
    exact hranAgain
  exact ⟨first, second, .run (.run .new hran) hgoesOn, hreport, hreportAgain⟩

theorem report_of_run_filesSample :
    tallySample.options.diagnostics = true ∧ ∃ first second : RunState Store,
      tallySample.Session [(filesSample, second), (filesSample, first)] second.index.tally ∧
      second.report.cacheHits = 1 ∧
      (tallySample.namesCounted second).count "asm" +
        (tallySample.namesCounted first).count "asm" = 1 := by
  obtain ⟨first, second, hsession, -, hagain⟩ := exists_filesSample
  have hlast : tallySample.Session ([] ++ (filesSample, second) :: [(filesSample, first)])
      second.index.tally := hsession
  obtain ⟨-, -, hkinds, -⟩ := hlast.report_of_run rfl
  refine ⟨rfl, first, second, hsession, by rw [hagain], ?_⟩
  have hasm := (hkinds "asm" 1).mp (by rw [hagain]; exact List.mem_singleton_self _)
  simpa using hasm.2.symm

/-- A run in which the cache had every file may report kinds that it has not counted. -/
theorem kinds_carried_over :
    ¬∀ (indexer : Indexer Store) (earlier : List (List Job × RunState Store)) (jobs : List Job)
      (last : RunState Store) (tally : Option Tally),
      indexer.options.diagnostics = true → indexer.Session ((jobs, last) :: earlier) tally →
      last.report.cacheHits = last.report.submitted → last.report.unhandledKinds = [] := by
  intro hclaim
  obtain ⟨first, second, hsession, -, hagain⟩ := exists_filesSample
  have hnone := hclaim tallySample _ filesSample second _ rfl hsession (by rw [hagain])
  rw [hagain] at hnone
  cases hnone

end Session
end Indexer
end SourceIndex
