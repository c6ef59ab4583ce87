import SourceIndex.Command.Index
import SourceIndex.Proofs.Compile.Database
import SourceIndex.Proofs.Parse.Preorder
import SourceIndex.Proofs.Pipeline.Entries
import SourceIndex.Proofs.Store.File

/-!
# Indexing destroys nothing before it can go on

A request to index comes down to a plan (`IndexRequest.Plan`): the project, its settings and its
compile commands, as they are found among the files.  Without a plan the command fails, and all
files are as they were (`indexProject_without_plan`).  With a plan it never comes to a run
without files, because a database without commands gives no plan.

A rebuild drops all entries, so what the store has afterwards comes from the run, and its name of
the key strategy is that of the plan.

Once there is a plan, a failure need NOT leave the files as they were: the store may have been
made, cleared, or filled in part.
-/

namespace SourceIndex

/-! ## Roots are absolute -/

namespace FileTree

theorem isAbsolute_pathOf (name : List String) : Path.isAbsolute (pathOf name) = true := by
  simp [Path.isAbsolute, pathOf, Path.render]

theorem isAbsolute_of_canonicalize {tree : FileTree} {path root : String}
    (hroot : tree.canonicalize path = .ok root) : Path.isAbsolute root = true := by
  unfold canonicalize at hroot
  split at hroot
  · cases hroot
  · cases hroot
  · split at hroot
    · cases hroot
    · cases hroot
    · cases hroot
      exact isAbsolute_pathOf _

end FileTree

theorem isAbsolute_of_resolveRoot {files : FileTree} {named : Option String}
    {start database root : String} (hroot : resolveRoot files named start database = .ok root) :
    Path.isAbsolute root = true := by
  unfold resolveRoot at hroot
  split at hroot
  · split at hroot
    · cases hroot
    next hcanonical =>
      cases hroot
      exact FileTree.isAbsolute_of_canonicalize hcanonical
  · split at hroot
    · cases hroot
    next start hcanonical =>
      split at hroot
      · cases hroot
      next hfound =>
        cases hroot
        exact Path.isAbsolute_of_mem_ancestors (FileTree.isAbsolute_of_canonicalize hcanonical)
          (List.mem_of_find?_eq_some hfound)

theorem Project.isAbsolute_root {files : FileTree} {named : Option String} {project : Project}
    (hproject : Project.load files named = .ok project) :
    Path.isAbsolute project.root = true := by
  unfold load at hproject
  split at hproject
  · cases hproject
  next root hroot =>
    dsimp only at hproject
    split at hproject
    · split at hproject
      · cases hproject
      next hcanonical =>
        cases hproject
        exact FileTree.isAbsolute_of_canonicalize hcanonical
    · cases hproject
      exact isAbsolute_of_resolveRoot hroot

/-! ## Runs into a store -/

/-- What files are indexed with. -/
def Surroundings.indexer (around : Surroundings) (options : IndexOptions) : Indexer Store where
  parser := .ofGrammars around.grammars
  cache := .ofStore around.now
  options := options

theorem indexInto_eq (around : Surroundings) (out path : String) (options : IndexOptions)
    (files : FileTree) (store : Store) (jobs : List Job) :
    indexInto around out path options files store jobs =
      let (result, state) :=
        (around.indexer options).run ((around.indexer options).init files store) jobs
      match result with
      | .failed fault => .failed out (.index fault) (state.files.writeStore path state.cache)
      | .crashed => .crashed out (state.files.writeStore path state.cache)
      | .done summary =>
        .done (out ++ textOfLines (summary.lines around.elapsed))
          (state.files.writeStore path state.cache) :=
  rfl

/-- A run that has files comes to its end, or crashes before its first file. -/
theorem Indexer.run_cases {σ : Type} (indexer : Indexer σ) (state : IndexState σ) {jobs : List Job}
    (hjobs : jobs ≠ []) :
    indexer.run state jobs = (.crashed, state) ∨
      ∃ last, indexer.Ran state jobs last ∧
        indexer.run state jobs = (.done last.report, last.index) := by
  cases hrun : indexer.run state jobs with
  | mk result final =>
      cases result with
      | done summary =>
          obtain ⟨last, hran, rfl, rfl⟩ := exists_ran_of_run hrun
          exact .inr ⟨last, hran, rfl⟩
      | _ =>
          unfold run at hrun
          rw [if_neg (by simpa using hjobs)] at hrun
          split at hrun
          · exact .inl hrun.symm
          · cases hrun

/-- Files are indexed into a store, or the run crashes. -/
theorem indexInto_cases (around : Surroundings) (out path : String) (options : IndexOptions)
    (files : FileTree) (store : Store) {jobs : List Job} (hjobs : jobs ≠ []) :
    indexInto around out path options files store jobs =
        .crashed out (files.writeStore path store) ∨
      ∃ last, (around.indexer options).Ran ((around.indexer options).init files store) jobs last ∧
        indexInto around out path options files store jobs =
          .done (out ++ textOfLines (last.report.lines around.elapsed))
            (files.writeStore path last.index.cache) := by
  rw [indexInto_eq]
  obtain hcrash | ⟨last, hran, hdone⟩ :=
    (around.indexer options).run_cases ((around.indexer options).init files store) hjobs
  · rw [hcrash]
    exact .inl rfl
  · obtain ⟨added, htraced, -⟩ := hran.accounted.traced
    refine .inr ⟨last, hran, ?_⟩
    rw [hdone]
    dsimp only
    rw [htraced.files]
    rfl

/-! ## Plans -/

/-- Trouble with the project itself: its root, its settings or its compilation database. -/
def CommandFault.isOfProject : CommandFault → Bool
  | .project _ | .configuredRoot _ _ | .unknownStrategy _ | .settings _ => true
  | .openStore _ | .unrecordedStrategy _ | .store _ | .index _ | .noIndex _ | .noRecord _
  | .unreadableRecord _ _ | .unknownFormat _ => false

/-- What a request to index comes down to: a project, settings and compile commands, as they are
found among the files. -/
structure IndexRequest.Plan (request : IndexRequest) (files : FileTree) where
  project : Project
  settings : Settings
  commands : List CompileCommand
  project_eq : Project.load files request.project = .ok project
  settings_eq : request.override project.settings = .ok settings
  commands_eq : loadCommands files project.root settings.compilation = .ok commands

namespace IndexRequest.Plan

variable {request : IndexRequest} {files : FileTree}

/-- The files to index, with their flags. -/
def jobs (plan : request.Plan files) : List Job :=
  plan.commands.map fun command => Job.mk command.file command.arguments

/-- The path of the store. -/
def storePath (plan : request.Plan files) : String :=
  plan.settings.storePath plan.project.root

/-- The strategy of the keys. -/
def strategy (plan : request.Plan files) : KeyStrategy :=
  plan.settings.indexing.keyStrategy

/-- What is printed before the store is opened. -/
def heading (plan : request.Plan files) : String :=
  indexHeading plan.project.root plan.settings ++ textOfLines
    ["Compile commands: " ++ toString plan.jobs.length, "Store: " ++ plan.storePath]

/-- The options of the run. -/
def options (plan : request.Plan files) : IndexOptions :=
  { IndexOptions.ofSettings plan.settings plan.project.root with
    diagnostics := request.diagnostics }

/-- A store without entries that has the strategy of the plan. -/
def cleared (plan : request.Plan files) : Store :=
  { Store.fresh with strategyName := some (some plan.strategy.name) }

theorem storePath_notMem (plan : request.Plan files) :
    plan.storePath ∉ FileTree.passingStores := by
  apply FileTree.notMem_passingStores
  rw [storePath, Settings.storePath, Path.isAbsolute_join, Project.isAbsolute_root plan.project_eq,
    Bool.true_or]

/-- A request comes down to one plan at most. -/
theorem eq_of_plans (plan other : request.Plan files) : plan = other := by
  obtain ⟨project, settings, commands, hproject, hsettings, hcommands⟩ := plan
  obtain ⟨project', settings', commands', hproject', hsettings', hcommands'⟩ := other
  cases hproject.symm.trans hproject'
  cases hsettings.symm.trans hsettings'
  cases hcommands.symm.trans hcommands'
  rfl

/-- There is something to index: a database without commands gives no plan. -/
theorem jobs_ne_nil (plan : request.Plan files) : plan.jobs ≠ [] := by
  rw [jobs, Ne, List.map_eq_nil_iff]
  intro hnil
  have hload := plan.commands_eq
  obtain ⟨text, entries, hread, hentries, hcommands⟩ := exists_entries_of_loadCommands hload
  rw [loadCommands_of_entries hread hentries, if_pos (hcommands ▸ hnil)] at hload
  cases hload

end IndexRequest.Plan

/-! ## Without a plan -/

theorem Project.isOfProject_of_load {files : FileTree} {named : Option String}
    {fault : CommandFault} (hfault : Project.load files named = .error fault) :
    fault.isOfProject = true := by
  unfold load at hfault
  split at hfault
  · cases hfault
    rfl
  · dsimp only at hfault
    split at hfault
    · split at hfault
      · cases hfault
        rfl
      · cases hfault
    · cases hfault

theorem IndexRequest.isOfProject_of_override {request : IndexRequest} {settings : Settings}
    {fault : CommandFault} (hfault : request.override settings = .error fault) :
    fault.isOfProject = true := by
  unfold override at hfault
  split at hfault
  next hstrategy =>
    cases hfault
    unfold strategy at hstrategy
    split at hstrategy
    · cases hstrategy
    · split at hstrategy
      · cases hstrategy
        rfl
      · cases hstrategy
  · dsimp only at hfault
    split at hfault
    · cases hfault
      rfl
    · cases hfault

section

variable {around : Surroundings} {files : FileTree} {request : IndexRequest}

/-- Without a plan, the command says what is wrong with the project and leaves the files alone. -/
theorem indexProject_without_plan (around : Surroundings) (hnone : IsEmpty (request.Plan files)) :
    ∃ out fault, fault.isOfProject = true ∧
      indexProject around files request = .failed out fault files := by
  unfold indexProject
  split
  next fault hproject => exact ⟨"", fault, Project.isOfProject_of_load hproject, rfl⟩
  next project hproject =>
    split
    next fault hsettings =>
      exact ⟨"", fault, IndexRequest.isOfProject_of_override hsettings, rfl⟩
    next settings hsettings =>
      dsimp only
      split
      next fault hcommands => exact ⟨_, .project fault, rfl, rfl⟩
      next commands hcommands =>
        exact (hnone.false ⟨project, settings, commands, hproject, hsettings, hcommands⟩).elim

/-! ## With a plan -/

/-- With a plan, the store is opened and prepared, and the files are indexed into it. -/
theorem indexProject_of_plan (around : Surroundings) (plan : request.Plan files) :
    indexProject around files request =
      match files.openStore plan.storePath with
      | .failed fault => .failed plan.heading (.openStore fault) files
      | .crashed => .crashed plan.heading files
      | .done (store, made) =>
        match prepareStore request.rebuild plan.strategy store with
        | .error fault => .failed plan.heading (.unrecordedStrategy fault) made
        | .ok store =>
          indexInto around plan.heading plan.storePath plan.options
            (made.writeStore plan.storePath store) store plan.jobs := by
  rw [indexProject, plan.project_eq]
  dsimp only
  rw [plan.settings_eq]
  dsimp only
  rw [plan.commands_eq]
  rfl

/-- With a plan, nothing is said to be wrong with the project, and there is no run without
files. -/
theorem result_of_plan (plan : request.Plan files) {fault : CommandFault}
    (hfailed : (indexProject around files request).result = .failed fault) :
    fault.isOfProject = false ∧ ∀ trouble, fault ≠ .index trouble := by
  rw [indexProject_of_plan around plan] at hfailed
  split at hfailed
  · cases hfailed
    exact ⟨rfl, by nofun⟩
  · cases hfailed
  · split at hfailed
    · cases hfailed
      exact ⟨rfl, by nofun⟩
    next store hprepare =>
      obtain hcrash | ⟨last, -, hdone⟩ := indexInto_cases around plan.heading plan.storePath
        plan.options _ store plan.jobs_ne_nil
      · rw [hcrash] at hfailed
        cases hfailed
      · rw [hdone] at hfailed
        cases hfailed

/-- A rebuild that ends well has run over a store without entries, and has left the store as the
run did. -/
theorem exists_ran_of_rebuild (plan : request.Plan files) (hrebuild : request.rebuild = true)
    (hdone : (indexProject around files request).result = .done ()) :
    ∃ old made last name, files.openStore plan.storePath = .done (old, made) ∧
      (around.indexer plan.options).Ran ((around.indexer plan.options).init
        (made.writeStore plan.storePath plan.cleared) plan.cleared) plan.jobs last ∧
      (indexProject around files request).files.storeAt? plan.storePath =
        some (name, last.index.cache) ∧
      (indexProject around files request).out =
        plan.heading ++ textOfLines (last.report.lines around.elapsed) := by
  have hproject := indexProject_of_plan around plan
  rw [hproject] at hdone
  split at hdone
  · cases hdone
  · cases hdone
  next old made hopen =>
    have hprepare : prepareStore request.rebuild plan.strategy old = .ok plan.cleared := by
      rw [hrebuild]
      rfl
    rw [hprepare] at hdone
    dsimp only at hdone
    obtain ⟨name, hname⟩ := FileTree.exists_storeAt?_of_openStore plan.storePath_notMem hopen
    have hbegun := FileTree.storeAt?_writeStore plan.storePath_notMem hname plan.cleared
    obtain hcrash | ⟨last, hran, hinto⟩ := indexInto_cases around plan.heading plan.storePath
      plan.options (made.writeStore plan.storePath plan.cleared) plan.cleared plan.jobs_ne_nil
    · rw [hcrash] at hdone
      cases hdone
    · have hwhole : indexProject around files request =
          .done (plan.heading ++ textOfLines (last.report.lines around.elapsed))
            ((made.writeStore plan.storePath plan.cleared).writeStore plan.storePath
              last.index.cache) := by
        rw [hproject, hopen]
        dsimp only
        rw [hprepare]
        exact hinto
      refine ⟨old, made, last, name, hopen, hran, ?_, ?_⟩
      · rw [hwhole, Printed.done]
        exact FileTree.storeAt?_writeStore plan.storePath_notMem hbegun last.index.cache
      · rw [hwhole, Printed.done]

/-- What a run makes of a store that was cleared. -/
structure Rebuilt (indexer : Indexer Store) (now : Int) (begun : FileTree) (jobs : List Job)
    (last : RunState Store) : Prop where
  strategy : last.index.cache.keyStrategy = .ok (some indexer.options.keyStrategy)
  entries : ∀ entry ∈ last.index.cache.entries.getD [], ∃ job ∈ jobs, ∃ record,
    indexer.Written begun now job record entry ∧
      ⟨job, .counted (.done (.indexed record true))⟩ ∈ last.tasks
  hits : (jobs.filterMap (indexer.key? begun)).Nodup → last.report.cacheHits = 0

theorem rebuilt_of_ran {indexer : Indexer Store} {now : Int} {begun : FileTree} {cleared : Store}
    {jobs : List Job} {last : RunState Store} (hcache : indexer.cache = .ofStore now)
    (hname : cleared.strategyName = some (some indexer.options.keyStrategy.name))
    (hempty : cleared.entries = some [])
    (hran : indexer.Ran (indexer.init begun cleared) jobs last) :
    Rebuilt indexer now begun jobs last := by
  have hstart : (indexer.init begun cleared).cache = cleared := rfl
  refine ⟨?_, fun entry hentry => ?_, fun hkeys => ?_⟩
  · have hkept := (hran.filled hcache).strategyName
    rw [hstart, hname] at hkept
    rw [Store.keyStrategy, hkept]
    cases indexer.options.keyStrategy <;> rfl
  · refine (hran.exists_writer hcache hentry).resolve_left ?_
    rw [hstart, hempty]
    exact List.not_mem_nil
  · have hkeyed : indexer.cache.KeyedBy Store.slot := hcache ▸ Cache.keyedBy_ofStore now
    have hnone (key : CacheKey) : indexer.cache.has cleared key = .ok false := by
      rw [hcache]
      simp [Cache.ofStore, Store.has, hempty]
    have hfiles : (indexer.init begun cleared).files = begun := rfl
    rw [← hfiles] at hkeys
    refine hran.cacheHits_eq_zero hkeyed hkeys fun key hhas => ?_
    rw [hstart, hnone] at hhas
    cases hhas

/-- **A run that cannot go on destroys nothing, and a rebuild leaves nothing old.**  The command
fails with trouble of the project exactly if its root, its settings and its commands do not make
a plan, and then all files are as they were.  It never fails for lack of files once the store may
have been cleared.  A rebuild that ends well has left a store whose entries were written by its
own run, under the keys of its own files, whose key strategy is that of the run, and if the files
have different keys, there was no hit.  What holds of the run in order holds of every schedule. -/
theorem indexProject_spares (around : Surroundings) (files : FileTree) (request : IndexRequest) :
    ((∃ fault, fault.isOfProject = true ∧
        (indexProject around files request).result = .failed fault) ↔
      IsEmpty (request.Plan files)) ∧
    (∀ fault, (indexProject around files request).result = .failed fault →
      fault.isOfProject = true → (indexProject around files request).files = files) ∧
    (∀ trouble, (indexProject around files request).result ≠ .failed (.index trouble)) ∧
    (request.rebuild = true → (indexProject around files request).result = .done () →
      ∃ (plan : request.Plan files) (old : Store) (made begun : FileTree) (last : RunState Store)
        (name : List String),
        files.openStore plan.storePath = .done (old, made) ∧
        begun = made.writeStore plan.storePath plan.cleared ∧
        (indexProject around files request).files.storeAt? plan.storePath =
          some (name, last.index.cache) ∧
        (indexProject around files request).out =
          plan.heading ++ textOfLines (last.report.lines around.elapsed) ∧
        (around.indexer plan.options).Ran
          ((around.indexer plan.options).init begun plan.cleared) plan.jobs last ∧
        ∀ other, (around.indexer plan.options).Ran
            ((around.indexer plan.options).init begun plan.cleared) plan.jobs other →
          Rebuilt (around.indexer plan.options) around.now begun plan.jobs other) := by
  obtain hnone | ⟨⟨plan⟩⟩ := isEmpty_or_nonempty (request.Plan files)
  · obtain ⟨out, fault, hfault, hfailed⟩ := indexProject_without_plan around hnone
    rw [hfailed]
    refine ⟨⟨fun _ => hnone, fun _ => ⟨fault, hfault, rfl⟩⟩, fun _ _ _ => rfl, ?_, by nofun⟩
    rintro trouble ⟨⟩
    cases hfault
  · refine ⟨⟨?_, fun hnone => (hnone.false plan).elim⟩, ?_, ?_, ?_⟩
    · rintro ⟨fault, hfault, hfailed⟩
      rw [(result_of_plan plan hfailed).1] at hfault
      cases hfault
    · intro fault hfailed hfault
      rw [(result_of_plan plan hfailed).1] at hfault
      cases hfault
    · intro trouble hfailed
      exact (result_of_plan plan hfailed).2 trouble rfl
    · intro hrebuild hdone
      obtain ⟨old, made, last, name, hopen, hran, hstore, hout⟩ :=
        exists_ran_of_rebuild plan hrebuild hdone
      exact ⟨plan, old, made, _, last, name, hopen, rfl, hstore, hout, hran,
        fun other hother => rebuilt_of_ran rfl rfl rfl hother⟩

end

/-! ## A store with an old entry -/

namespace RebuildSample

/-- A store that a run of long ago has left. -/
def oldStore : Store :=
  { Store.fresh with
    entries := some [{ key := .ofPath "/old.c", path := "/old.c", value := [], indexedAt := 1 }]
    strategyName := some (some "path") }

/-- A project at the top with one file and a store. -/
def files : FileTree where
  entries := [(["tmp"], .directory), (["f.c"], .file ParseSample.content),
    (["compile_commands.json"], .file (Bytes.ofText "[[\"/\",\"f.c\",[\"cc\"]]]")),
    ([".cxxgraph"], .directory), ([".cxxgraph", "index.db"], .store oldStore)]

def around : Surroundings where
  grammars := ParseSample.grammars
  now := 7
  elapsed := "0.00s"
  storeSize := fun _ => ""

/-- A rebuild under a strategy of this name. -/
def request (name : String) : IndexRequest where
  rebuild := true
  keyStrategy := some name

/-- What a rebuild under the strategy `content` comes down to. -/
def plan : (request "content").Plan files where
  project := { root := "/", settings := {} }
  settings := { indexing := { keyStrategy := .content } }
  commands := [⟨"/f.c", []⟩]
  project_eq := by decide +kernel
  settings_eq := by decide +kernel
  commands_eq := by decide +kernel

end RebuildSample

open RebuildSample

/-- A rebuild under a strategy that is none leaves the old entry, and one under a known strategy
leaves only what it has written. -/
theorem indexProject_spares_rebuildSample :
    (indexProject around files (request "contents")).files = files ∧
      (indexProject around files (request "content")).result = .done () ∧
      ∃ (name : List String) (last : RunState Store),
        (indexProject around files (request "content")).files.storeAt? plan.storePath =
          some (name, last.index.cache) ∧
        last.index.cache.keyStrategy = .ok (some .content) ∧
        (∀ entry ∈ last.index.cache.entries.getD [], entry.path = "/f.c" ∧ entry.indexedAt = 7) ∧
        (indexProject around files (request "content")).out =
          plan.heading ++ textOfLines (last.report.lines "0.00s") ∧
        last.report.cacheHits = 0 := by
  have hunknown : (indexProject around files (request "contents")).result =
      .failed (.unknownStrategy "contents") := by
    decide +kernel
  have hdone : (indexProject around files (request "content")).result = .done () := by
    decide +kernel
  obtain ⟨-, hspared, -, -⟩ := indexProject_spares around files (request "contents")
  obtain ⟨-, -, -, hrebuilt⟩ := indexProject_spares around files (request "content")
  obtain ⟨own, -, -, begun, last, name, -, -, hstore, hout, hran, hall⟩ := hrebuilt rfl hdone
  cases own.eq_of_plans plan
  have hlast := hall last hran
  refine ⟨hspared _ hunknown rfl, hdone, name, last, hstore, hlast.strategy, ?_, hout,
    hlast.hits ?_⟩
  · intro entry hentry
    obtain ⟨job, hjob, record, hwritten, -⟩ := hlast.entries entry hentry
    cases List.mem_singleton.mp hjob
    exact ⟨hwritten.path, hwritten.time⟩
  · change (List.filterMap _ [_]).Nodup
    rw [List.filterMap_cons]
    split <;> simp

end SourceIndex
