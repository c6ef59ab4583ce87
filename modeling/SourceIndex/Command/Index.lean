import SourceIndex.Command.Basic

/-!
# The command that indexes a project

The project is looked at before anything is written: as long as its root, its
settings and its compilation database are in doubt, no file changes.
-/

namespace SourceIndex

/-- What is asked of indexing a project. -/
structure IndexRequest where
  project : Option String := none
  jobs : Option Nat := none
  keyStrategy : Option String := none
  /-- Drop all entries first. -/
  rebuild : Bool := false
  /-- Tell the kinds of cursors that contribute nothing. -/
  diagnostics : Bool := false
  deriving DecidableEq, Repr

namespace IndexRequest

/-- The strategy that is asked for; the one of the settings if none is. -/
def strategy (request : IndexRequest) (settings : Settings) : Except CommandFault KeyStrategy :=
  match request.keyStrategy with
  | none => .ok settings.indexing.keyStrategy
  | some name =>
    match KeyStrategy.ofName? name with
    | none => .error (.unknownStrategy name)
    | some strategy => .ok strategy

/-- The settings with what is asked for in place of what they say. -/
def override (request : IndexRequest) (settings : Settings) : Except CommandFault Settings :=
  match request.strategy settings with
  | .error fault => .error fault
  | .ok keyStrategy =>
    let jobs := request.jobs.getD settings.indexing.jobs
    let settings := { settings with indexing := { settings.indexing with jobs, keyStrategy } }
    match settings.fault? with
    | some fault => .error (.settings fault)
    | none => .ok settings

end IndexRequest

/-- The lines in front of the work. -/
def indexHeading (root : String) (settings : Settings) : String :=
  textOfLines
    ["cxxgraph indexer v" ++ programVersion,
     "Project: " ++ root,
     "Provider: " ++ parserVersion,
     "Key strategy: " ++ settings.indexing.keyStrategy.name]

/-- The lines about a run. -/
def RunSummary.lines (elapsed : String) (summary : RunSummary) : List String :=
  ["", "Indexing complete in " ++ elapsed,
   "  Files: " ++ toString summary.submitted,
   "  Cache hits: " ++ toString summary.cacheHits,
   "  Indexed: " ++ toString summary.indexed,
   "  Failed: " ++ toString summary.failed] ++
  (if 0 < summary.notPersisted then ["  Not persisted: " ++ toString summary.notPersisted] else []) ++
  (if summary.unhandledKinds.isEmpty then []
   else ["", "Unhandled node kinds:"] ++
    summary.unhandledKinds.map fun kind => "  " ++ kind.1 ++ ": " ++ toString kind.2)

/-- Prepares an opened store for a run. -/
def prepareStore (rebuild : Bool) (strategy : KeyStrategy) (store : Store) : Except StoreFault Store :=
  (if rebuild then store.clear else store).setKeyStrategy strategy

/-- Indexes jobs into the store at a path, after `out` has been printed. -/
def indexInto (around : Surroundings) (out path : String) (options : IndexOptions)
    (files : FileTree) (store : Store) (jobs : List Job) : Printed :=
  let indexer : Indexer Store :=
    { parser := .ofGrammars around.grammars, cache := .ofStore around.now, options }
  let (result, state) := indexer.run (indexer.init files store) jobs
  let files := state.files.writeStore path state.cache
  match result with
  | .failed fault => .failed out (.index fault) files
  | .crashed => .crashed out files
  | .done summary => .done (out ++ textOfLines (summary.lines around.elapsed)) files

/-- Indexes a project. -/
def indexProject (around : Surroundings) (files : FileTree) (request : IndexRequest) : Printed :=
  match Project.load files request.project with
  | .error fault => .failed "" fault files
  | .ok project =>
    match request.override project.settings with
    | .error fault => .failed "" fault files
    | .ok settings =>
      let out := indexHeading project.root settings
      match loadCommands files project.root settings.compilation with
      | .error fault => .failed out (.project fault) files
      | .ok commands =>
        let jobs := commands.map fun command => Job.mk command.file command.arguments
        let path := settings.storePath project.root
        let out := out ++ textOfLines
          ["Compile commands: " ++ toString jobs.length, "Store: " ++ path]
        match files.openStore path with
        | .failed fault => .failed out (.openStore fault) files
        | .crashed => .crashed out files
        | .done (store, files) =>
          match prepareStore request.rebuild settings.indexing.keyStrategy store with
          | .error fault => .failed out (.unrecordedStrategy fault) files
          | .ok store =>
            let options := { IndexOptions.ofSettings settings project.root with
              diagnostics := request.diagnostics }
            indexInto around out path options (files.writeStore path store) store jobs

end SourceIndex
