import SourceIndex.Parse.File
import SourceIndex.Pipeline.Cache
import SourceIndex.Pipeline.Queue
import SourceIndex.Pipeline.Unit
import SourceIndex.Record.Extract
import SourceIndex.Record.Stored
import SourceIndex.Settings.Basic
import SourceIndex.Store.Derive

/-!
# Indexing

A file goes through at most four steps: the cache is asked for its key, a value
under the key is fetched and restored, the file is parsed, and its record is
written to the cache.  Trouble with reading the cache leads to a parse, trouble
with writing it is only noted; all other trouble fails the file.

Between two steps of one file, steps of other files may happen.  `indexFile` is
the case in which none do, and `run` takes one file after the other.
-/

namespace SourceIndex

/-- A source file and the flags it is compiled with. -/
structure Job where
  file : String
  flags : List String
  deriving DecidableEq, Repr

/-- How indexing is done. -/
structure IndexOptions where
  /-- The number of workers; zero for as many as the machine can run. -/
  jobs : Nat := 0
  queueCapacity : Nat := 64
  keyStrategy : KeyStrategy := .path
  parsing : ParseOptions := {}
  scratchDir : Option String := none
  /-- Count the kinds of cursors that contribute nothing. -/
  diagnostics : Bool := false
  deriving DecidableEq, Repr

/-- The options that settings ask for. -/
def IndexOptions.ofSettings (settings : Settings) (root : String) : IndexOptions where
  jobs := settings.indexing.jobs
  queueCapacity := settings.indexing.queueCapacity
  keyStrategy := settings.indexing.keyStrategy
  parsing := settings.parsing
  scratchDir := settings.scratchDir? root

/-- What makes units of files. -/
abbrev UnitParser := FileTree → Job → ParseOptions → Outcome UnitFault SourceUnit

/-- The parser that lowers what grammars answer. -/
def UnitParser.ofGrammars (grammars : Grammars) : UnitParser := fun files job options =>
  match parseFile grammars files job.file job.flags options with
  | .error fault => .failed fault
  | .ok tree => .done { tree }

/-- Why a file, or a run, fails. -/
inductive IndexFault where
  /-- There is nothing to do. -/
  | noFiles
  /-- The file cannot be read for its key. -/
  | unreadable (path : String) (fault : IoFault)
  | unit (fault : UnitFault)
  | codec (fault : CodecFault)
  deriving DecidableEq, Repr

/-- The wording of a fault. -/
def IndexFault.message : IndexFault → String
  | .noFiles => "configuration error: no files to index"
  | .unreadable path fault => "failed to read " ++ path ++ ": " ++ fault.message
  | .unit fault => fault.message
  | .codec fault => fault.message

/-- How the indexing of a file ends well. -/
inductive FileOutcome where
  /-- The cache holds a record of the file. -/
  | cacheHit
  /-- The file was parsed; `persisted` says whether the cache took the record. -/
  | indexed (record : Record) (persisted : Bool)
  deriving DecidableEq, Repr

/-- What indexing does besides reading. -/
inductive IndexAction where
  | parse (job : Job)
  | put (key : CacheKey) (path : String) (value : Bytes)
  deriving DecidableEq, Repr

/-- What indexing works on. -/
structure IndexState (σ : Type) where
  files : FileTree
  cache : σ
  /-- Counts of the cursors that contribute nothing, if they are wanted. -/
  tally : Option Tally := none
  /-- What was done, the last action first. -/
  log : List IndexAction := []
  deriving DecidableEq, Repr

/-- What indexing works with. -/
structure Indexer (σ : Type) where
  parser : UnitParser
  cache : Cache σ
  options : IndexOptions
  scratch : Scratch := { dir := options.scratchDir }

/-- How far a file has come. -/
inductive IndexStage where
  /-- The cache is to be asked for the key. -/
  | lookup (key : CacheKey)
  /-- The cache has said that it has the key. -/
  | fetch (key : CacheKey)
  /-- The file is to be parsed. -/
  | parse (key : CacheKey)
  /-- The record is to be written. -/
  | persist (key : CacheKey) (record : Record)
  | ended (result : Outcome IndexFault FileOutcome)
  deriving DecidableEq, Repr

namespace Indexer

variable {σ : Type}

/-- The first state over files and a cache. -/
def init (indexer : Indexer σ) (files : FileTree) (cache : σ) : IndexState σ where
  files := files
  cache := cache
  tally := if indexer.options.diagnostics then some [] else none

/-- Where a file starts. -/
def firstStage (indexer : Indexer σ) (files : FileTree) (job : Job) : IndexStage :=
  match indexer.options.keyStrategy.derive files job.file job.flags with
  | .error fault => .ended (.failed (.unreadable job.file fault))
  | .ok key => .lookup key

/-- Asks the cache for a key. -/
def lookupStep (indexer : Indexer σ) (state : IndexState σ) (key : CacheKey) : IndexStage :=
  match indexer.cache.has state.cache key with
  | .ok true => .fetch key
  | .ok false | .error _ => .parse key

/-- Fetches a value and restores its unit, which shows that the value is whole.
A value that is no record is passed over. -/
def fetchStep (indexer : Indexer σ) (state : IndexState σ) (key : CacheKey) :
    IndexStage × IndexState σ :=
  match indexer.cache.get state.cache key with
  | .error _ => (.parse key, state)
  | .ok bytes =>
    match Record.ofBytes bytes with
    | .error _ => (.parse key, state)
    | .ok record =>
      let (restored, files) := deserialize indexer.scratch state.files record.savedTree
      match restored with
      | .error fault => (.ended (.failed (.codec fault)), { state with files })
      | .ok _ => (.ended (.done .cacheHit), { state with files })

/-- What comes of a unit: its saved tree and what was extracted from it.  An
extraction that crashes counts more than trouble with saving. -/
def afterParse (key : CacheKey) (saved : Outcome CodecFault Bytes) (record : Record)
    (walk : WalkEnd) : IndexStage :=
  match walk with
  | .finished =>
    match saved with
    | .crashed => .ended (.failed (.codec .crashed))
    | .failed fault => .ended (.failed (.codec fault))
    | .done bytes => .persist key { record with savedTree := bytes }
  | _ => .ended .crashed

/-- Parses a file, saves its tree and extracts its record. -/
def parseStep (indexer : Indexer σ) (state : IndexState σ) (job : Job) (key : CacheKey) :
    IndexStage × IndexState σ :=
  let state := { state with log := .parse job :: state.log }
  match indexer.parser state.files job indexer.options.parsing with
  | .failed fault => (.ended (.failed (.unit fault)), state)
  | .crashed => (.ended .crashed, state)
  | .done unit =>
    let (saved, files) := serialize indexer.scratch state.files unit
    let (found, walk) := extract unit.tree job.file job.flags state.tally
    (afterParse key saved found.record walk, { state with files, tally := found.tally })

/-- Writes a record. -/
def persistStep (indexer : Indexer σ) (state : IndexState σ) (job : Job) (key : CacheKey)
    (record : Record) : IndexStage × IndexState σ :=
  let bytes := record.toBytes
  let log := .put key job.file bytes :: state.log
  match indexer.cache.put state.cache key job.file bytes with
  | .error _ => (.ended (.done (.indexed record false)), { state with log })
  | .ok cache => (.ended (.done (.indexed record true)), { state with log, cache })

/-- One step of a file; a file that has ended stays as it is. -/
def advance (indexer : Indexer σ) (job : Job) (stage : IndexStage) (state : IndexState σ) :
    IndexStage × IndexState σ :=
  match stage with
  | .lookup key => (indexer.lookupStep state key, state)
  | .fetch key => indexer.fetchStep state key
  | .parse key => indexer.parseStep state job key
  | .persist key record => indexer.persistStep state job key record
  | .ended result => (.ended result, state)

/-- A number of steps of a file. -/
def advanceBy (indexer : Indexer σ) (job : Job) :
    (steps : Nat) → IndexStage → IndexState σ → IndexStage × IndexState σ
  | 0, stage, state => (stage, state)
  | steps + 1, stage, state =>
    let (stage, state) := indexer.advance job stage state
    indexer.advanceBy job steps stage state

/-- The number of steps after which every file has ended. -/
def maxSteps : Nat := 4

/-- Indexes one file. -/
def indexFile (indexer : Indexer σ) (state : IndexState σ) (job : Job) :
    Outcome IndexFault FileOutcome × IndexState σ :=
  match indexer.advanceBy job maxSteps (indexer.firstStage state.files job) state with
  | (.ended result, state) => (result, state)
  | (_, state) => (.crashed, state)

end Indexer

/-- The numbers of a run. -/
structure RunSummary where
  submitted : Nat := 0
  cacheHits : Nat := 0
  indexed : Nat := 0
  failed : Nat := 0
  notPersisted : Nat := 0
  /-- The kinds that contributed nothing, the most frequent first. -/
  unhandledKinds : List (String × Nat) := []
  deriving DecidableEq, Repr

/-- Counts how a file ended. -/
def RunSummary.count (summary : RunSummary) : Outcome IndexFault FileOutcome → RunSummary
  | .done .cacheHit =>
    { summary with submitted := summary.submitted + 1, cacheHits := summary.cacheHits + 1 }
  | .done (.indexed _ true) =>
    { summary with submitted := summary.submitted + 1, indexed := summary.indexed + 1 }
  | .done (.indexed _ false) =>
    { summary with
      submitted := summary.submitted + 1
      indexed := summary.indexed + 1
      notPersisted := summary.notPersisted + 1 }
  | .failed _ | .crashed =>
    { summary with submitted := summary.submitted + 1, failed := summary.failed + 1 }

namespace Indexer

variable {σ : Type}

/-- Indexes files in order and counts how they ended. -/
def indexAll (indexer : Indexer σ) (state : IndexState σ) (summary : RunSummary) :
    List Job → RunSummary × IndexState σ
  | [] => (summary, state)
  | job :: rest =>
    let (result, state) := indexer.indexFile state job
    indexer.indexAll state (summary.count result) rest

/-- Whether the options ask for a work queue that cannot be started. -/
def queueTooLong (indexer : Indexer σ) : Bool :=
  WorkQueue.maxCapacity < indexer.options.queueCapacity

/-- Indexes files, at least one.  The counts of kinds go on from run to run.  A
work queue that cannot be started crashes the run before its first file. -/
def run (indexer : Indexer σ) (state : IndexState σ) (jobs : List Job) :
    Outcome IndexFault RunSummary × IndexState σ :=
  if jobs.isEmpty then (.failed .noFiles, state)
  else if indexer.queueTooLong then (.crashed, state)
  else
    let (summary, state) := indexer.indexAll state {} jobs
    (.done { summary with unhandledKinds := (state.tally.map Tally.ranking).getD [] }, state)

end Indexer
end SourceIndex
