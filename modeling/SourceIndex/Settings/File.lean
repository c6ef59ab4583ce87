import SourceIndex.FileTree
import SourceIndex.Settings.Basic
import SourceIndex.Text.Toml.Document

/-!
# Settings files

The settings of a project stand in a TOML file, one section for each group.  Keys
that are no setting are passed over, and a setting that is left out has the value
it has if nothing is said.  A section may also be an array of the values of its
settings in order.
-/

namespace SourceIndex

open Toml (Item)

/-- Why a settings file cannot be used. -/
inductive SettingsFileFault where
  | unreadable (fault : IoFault)
  /-- The file is no TOML, or a value has the wrong type. -/
  | malformed
  | invalid (fault : SettingsFault)
  deriving DecidableEq, Repr

namespace Settings

/-! ## Values -/

/-- The text that an item holds. -/
def text? : Item → Option String
  | .string text => some text
  | _ => none

/-- The list of texts that an item holds. -/
def texts? : Item → Option (List String)
  | .array items => items.mapM text?
  | _ => none

/-- The number that an item holds, if it is not negative. -/
def nat? : Item → Option Nat
  | .integer value => if 0 ≤ value then some value.toNat else none
  | _ => none

/-- The truth value that an item holds. -/
def bool? : Item → Option Bool
  | .boolean value => some value
  | _ => none

/-- Whether an item holds nothing. -/
def isHollow : Item → Bool
  | .array items => items.isEmpty
  | .inlineTable _ _ members | .table _ _ members => members.isEmpty
  | .tables elements => elements.isEmpty
  | _ => false

/-- The strategy that an item names, by a text or as the only key of a table that
holds nothing else. -/
def strategy? : Item → Option KeyStrategy
  | .string name => KeyStrategy.ofName? name
  | .inlineTable _ _ [(name, item)] | .table _ _ [(name, item)] =>
    if isHollow item then KeyStrategy.ofName? name else none
  | _ => none

/-! ## Sections -/

/-- What a section says about each of its settings, in order. -/
def slots? (names : List String) : Item → Option (List (Option Item))
  | .table _ _ members | .inlineTable _ _ members => some (names.map fun name => members.lookup name)
  | .array items => some ((List.range names.length).map fun i => items[i]?)
  | .tables elements =>
    some ((List.range names.length).map fun i => elements[i]?.map fun members => .table false false members)
  | .date => some (names.map fun _ => none)
  | _ => none

/-- The value of a setting, which is `default` if nothing is said. -/
def slot {α : Type} (read : Item → Option α) (default : α) : Option Item → Option α
  | none => some default
  | some item => read item

/-- Reads a section that may be left out. -/
def section? {α : Type} (document : Toml.Table) (name : String) (default : α)
    (read : Item → Option α) : Option α :=
  slot read default (document.find? name)

/-- The settings of the project section. -/
def project? (item : Item) : Option (Option String) :=
  match slots? ["root"] item with
  | some [root] => slot (fun item => (text? item).map some) none root
  | _ => none

/-- The settings of the compilation section. -/
def compilation? (item : Item) : Option CompilationSettings :=
  match slots? ["database", "path_range", "system_c_include_dirs", "system_cxx_include_dirs",
      "system_framework_dirs"] item with
  | some [database, pathRange, systemCDirs, systemCxxDirs, frameworkDirs] => do
    let database ← slot text? ({} : CompilationSettings).database database
    let pathRange ← slot texts? [] pathRange
    let systemCDirs ← slot texts? [] systemCDirs
    let systemCxxDirs ← slot texts? [] systemCxxDirs
    let frameworkDirs ← slot texts? [] frameworkDirs
    return { database, pathRange, systemCDirs, systemCxxDirs, frameworkDirs }
  | _ => none

/-- The settings of the indexing section. -/
def indexing? (item : Item) : Option IndexingSettings :=
  let unsaid : IndexingSettings := {}
  match slots? ["jobs", "queue_capacity", "key_strategy", "scratch_dir", "store_path"] item with
  | some [jobs, queueCapacity, keyStrategy, scratchDir, storePath] => do
    let jobs ← slot nat? unsaid.jobs jobs
    let queueCapacity ← slot nat? unsaid.queueCapacity queueCapacity
    let keyStrategy ← slot strategy? unsaid.keyStrategy keyStrategy
    let scratchDir ← slot (fun item => (text? item).map some) unsaid.scratchDir scratchDir
    let storePath ← slot text? unsaid.storePath storePath
    return { jobs, queueCapacity, keyStrategy, scratchDir, storePath }
  | _ => none

/-- The settings of the parser section. -/
def parsing? (item : Item) : Option ParseOptions :=
  let unsaid : ParseOptions := {}
  match slots? ["keep_going", "detailed_preprocessing_record", "skip_function_bodies"] item with
  | some [keepGoing, detailedPreprocessing, skipFunctionBodies] => do
    let keepGoing ← slot bool? unsaid.keepGoing keepGoing
    let detailedPreprocessing ← slot bool? unsaid.detailedPreprocessing detailedPreprocessing
    let skipFunctionBodies ← slot bool? unsaid.skipFunctionBodies skipFunctionBodies
    return { keepGoing, detailedPreprocessing, skipFunctionBodies }
  | _ => none

/-- The settings that a document describes. -/
def ofDocument? (document : Toml.Table) : Option Settings := do
  let root ← section? document "project" none project?
  let compilation ← section? document "compilation" {} compilation?
  let indexing ← section? document "indexing" {} indexing?
  let parsing ← section? document "parser" {} parsing?
  return { root, compilation, indexing, parsing }

/-! ## Files -/

/-- The settings in a file. -/
def ofFile (tree : FileTree) (path : String) : Except SettingsFileFault Settings :=
  match tree.readText path with
  | .error fault => .error (.unreadable fault)
  | .ok text =>
    match (Toml.parse? text).bind ofDocument? with
    | none => .error .malformed
    | some settings =>
      match settings.fault? with
      | some fault => .error (.invalid fault)
      | none => .ok settings

/-- The settings of the project in a directory.  A file that cannot be used says
nothing. -/
def ofProjectDir (tree : FileTree) (dir : String) : Settings :=
  match ofFile tree (Path.join dir fileName) with
  | .ok settings => settings
  | .error _ => {}

end Settings
end SourceIndex
