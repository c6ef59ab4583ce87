import Mathlib.Data.List.Forall2
import SourceIndex.Compile.Database

/-!
# The first command of a file

A compilation database may list a file several times, and may list files that are not
wanted or whose command cannot be read.  Loading goes through the entries once, and keeps
a list of the files it has seen.

* `RawCommand.Usable` says of an entry that it has a normal form in range, and `FirstUse`
  says of a position that it is the first one of its file with a usable entry.
* `keptCommands_of_skipped` and `keptCommands_of_taken` are the two things that can happen
  to an entry.  All else is an induction over these two.
* `exists_positions_keptCommands`: what is kept are the commands at the positions with a
  first use, in their order.

An entry without a first use leaves no trace (`keptCommands_without`): not even the file of
an unusable entry counts as seen.
-/

namespace SourceIndex

/-! ## Usable entries -/

/-- A file is in range if there is no range, or if its path starts with one of the
ranges, seen from the root. -/
def InRange (root : String) (settings : CompilationSettings) (file : String) : Prop :=
  settings.pathRange = [] ∨
    ∃ start ∈ settings.pathRange, (Path.absolutize root start).toList <+: file.toList

theorem inRange_iff {root : String} {settings : CompilationSettings} {file : String} :
    inRange (settings.pathRange.map (Path.absolutize root)) file = true ↔
      InRange root settings file := by
  simp [inRange, InRange, Path.startsWithText]

/-- An entry whose command has a normal form in range. -/
structure RawCommand.Usable (root : String) (settings : CompilationSettings) (entry : RawCommand)
    (command : CompileCommand) : Prop where
  normal : entry.normalize? = some command
  inRange : InRange root settings command.file

theorem RawCommand.Usable.unique {root : String} {settings : CompilationSettings}
    {entry : RawCommand} {command other : CompileCommand}
    (husable : entry.Usable root settings command) (hother : entry.Usable root settings other) :
    command = other :=
  Option.some.inj (husable.normal.symm.trans hother.normal)

/-- A position with a usable entry, before which no usable entry is of the same file. -/
structure FirstUse (root : String) (settings : CompilationSettings) (entries : List RawCommand)
    (position : Nat) (command : CompileCommand) : Prop where
  usable : ∃ entry, entries[position]? = some entry ∧ entry.Usable root settings command
  first : ∀ other < position, ∀ entry earlier, entries[other]? = some entry →
    entry.Usable root settings earlier → earlier.file ≠ command.file

section
variable {root : String} {settings : CompilationSettings} {entry : RawCommand}
  {entries : List RawCommand} {command : CompileCommand}

theorem FirstUse.head (husable : entry.Usable root settings command) :
    FirstUse root settings (entry :: entries) 0 command where
  usable := ⟨entry, rfl, husable⟩
  first := nofun

theorem FirstUse.cons {position : Nat} (hfirst : FirstUse root settings entries position command)
    (hother : ∀ earlier, entry.Usable root settings earlier → earlier.file ≠ command.file) :
    FirstUse root settings (entry :: entries) (position + 1) command where
  usable := hfirst.usable
  first := by
    rintro (_ | other) hlt found earlier hfound husable
    · cases hfound
      exact hother earlier husable
    · exact hfirst.first other (by omega) found earlier hfound husable

/-- Two positions with a first use are of different files. -/
theorem FirstUse.file_ne {position later : Nat} {other : CompileCommand}
    (hfirst : FirstUse root settings entries position command)
    (hlater : FirstUse root settings entries later other) (hlt : position < later) :
    command.file ≠ other.file := by
  obtain ⟨entry, hentry, husable⟩ := hfirst.usable
  exact hlater.first position hlt entry command hentry husable

/-! ## Entries that are kept -/

/-- The commands that are kept of some entries, once the files `seen` have been seen. -/
def keptCommands (root : String) (settings : CompilationSettings) (seen : List String)
    (entries : List RawCommand) : List CompileCommand :=
  selectCommands (settings.pathRange.map (Path.absolutize root)) seen
    (entries.filterMap RawCommand.normalize?)

theorem keptCommands_of_skipped {seen : List String}
    (hskipped : ∀ command, entry.Usable root settings command → command.file ∈ seen) :
    keptCommands root settings seen (entry :: entries) =
      keptCommands root settings seen entries := by
  unfold keptCommands
  cases hnormal : entry.normalize? with
  | none => rw [List.filterMap_cons_none hnormal]
  | some command =>
      rw [List.filterMap_cons_some hnormal, selectCommands, if_neg]
      intro htaken
      simp only [Bool.and_eq_true, Bool.not_eq_true', inRange_iff, List.contains_eq_mem,
        decide_eq_false_iff_not] at htaken
      exact htaken.2 (hskipped command ⟨hnormal, htaken.1⟩)

theorem keptCommands_of_taken {seen : List String} (husable : entry.Usable root settings command)
    (hnew : command.file ∉ seen) :
    keptCommands root settings seen (entry :: entries) =
      command :: keptCommands root settings (command.file :: seen) entries := by
  unfold keptCommands
  rw [List.filterMap_cons_some husable.normal, selectCommands, if_pos]
  simp [inRange_iff.mpr husable.inRange, hnew]

theorem skipped_or_taken (root : String) (settings : CompilationSettings) (seen : List String)
    (entry : RawCommand) :
    (∀ command, entry.Usable root settings command → command.file ∈ seen) ∨
      ∃ command, entry.Usable root settings command ∧ command.file ∉ seen := by
  by_cases htaken : ∃ command, entry.Usable root settings command ∧ command.file ∉ seen
  · exact .inr htaken
  · refine .inl fun command husable => ?_
    by_contra hnew
    exact htaken ⟨command, husable, hnew⟩

/-- Commands are kept for the positions with a first use, in their order. -/
theorem exists_positions_keptCommands (root : String) (settings : CompilationSettings)
    (seen : List String) (entries : List RawCommand) :
    ∃ positions : List Nat, positions.Pairwise (· < ·) ∧
      List.Forall₂ (fun position command =>
          FirstUse root settings entries position command ∧ command.file ∉ seen)
        positions (keptCommands root settings seen entries) := by
  induction entries generalizing seen with
  | nil => exact ⟨[], .nil, .nil⟩
  | cons entry entries ih =>
      obtain hskipped | ⟨command, husable, hnew⟩ := skipped_or_taken root settings seen entry
      · -- the head has no position, and the others are one further back
        obtain ⟨positions, hascending, hkept⟩ := ih seen
        refine ⟨positions.map (· + 1), hascending.map _ (by simp), ?_⟩
        rw [keptCommands_of_skipped hskipped, List.forall₂_map_left_iff]
        refine hkept.imp fun position other hother => ⟨hother.1.cons ?_, hother.2⟩
        rintro earlier hearlier hfile
        exact hother.2 (hfile ▸ hskipped earlier hearlier)
      · obtain ⟨positions, hascending, hkept⟩ := ih (command.file :: seen)
        refine ⟨0 :: positions.map (· + 1), ?_, ?_⟩
        · exact .cons (by simp) (hascending.map _ (by simp))
        rw [keptCommands_of_taken husable hnew]
        refine .cons ⟨.head husable, hnew⟩ (List.forall₂_map_left_iff.mpr ?_)
        refine hkept.imp fun position other hother => ?_
        rw [List.mem_cons, not_or] at hother
        refine ⟨hother.1.cons ?_, hother.2.2⟩
        intro earlier hearlier
        obtain rfl := hearlier.unique husable
        exact Ne.symm hother.2.1

/-- Nothing is kept but commands of usable entries. -/
theorem exists_usable_of_mem_keptCommands {seen : List String}
    (hcommand : command ∈ keptCommands root settings seen entries) :
    ∃ entry ∈ entries, entry.Usable root settings command := by
  obtain ⟨positions, -, hkept⟩ := exists_positions_keptCommands root settings seen entries
  obtain ⟨index, hindex, rfl⟩ := List.getElem_of_mem hcommand
  have hposition : index < positions.length := hkept.length_eq ▸ hindex
  obtain ⟨⟨entry, hentry, husable⟩, -⟩ := (hkept.get hposition hindex).1
  exact ⟨entry, List.mem_of_getElem? hentry, husable⟩

/-- No file has two commands. -/
theorem nodup_files_keptCommands (root : String) (settings : CompilationSettings)
    (seen : List String) (entries : List RawCommand) :
    ((keptCommands root settings seen entries).map (·.file)).Nodup := by
  obtain ⟨positions, hascending, hkept⟩ :=
    exists_positions_keptCommands root settings seen entries
  rw [List.Nodup, List.pairwise_map, List.pairwise_iff_getElem]
  intro one next hone hnext hlt
  have hlength := hkept.length_eq
  have hpositions := List.pairwise_iff_getElem.mp hascending one next (by omega) (by omega) hlt
  exact (hkept.get _ hone).1.file_ne (hkept.get _ hnext).1 hpositions

/-- The file of a usable entry has been seen, or a command is kept for it. -/
theorem file_mem_keptCommands (seen : List String) (hentry : entry ∈ entries)
    (husable : entry.Usable root settings command) :
    command.file ∈ seen ∨
      command.file ∈ (keptCommands root settings seen entries).map (·.file) := by
  induction entries generalizing seen with
  | nil => cases hentry
  | cons head entries ih =>
      obtain hskipped | ⟨taken, htaken, hnew⟩ := skipped_or_taken root settings seen head
      · rw [keptCommands_of_skipped hskipped]
        obtain rfl | hlater := List.mem_cons.mp hentry
        · exact .inl (hskipped command husable)
        · exact ih seen hlater
      · rw [keptCommands_of_taken htaken hnew, List.map_cons, List.mem_cons]
        obtain rfl | hlater := List.mem_cons.mp hentry
        · obtain rfl := husable.unique htaken
          exact .inr (.inl rfl)
        · obtain hseen | hkept := ih (taken.file :: seen) hlater
          · obtain hfile | hseen := List.mem_cons.mp hseen
            · exact .inr (.inl hfile)
            · exact .inl hseen
          · exact .inr (.inr hkept)

/-- An entry can be left out if its file, should it be usable, is one that was seen or that a
usable entry before it has. -/
theorem keptCommands_without {seen : List String} {before after : List RawCommand}
    (hspare : ∀ command, entry.Usable root settings command → command.file ∈ seen ∨
      ∃ earlier ∈ before, ∃ other, earlier.Usable root settings other ∧
        other.file = command.file) :
    keptCommands root settings seen (before ++ entry :: after) =
      keptCommands root settings seen (before ++ after) := by
  induction before generalizing seen with
  | nil =>
      apply keptCommands_of_skipped
      intro command husable
      simpa using hspare command husable
  | cons head before ih =>
      rw [List.cons_append, List.cons_append]
      obtain hskipped | ⟨taken, htaken, hnew⟩ := skipped_or_taken root settings seen head
      · -- the head may be what the entry repeats, but then its file had been seen before
        rw [keptCommands_of_skipped hskipped, keptCommands_of_skipped hskipped]
        refine ih fun command husable => ?_
        obtain hseen | ⟨earlier, hearlier, other, hother, hfile⟩ := hspare command husable
        · exact .inl hseen
        obtain rfl | hlater := List.mem_cons.mp hearlier
        · exact .inl (hfile ▸ hskipped other hother)
        · exact .inr ⟨earlier, hlater, other, hother, hfile⟩
      · rw [keptCommands_of_taken htaken hnew, keptCommands_of_taken htaken hnew]
        refine congrArg _ (ih fun command husable => ?_)
        obtain hseen | ⟨earlier, hearlier, other, hother, hfile⟩ := hspare command husable
        · exact .inl (List.mem_cons_of_mem _ hseen)
        obtain rfl | hlater := List.mem_cons.mp hearlier
        · obtain rfl := hother.unique htaken
          exact .inl (hfile ▸ List.mem_cons_self)
        · exact .inr ⟨earlier, hlater, other, hother, hfile⟩

/-! ## Loading -/

theorem commandsOf_eq (root : String) (settings : CompilationSettings)
    (entries : List RawCommand) :
    commandsOf root settings entries =
      (keptCommands root settings [] entries).map (CompileCommand.withSystemDirs settings) :=
  rfl

/-- If the database can be read, its commands are loaded unless there are none. -/
theorem loadCommands_of_entries {files : FileTree} {text : String}
    (hread : files.readText (Path.join root settings.database) = .ok text)
    (hentries : entriesOf? text = some entries) :
    loadCommands files root settings =
      if commandsOf root settings entries = [] then
        .error (.noCommands (Path.join root settings.database))
      else .ok (commandsOf root settings entries) := by
  unfold loadCommands
  dsimp only
  rw [hread]
  dsimp only
  rw [hentries]
  dsimp only
  cases commandsOf root settings entries with
  | nil => rfl
  | cons command commands => rfl

theorem exists_entries_of_loadCommands {files : FileTree} {commands : List CompileCommand}
    (hload : loadCommands files root settings = .ok commands) :
    ∃ text entries, files.readText (Path.join root settings.database) = .ok text ∧
      entriesOf? text = some entries ∧ commands = commandsOf root settings entries := by
  unfold loadCommands at hload
  dsimp only at hload
  split at hload
  · cases hload
  next text hread =>
    split at hload
    · cases hload
    next entries hentries =>
      refine ⟨text, entries, hread, hentries, ?_⟩
      split at hload
      · cases hload
      · exact (Except.ok.inj hload).symm

theorem files_commandsOf (root : String) (settings : CompilationSettings)
    (entries : List RawCommand) :
    (commandsOf root settings entries).map (·.file) =
      (keptCommands root settings [] entries).map (·.file) := by
  rw [commandsOf_eq, List.map_map]
  rfl

theorem commandsOf_eq_nil_iff :
    commandsOf root settings entries = [] ↔
      ¬ ∃ entry ∈ entries, ∃ command, entry.Usable root settings command := by
  rw [commandsOf_eq, List.map_eq_nil_iff]
  constructor
  · rintro hnil ⟨entry, hentry, command, husable⟩
    simpa [hnil] using file_mem_keptCommands [] hentry husable
  · intro hnone
    rw [List.eq_nil_iff_forall_not_mem]
    intro command hcommand
    obtain ⟨entry, hentry, husable⟩ := exists_usable_of_mem_keptCommands hcommand
    exact hnone ⟨entry, hentry, command, husable⟩

/-- Loading succeeds exactly if there is something to load. -/
theorem exists_loadCommands_iff {files : FileTree} {text : String}
    (hread : files.readText (Path.join root settings.database) = .ok text)
    (hentries : entriesOf? text = some entries) :
    (∃ commands, loadCommands files root settings = .ok commands) ↔
      ∃ entry ∈ entries, ∃ command, entry.Usable root settings command := by
  rw [loadCommands_of_entries hread hentries]
  constructor
  · rintro ⟨commands, hcommands⟩
    by_contra hnone
    rw [if_pos (commandsOf_eq_nil_iff.mpr hnone)] at hcommands
    cases hcommands
  · intro husable
    exact ⟨_, if_neg fun hnil => commandsOf_eq_nil_iff.mp hnil husable⟩

/-- A database that can be read is loaded exactly if it has a usable entry.  Then there is one
command for each file with a usable entry: that of its first usable entry, in the order of the
database.  Entries that are not usable, or not the first, can be left out. -/
theorem loadCommands_keeps_first {files : FileTree} {text : String}
    (hread : files.readText (Path.join root settings.database) = .ok text)
    (hentries : entriesOf? text = some entries) :
    ((∃ commands, loadCommands files root settings = .ok commands) ↔
        ∃ entry ∈ entries, ∃ command, entry.Usable root settings command) ∧
      (∀ commands, loadCommands files root settings = .ok commands →
        (commands.map (·.file)).Nodup ∧
        (∃ positions : List Nat, positions.Pairwise (· < ·) ∧
          List.Forall₂ (fun position command =>
              ∃ own, FirstUse root settings entries position own ∧
                command = own.withSystemDirs settings)
            positions commands) ∧
        ∀ entry ∈ entries, ∀ command, entry.Usable root settings command →
          command.file ∈ commands.map (·.file)) ∧
      ∀ before entry after, entries = before ++ entry :: after →
        (∀ command, entry.Usable root settings command → ∃ earlier ∈ before, ∃ other,
          earlier.Usable root settings other ∧ other.file = command.file) →
        ∀ (others : FileTree) otherText,
          others.readText (Path.join root settings.database) = .ok otherText →
          entriesOf? otherText = some (before ++ after) →
          loadCommands others root settings = loadCommands files root settings := by
  refine ⟨exists_loadCommands_iff hread hentries, ?_, ?_⟩
  · intro commands hcommands
    obtain rfl : commandsOf root settings entries = commands := by
      rw [loadCommands_of_entries hread hentries] at hcommands
      split at hcommands
      · cases hcommands
      · exact Except.ok.inj hcommands
    rw [files_commandsOf]
    refine ⟨nodup_files_keptCommands root settings [] entries, ?_, ?_⟩
    · obtain ⟨positions, hascending, hkept⟩ :=
        exists_positions_keptCommands root settings [] entries
      refine ⟨positions, hascending, ?_⟩
      rw [commandsOf_eq, List.forall₂_map_right_iff]
      exact hkept.imp fun position own hown => ⟨own, hown.1, rfl⟩
    · intro entry hentry command husable
      simpa using file_mem_keptCommands [] hentry husable
  · rintro before entry after rfl hspare others otherText hother hrest
    have hkept : keptCommands root settings [] (before ++ entry :: after) =
        keptCommands root settings [] (before ++ after) :=
      keptCommands_without fun command husable => .inr (hspare command husable)
    rw [loadCommands_of_entries hread hentries, loadCommands_of_entries hother hrest,
      commandsOf_eq, commandsOf_eq, hkept]

end

/-! ## A database with spare entries -/

namespace DatabaseSample

/-- Only files that start with `/a` are wanted. -/
def settings : CompilationSettings where
  pathRange := ["a"]

/-- An entry with a command that can be used. -/
def first : RawCommand :=
  ⟨"/b", "../a.c", some ["cc", "-D1"], none⟩

/-- The same file, spelled from another directory. -/
def again : RawCommand :=
  ⟨"/", "a.c", some ["cc", "-D2"], none⟩

/-- Before the first usable entry there is one without a command, after it one out of range. -/
def before : List RawCommand :=
  [⟨"/", "a.c", none, none⟩, first, ⟨"/", "v.c", none, some "cc"⟩]

def textBefore : String :=
  "[[\"/\",\"a.c\"],[\"/b\",\"../a.c\",[\"cc\",\"-D1\"]],[\"/\",\"v.c\",null,\"cc\"]"

def textAgain : String :=
  ",[\"/\",\"a.c\",[\"cc\",\"-D2\"]]"

/-- A project at the top with a database. -/
def tree (text : String) : FileTree where
  entries := [(["compile_commands.json"], .file (Bytes.ofText text))]

theorem usable_first : first.Usable "/" settings ⟨"/a.c", ["-D1"]⟩ where
  normal := by decide +kernel
  inRange := .inr ⟨"a", by decide, by decide +kernel⟩

theorem file_of_again {command : CompileCommand} (husable : again.Usable "/" settings command) :
    command.file = "/a.c" := by
  have hnormal : again.normalize? = some ⟨"/a.c", ["-D2"]⟩ := by decide +kernel
  obtain rfl := Option.some.inj (hnormal.symm.trans husable.normal)
  rfl

end DatabaseSample

section
open DatabaseSample

theorem loadCommands_keeps_first_databaseSample :
    (∃ commands,
      loadCommands (tree (textBefore ++ textAgain ++ "]")) "/" settings = .ok commands ∧
      (commands.map (·.file)).Nodup ∧ "/a.c" ∈ commands.map (·.file)) ∧
    loadCommands (tree (textBefore ++ "]")) "/" settings =
      loadCommands (tree (textBefore ++ textAgain ++ "]")) "/" settings := by
  have hread : (tree (textBefore ++ textAgain ++ "]")).readText
      (Path.join "/" settings.database) = .ok (textBefore ++ textAgain ++ "]") := by decide +kernel
  have hentries : entriesOf? (textBefore ++ textAgain ++ "]") = some (before ++ again :: []) := by
    decide +kernel
  have hfirst : first ∈ before := by simp [before]
  obtain ⟨hloads, hloaded, hspare⟩ := loadCommands_keeps_first hread hentries
  constructor
  · have hmem : first ∈ before ++ again :: [] := List.mem_append_left _ hfirst
    obtain ⟨commands, hcommands⟩ := hloads.mpr ⟨first, hmem, _, usable_first⟩
    obtain ⟨hnodup, -, hfiles⟩ := hloaded commands hcommands
    exact ⟨commands, hcommands, hnodup, hfiles first hmem _ usable_first⟩
  · refine hspare before again [] rfl ?_ _ (textBefore ++ "]") (by decide +kernel)
      (by decide +kernel)
    intro command husable
    exact ⟨first, hfirst, _, usable_first, (file_of_again husable).symm⟩

end

end SourceIndex
