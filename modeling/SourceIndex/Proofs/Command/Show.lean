import SourceIndex.Command.Show
import SourceIndex.Proofs.Compile.Database
import SourceIndex.Proofs.Path

/-!
# Indexed files can be shown

A file is stored under the path that its compile command has, and shown under the paths
that `candidatePaths` makes of what was asked for.  Both make paths absolute, the one from
the directory of a database entry, the other from the working directory and the project root.

* `candidatePaths_absolutize`: an absolute path that was made so once stands for itself only,
  wherever it is asked for.
* `isAbsolute_of_mem_candidatePaths`: from absolute directories, nothing but absolute paths is
  looked up.

So an indexed file is found by its path exactly if that path is absolute, and this it is
exactly if the entry has an absolute directory or an absolute file.  Nothing asks for that: a
file of the directory `.` is indexed, and then cannot be shown (`relative_file_not_shown`).
-/

namespace SourceIndex

/-! ## Candidates -/

theorem candidatePaths_absolutize {base path : String}
    (habsolute : Path.isAbsolute (Path.absolutize base path) = true) (workPath root : String) :
    candidatePaths workPath root (Path.absolutize base path) = [Path.absolutize base path] := by
  unfold candidatePaths
  rw [Path.absolutize_absolutize habsolute, Path.absolutize_absolutize habsolute]
  exact if_pos (beq_self_eq_true _)

theorem isAbsolute_of_mem_candidatePaths {workPath root file candidate : String}
    (hwork : Path.isAbsolute workPath = true) (hroot : Path.isAbsolute root = true)
    (hcandidate : candidate ∈ candidatePaths workPath root file) :
    Path.isAbsolute candidate = true := by
  have heither : candidate = Path.absolutize workPath file ∨
      candidate = Path.absolutize root file := by
    unfold candidatePaths at hcandidate
    dsimp only at hcandidate
    split at hcandidate
    · exact .inl (by simpa using hcandidate)
    · simpa using hcandidate
  obtain rfl | rfl := heither
  · rw [Path.isAbsolute_absolutize, hwork, Bool.true_or]
  · rw [Path.isAbsolute_absolutize, hroot, Bool.true_or]

theorem Store.findFirst_singleton (store : Store) (path : String) :
    store.findFirst [path] = store.findByPath path := by
  unfold findFirst
  cases store.findByPath path with
  | error fault => rfl
  | ok found => cases found <;> rfl

/-! ## Loaded commands -/

/-- The file of a loaded command is that of an entry of the database, made absolute. -/
theorem exists_entry_of_mem_loadCommands {files : FileTree} {root : String}
    {settings : CompilationSettings} {commands : List CompileCommand}
    (hload : loadCommands files root settings = .ok commands) {command : CompileCommand}
    (hcommand : command ∈ commands) :
    ∃ text entries entry, files.readText (Path.join root settings.database) = .ok text ∧
      entriesOf? text = some entries ∧ entry ∈ entries ∧
      command.file = Path.absolutize entry.directory entry.file := by
  obtain ⟨text, entries, hread, hentries, rfl⟩ := exists_entries_of_loadCommands hload
  rw [commandsOf_eq] at hcommand
  obtain ⟨own, hown, rfl⟩ := List.mem_map.mp hcommand
  obtain ⟨entry, hentry, husable⟩ := exists_usable_of_mem_keptCommands hown
  refine ⟨text, entries, entry, hread, hentries, hentry, ?_⟩
  obtain ⟨words, -, rfl⟩ := Option.map_eq_some_iff.mp husable.normal
  rfl

/-- The path of a loaded command is absolute exactly if its entry has an absolute directory or
file.  If so, a look-up by that path asks for that path and for no other, from any working
directory.  If not, it does not ask for that path. -/
theorem loadCommands_file_candidates {files : FileTree} {root : String}
    {settings : CompilationSettings} {commands : List CompileCommand}
    (hload : loadCommands files root settings = .ok commands) {command : CompileCommand}
    (hcommand : command ∈ commands) (workPath : String) :
    (∃ text entries entry, files.readText (Path.join root settings.database) = .ok text ∧
      entriesOf? text = some entries ∧ entry ∈ entries ∧
      command.file = Path.absolutize entry.directory entry.file ∧
      (Path.isAbsolute command.file = true ↔
        Path.isAbsolute entry.directory = true ∨ Path.isAbsolute entry.file = true)) ∧
    (Path.isAbsolute command.file = true →
      candidatePaths workPath root command.file = [command.file] ∧
      ∀ store : Store, store.findFirst (candidatePaths workPath root command.file) =
        store.findByPath command.file) ∧
    (Path.isAbsolute workPath = true → Path.isAbsolute root = true →
      (command.file ∈ candidatePaths workPath root command.file ↔
        Path.isAbsolute command.file = true)) := by
  obtain ⟨text, entries, entry, hread, hentries, hentry, hfile⟩ :=
    exists_entry_of_mem_loadCommands hload hcommand
  have hself (habsolute : Path.isAbsolute command.file = true) :
      candidatePaths workPath root command.file = [command.file] := by
    rw [hfile] at habsolute ⊢
    exact candidatePaths_absolutize habsolute workPath root
  refine ⟨⟨text, entries, entry, hread, hentries, hentry, hfile, ?_⟩, fun habsolute => ?_,
    fun hwork hroot => ?_⟩
  · rw [hfile, Path.isAbsolute_absolutize, Bool.or_eq_true]
  · exact ⟨hself habsolute, fun store => by rw [hself habsolute, store.findFirst_singleton]⟩
  · exact ⟨isAbsolute_of_mem_candidatePaths hwork hroot,
      fun habsolute => by simp [hself habsolute]⟩

/-- A file that is not below the directory of its entry, asked for from somewhere else. -/
theorem loadCommands_file_candidates_upSample :
    candidatePaths "/w" "/" "/a.c" = ["/a.c"] ∧
      ∀ store : Store, store.findFirst (candidatePaths "/w" "/" "/a.c") =
        store.findByPath "/a.c" := by
  have hload : loadCommands (DatabaseSample.tree "[[\"/b\",\"../a.c\",[\"cc\"]]]") "/" {} =
      .ok [⟨"/a.c", []⟩] := by decide +kernel
  exact (loadCommands_file_candidates hload (List.mem_singleton_self _) "/w").2.1 (by decide)

/-- A file of the directory `.` is loaded with a relative path, which is not looked up. -/
theorem relative_file_not_shown :
    loadCommands (DatabaseSample.tree "[[\".\",\"a.c\",[\"cc\"]]]") "/" {} = .ok [⟨"a.c", []⟩] ∧
      Path.isAbsolute "a.c" = false ∧ "a.c" ∉ candidatePaths "/" "/" "a.c" := by
  decide +kernel

end SourceIndex
