import SourceIndex.Proofs.Parse.Include
import SourceIndex.Proofs.Path

/-!
# Include directories of a command

The arguments of a compile command are read twice: once to bring them into normal form,
and once to look for included files.  Both readings take the next argument after a flag
that stands alone, so they have to agree on every argument.

* `RawCommand.namedDirs_normalizeArguments`: the normal form names the directories that
  the command names, in the same order, each made absolute.
* `CompileCommand.namedDirs_withSystemDirs`: the system directories of the settings stand
  in front of them.

The readings do NOT agree if a directory that is joined to its flag has the empty path for
a normal form, as `-I.` has it in the directory `.`: nothing is joined to the flag any more,
and the next argument is taken for a directory (`RawCommand.next_argument_swallowed`).  This
needs a relative directory (`RawCommand.keepsJoined_of_isAbsolute`).
-/

namespace SourceIndex

/-! ## Arguments that name no directory -/

namespace DirSort

/-- No include flag starts with `-o`. -/
theorem read?_of_startsWith_output {argument : String}
    (houtput : Flag.startsWith "-o" argument = true) : read? argument = none := by
  apply read?_eq_none
  rintro sort value rfl
  cases sort <;> simp [Flag.startsWith, flag] at houtput

/-- Every include flag starts with a dash. -/
theorem read?_of_not_startsWith_dash {argument : String}
    (hdash : Flag.startsWith "-" argument = false) : read? argument = none := by
  apply read?_eq_none
  rintro sort value rfl
  cases sort <;> simp [Flag.startsWith, flag] at hdash

theorem read?_of_no_flag {argument : String}
    (hnone : ∀ sort : DirSort, ¬ sort.flag.toList <+: argument.toList) :
    read? argument = none := by
  apply read?_eq_none
  rintro sort value rfl
  exact hnone sort ⟨value.toList, String.toList_append.symm⟩

end DirSort

/-! ## Arguments in normal form -/

namespace RawCommand

/-- No directory that is joined to its flag vanishes when it is made absolute. -/
def KeepsJoined (directory : String) (dirs : List NamedDir) : Prop :=
  ∀ dir ∈ dirs, dir.joined = true → Path.absolutize directory dir.path ≠ ""

theorem KeepsJoined.of_cons {directory : String} {dir : NamedDir} {dirs : List NamedDir}
    (hkept : KeepsJoined directory (dir :: dirs)) : KeepsJoined directory dirs :=
  fun other hother => hkept other (List.mem_cons_of_mem dir hother)

/-- From an absolute directory no path is empty. -/
theorem keepsJoined_of_isAbsolute {directory : String}
    (hdirectory : Path.isAbsolute directory = true) (dirs : List NamedDir) :
    KeepsJoined directory dirs := by
  intro dir _ _ hempty
  have habsolute := Path.isAbsolute_absolutize directory dir.path
  rw [hempty, hdirectory] at habsolute
  cases habsolute

/-- The directories of a command, each made absolute. -/
def absoluteDirs (directory : String) (dirs : List NamedDir) : List NamedDir :=
  dirs.map fun dir => { dir with path := Path.absolutize directory dir.path }

theorem pathsOf_absoluteDirs (directory : String) (wanted : DirSort → Bool)
    (dirs : List NamedDir) :
    pathsOf wanted (absoluteDirs directory dirs) =
      (pathsOf wanted dirs).map (Path.absolutize directory) := by
  simp [pathsOf, absoluteDirs, List.filter_map, Function.comp_def]

theorem isFlag_iff {argument : String} :
    (argument == "-I" || argument == "-iquote" || argument == "-isystem") = true ↔
      ∃ sort : DirSort, argument = sort.flag := by
  constructor
  · simp only [Bool.or_eq_true, beq_iff_eq]
    rintro ((rfl | rfl) | rfl)
    · exact ⟨.project, rfl⟩
    · exact ⟨.quote, rfl⟩
    · exact ⟨.system, rfl⟩
  · rintro ⟨sort, rfl⟩
    cases sort <;> decide

theorem absolutizeJoined_of_read?_eq_none {argument : String}
    (hread : DirSort.read? argument = none) (directory : String) :
    absolutizeJoined directory argument = argument := by
  rw [absolutizeJoined, DirSort.includeFlag?_eq, hread]
  rfl

theorem absolutizeJoined_flag {value : String} (hvalue : value ≠ "") (directory : String)
    (sort : DirSort) :
    absolutizeJoined directory (sort.flag ++ value) =
      sort.flag ++ Path.absolutize directory value := by
  rw [absolutizeJoined, DirSort.includeFlag?_eq, DirSort.read?_eq_some_iff.mpr rfl]
  simp [hvalue]

/-- The normal form of the arguments names the directories of the command, made absolute. -/
theorem namedDirs_normalizeArguments {directory file : String} {arguments : List String}
    (hkept : KeepsJoined directory (namedDirs ["-o"] arguments)) :
    namedDirs [] (normalizeArguments directory file arguments) =
      absoluteDirs directory (namedDirs ["-o"] arguments) := by
  -- one case for each test of an argument; both sides read the same number of arguments in each
  fun_induction normalizeArguments directory file arguments with
  | case1 => rfl
  | case2 argument rest hcompile ih =>
      obtain rfl : argument = "-c" := by simpa using hcompile
      rw [namedDirs_of_read?_eq_none (by decide) (by decide)] at hkept ⊢
      exact ih hkept
  | case3 argument _ houtput =>
      obtain rfl : argument = "-o" := by simpa using houtput
      rfl
  | case4 argument _ houtput value rest ih =>
      obtain rfl : argument = "-o" := by simpa using houtput
      rw [namedDirs_of_valued (by decide)] at hkept ⊢
      exact ih hkept
  | case5 argument _ houtput hflag =>
      obtain ⟨sort, rfl⟩ := isFlag_iff.mp hflag
      rw [namedDirs_of_last (by simp), namedDirs_of_last (by simpa using houtput)]
      rfl
  | case6 argument _ houtput hflag path rest ih =>
      obtain ⟨sort, rfl⟩ := isFlag_iff.mp hflag
      have hvalued : sort.flag ∉ ["-o"] := by simpa using houtput
      rw [namedDirs_of_separate hvalued] at hkept ⊢
      rw [namedDirs_of_separate (by simp), ih hkept.of_cons]
      rfl
  | case7 argument rest _ houtput _ hjoined ih =>
      simp only [isJoinedOutput, Bool.and_eq_true] at hjoined
      rw [namedDirs_of_read?_eq_none (by simpa using houtput)
        (DirSort.read?_of_startsWith_output hjoined.1.2)] at hkept ⊢
      exact ih hkept
  | case8 argument rest _ houtput _ _ hfile ih =>
      simp only [Bool.and_eq_true, Bool.not_eq_true'] at hfile
      rw [namedDirs_of_read?_eq_none (by simpa using houtput)
        (DirSort.read?_of_not_startsWith_dash hfile.1)] at hkept ⊢
      exact ih hkept
  | case9 argument rest _ houtput hflag _ _ ih =>
      have hvalued : argument ∉ ["-o"] := by simpa using houtput
      cases hread : DirSort.read? argument with
      | none =>
          rw [namedDirs_of_read?_eq_none hvalued hread] at hkept ⊢
          rw [absolutizeJoined_of_read?_eq_none hread, namedDirs_of_read?_eq_none (by simp) hread]
          exact ih hkept
      | some found =>
          obtain ⟨sort, value⟩ := found
          obtain rfl := DirSort.read?_eq_some_iff.mp hread
          -- a flag that stands alone was found before
          have hvalue : value ≠ "" := by
            rintro rfl
            exact hflag (isFlag_iff.mpr ⟨sort, by simp⟩)
          rw [namedDirs_of_joined hvalued hvalue] at hkept ⊢
          have habsolute : Path.absolutize directory value ≠ "" :=
            hkept { sort, path := value, joined := true } List.mem_cons_self rfl
          rw [absolutizeJoined_flag hvalue, namedDirs_of_joined (by simp) habsolute,
            ih hkept.of_cons]
          rfl

end RawCommand

/-! ## System directories in front -/

/-- Each directory behind a flag of its own is named, in the order given. -/
theorem namedDirs_flagEach (sort : DirSort) (dirs rest : List String) :
    namedDirs [] (flagEach sort.flag dirs ++ rest) =
      dirs.map (fun path => { sort, path, joined := false }) ++ namedDirs [] rest := by
  induction dirs with
  | nil => rfl
  | cons dir dirs ih =>
      change namedDirs [] (sort.flag :: dir :: (flagEach sort.flag dirs ++ rest)) = _
      rw [namedDirs_of_separate (by simp), ih]
      rfl

/-- A framework directory is read as an argument of its own, so it must not look like a flag. -/
theorem namedDirs_frameworks {dirs : List String}
    (hdirs : ∀ dir ∈ dirs, DirSort.read? dir = none) (rest : List String) :
    namedDirs [] (flagEach "-F" dirs ++ rest) = namedDirs [] rest := by
  induction dirs with
  | nil => rfl
  | cons dir dirs ih =>
      obtain ⟨hdir, hrest⟩ := List.forall_mem_cons.mp hdirs
      change namedDirs [] ("-F" :: dir :: (flagEach "-F" dirs ++ rest)) = _
      rw [namedDirs_of_read?_eq_none (by simp) (by decide),
        namedDirs_of_read?_eq_none (by simp) hdir, ih hrest]

namespace CompileCommand

/-- The system directories that the settings give a command. -/
def systemDirs (settings : CompilationSettings) (command : CompileCommand) : List String :=
  settings.systemCDirs ++
    if Path.endsWithText ".c" command.file then [] else settings.systemCxxDirs

theorem namedDirs_withSystemDirs {settings : CompilationSettings}
    (hframeworks : ∀ dir ∈ settings.frameworkDirs, DirSort.read? dir = none)
    (command : CompileCommand) :
    namedDirs [] (command.withSystemDirs settings).arguments =
      (command.systemDirs settings).map (fun path => { sort := .system, path, joined := false }) ++
        namedDirs [] command.arguments := by
  have hsplit : (command.withSystemDirs settings).arguments =
      flagEach DirSort.system.flag (command.systemDirs settings) ++
        (flagEach "-F" settings.frameworkDirs ++ command.arguments) := by
    unfold withSystemDirs systemDirs
    split <;> simp [flagEach, DirSort.flag]
  rw [hsplit, namedDirs_flagEach, namedDirs_frameworks hframeworks]

end CompileCommand

/-! ## The search of a loaded command -/

theorem pathsOf_append (wanted : DirSort → Bool) (front back : List NamedDir) :
    pathsOf wanted (front ++ back) = pathsOf wanted front ++ pathsOf wanted back := by
  simp [pathsOf]

theorem pathsOf_same_sort (wanted : DirSort → Bool) (sort : DirSort) (paths : List String) :
    pathsOf wanted (paths.map fun path => { sort, path, joined := false }) =
      if wanted sort then paths else [] := by
  cases hwanted : wanted sort <;> simp [pathsOf, List.filter_map, Function.comp_def, hwanted]

namespace RawCommand

/-- An entry that says how its file is compiled has a normal form, and the search for included
files goes through the directories that its words name, made absolute.  System directories of
the settings stand in front of them, and nothing else does. -/
theorem normalize?_includeSearch {entry : RawCommand} {words : List String}
    (hwords : entry.words? = some words)
    (hkept : KeepsJoined entry.directory (namedDirs ["-o"] (words.drop 1))) :
    ∃ command, entry.normalize? = some command ∧
      IncludeSearch.ofFlags command.file command.arguments =
        { quoteDirs := (Path.parent? command.file).toList ++
            (pathsOf (· == .quote) (namedDirs ["-o"] (words.drop 1))).map
              (Path.absolutize entry.directory)
          angledDirs := (pathsOf DirSort.isAngled (namedDirs ["-o"] (words.drop 1))).map
            (Path.absolutize entry.directory) } ∧
      ∀ settings : CompilationSettings,
        (∀ dir ∈ settings.frameworkDirs, ∀ sort : DirSort, ¬ sort.flag.toList <+: dir.toList) →
        IncludeSearch.ofFlags (command.withSystemDirs settings).file
            (command.withSystemDirs settings).arguments =
          { quoteDirs := (IncludeSearch.ofFlags command.file command.arguments).quoteDirs
            angledDirs := command.systemDirs settings ++
              (IncludeSearch.ofFlags command.file command.arguments).angledDirs } := by
  refine ⟨_, by rw [normalize?, hwords]; rfl, ?_, ?_⟩
  · rw [IncludeSearch.ofFlags_eq, namedDirs_normalizeArguments hkept, pathsOf_absoluteDirs,
      pathsOf_absoluteDirs]
  · intro settings hframeworks
    have hread : ∀ dir ∈ settings.frameworkDirs, DirSort.read? dir = none := fun dir hdir =>
      DirSort.read?_of_no_flag (hframeworks dir hdir)
    rw [IncludeSearch.ofFlags_eq, IncludeSearch.ofFlags_eq,
      CompileCommand.namedDirs_withSystemDirs hread]
    simp only [pathsOf_append, pathsOf_same_sort, DirSort.isAngled, if_true]
    rfl

/-- A command whose words are hard to read: values that look like flags, an output between two
directories, a flag at the end. -/
def wordsSample : RawCommand where
  directory := "/p/build"
  file := "../src/a.cc"
  arguments := some ["c++", "-I", "-o", "-o", "-Ilost", "-iquote", "../q", "-isystemsys/./x",
    "-oa.o", "-c", "../src/a.cc", "-I../inc", "-I"]

/-- Settings with one directory of each sort. -/
def systemSample : CompilationSettings where
  systemCDirs := ["/usr/include"]
  systemCxxDirs := ["/usr/include/c++"]
  frameworkDirs := ["/Library"]

theorem normalize?_includeSearch_wordsSample :
    ∃ command, wordsSample.normalize? = some command ∧
      IncludeSearch.ofFlags (command.withSystemDirs systemSample).file
          (command.withSystemDirs systemSample).arguments =
        { quoteDirs := ["/p/src", "/p/q"]
          angledDirs := ["/usr/include", "/usr/include/c++", "/p/build/-o", "/p/build/sys/x",
            "/p/inc"] } := by
  have hdirectory : Path.isAbsolute wordsSample.directory = true := by decide
  have hkept := keepsJoined_of_isAbsolute hdirectory
    (namedDirs ["-o"] ((wordsSample.arguments.getD []).drop 1))
  obtain ⟨command, hcommand, hsearch, hsystem⟩ := normalize?_includeSearch rfl hkept
  refine ⟨command, hcommand, ?_⟩
  have hframeworks : ∀ dir ∈ systemSample.frameworkDirs, ∀ sort : DirSort,
      ¬ sort.flag.toList <+: dir.toList := by
    intro dir hdir sort
    obtain rfl : dir = "/Library" := by simpa [systemSample] using hdir
    cases sort <;> decide
  rw [hsystem systemSample hframeworks, hsearch]
  obtain rfl := Option.some.inj hcommand
  decide +kernel

/-- A command in the directory `.` with `-I.` in front of another directory. -/
def swallowingSample : RawCommand where
  directory := "."
  file := "a.c"
  arguments := some ["cc", "-I.", "-Ifoo", "a.c"]

/-- The flag of `-I.` takes the argument `-Ifoo` for a directory, so that neither of the two
directories that the words name is searched. -/
theorem next_argument_swallowed :
    (pathsOf DirSort.isAngled (namedDirs ["-o"] ["-I.", "-Ifoo", "a.c"])).map
        (Path.absolutize swallowingSample.directory) = ["", "foo"] ∧
      swallowingSample.normalize? = some ⟨"a.c", ["-I", "-Ifoo"]⟩ ∧
      (IncludeSearch.ofFlags "a.c" ["-I", "-Ifoo"]).angledDirs = ["-Ifoo"] := by
  decide +kernel

end RawCommand
end SourceIndex
