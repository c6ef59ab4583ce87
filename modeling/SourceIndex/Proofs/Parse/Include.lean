import Mathlib.Data.List.Basic
import SourceIndex.Compile.Database
import SourceIndex.Parse.Include

/-!
# The order of include directories

Flags name directories of three sorts (`DirSort`): for quoted inclusions, of the
project, and of the system.  `namedDirs` lists what a list of arguments names, with
the sort and the way it is written, and everything else is said about that list:

* `IncludeSearch.ofFlags_eq`: a search has the directory of the file and the quote
  directories in one list, and the project and system directories *as they come* in
  another.
* `IncludeSearch.firstDir_or_of_not_shadowed`: project directories first and system
  directories last would find the same file, unless it is `IncludeSearch.Shadowed`.

It is NOT so that a file of the project is found before one of the system
(`IncludeSearch.project_file_shadowed`).
-/

namespace SourceIndex

/-! ## Directories named by arguments -/

/-- The sorts of include directories. -/
inductive DirSort where
  | quote
  | project
  | system
  deriving DecidableEq, Repr

namespace DirSort

/-- The flag that names a directory of this sort. -/
def flag : DirSort → String
  | .quote => "-iquote"
  | .project => "-I"
  | .system => "-isystem"

/-- Whether angled inclusions are looked for in directories of this sort. -/
def isAngled : DirSort → Bool
  | .quote => false
  | .project | .system => true

/-- The sort that an argument names, and what is joined to the flag. -/
def read? (argument : String) : Option (DirSort × String) :=
  [quote, project, system].findSome? fun sort =>
    (Flag.strip? sort.flag argument).map fun value => (sort, value)

end DirSort

theorem Flag.strip?_eq_some_iff {start text rest : String} :
    Flag.strip? start text = some rest ↔ text = start ++ rest := by
  rw [Flag.strip?, Option.map_eq_some_iff]
  constructor
  · rintro ⟨chars, hchars, rfl⟩
    rw [List.isPrefixOf?_eq_some_iff_append_eq] at hchars
    rw [← String.toList_inj, ← hchars, String.toList_append, String.toList_ofList]
  · rintro rfl
    exact ⟨rest.toList, by simp [List.isPrefixOf?_eq_some_iff_append_eq], String.ofList_toList⟩

namespace DirSort

/-- No flag starts with another one, so an argument names at most one sort. -/
theorem read?_eq_some_iff {argument value : String} {sort : DirSort} :
    read? argument = some (sort, value) ↔ argument = sort.flag ++ value := by
  constructor
  · intro hread
    obtain ⟨found, -, hfound⟩ := List.exists_of_findSome?_eq_some hread
    obtain ⟨rest, hrest, hpair⟩ := Option.map_eq_some_iff.mp hfound
    cases hpair
    exact Flag.strip?_eq_some_iff.mp hrest
  · rintro rfl
    cases sort <;> simp [read?, flag, Flag.strip?, List.findSome?, List.isPrefixOf?]

theorem read?_eq_none {argument : String}
    (hother : ∀ (sort : DirSort) (value : String), argument ≠ sort.flag ++ value) :
    read? argument = none := by
  cases hread : read? argument with
  | none => rfl
  | some found => exact absurd (read?_eq_some_iff.mp hread) (hother found.1 found.2)

theorem read?_flag (sort : DirSort) : read? sort.flag = some (sort, "") :=
  read?_eq_some_iff.mpr String.append_empty.symm

theorem includeFlag?_eq (argument : String) :
    Flag.includeFlag? argument =
      (read? argument).map fun found => (found.1.flag, found.1.isAngled, found.2) := by
  cases hread : read? argument with
  | none =>
      have hnone := List.findSome?_eq_none_iff.mp hread
      simp only [List.mem_cons, List.not_mem_nil, or_false, forall_eq_or_imp, forall_eq,
        Option.map_eq_none_iff, flag] at hnone
      simp [Flag.includeFlag?, Flag.includeFlags, hnone]
  | some found =>
      obtain ⟨sort, value⟩ := found
      obtain rfl := read?_eq_some_iff.mp hread
      cases sort <;>
        simp [Flag.includeFlag?, Flag.includeFlags, isAngled, flag, Flag.strip?, List.findSome?,
          List.isPrefixOf?]

theorem exists_of_includeFlag? {argument flag joined : String} {angled : Bool}
    (hflag : Flag.includeFlag? argument = some (flag, angled, joined)) :
    ∃ sort : DirSort, flag = sort.flag ∧ angled = sort.isAngled ∧
      argument = sort.flag ++ joined := by
  rw [includeFlag?_eq, Option.map_eq_some_iff] at hflag
  obtain ⟨⟨sort, value⟩, hread, hfound⟩ := hflag
  cases hfound
  exact ⟨sort, rfl, rfl, read?_eq_some_iff.mp hread⟩

end DirSort

/-- An include directory that an argument names. -/
structure NamedDir where
  sort : DirSort
  path : String
  /-- Whether the path is joined to the flag, or the next argument. -/
  joined : Bool
  deriving DecidableEq, Repr

/-- The include directories that arguments name, in their order.  A flag with nothing
joined to it takes the next argument, and so does each of the arguments `valued`, whose
value is no directory. -/
def namedDirs (valued : List String) : List String → List NamedDir
  | [] => []
  | argument :: rest =>
    if argument ∈ valued then
      match rest with
      | [] => []
      | _ :: rest => namedDirs valued rest
    else
      match DirSort.read? argument with
      | none => namedDirs valued rest
      | some (sort, value) =>
        if value = "" then
          match rest with
          | [] => []
          | path :: rest => { sort, path, joined := false } :: namedDirs valued rest
        else { sort, path := value, joined := true } :: namedDirs valued rest

section
variable {valued : List String} {argument : String}

theorem namedDirs_of_valued (hvalued : argument ∈ valued) (value : String) (rest : List String) :
    namedDirs valued (argument :: value :: rest) = namedDirs valued rest := by
  rw [namedDirs, if_pos hvalued]

theorem namedDirs_of_read?_eq_none (hvalued : argument ∉ valued)
    (hread : DirSort.read? argument = none) (rest : List String) :
    namedDirs valued (argument :: rest) = namedDirs valued rest := by
  rw [namedDirs.eq_def]
  simp only [if_neg hvalued, hread]

theorem namedDirs_of_separate {sort : DirSort} (hvalued : sort.flag ∉ valued) (path : String)
    (rest : List String) :
    namedDirs valued (sort.flag :: path :: rest) =
      { sort, path, joined := false } :: namedDirs valued rest := by
  rw [namedDirs, if_neg hvalued, DirSort.read?_flag]
  rfl

theorem namedDirs_of_last {sort : DirSort} (hvalued : sort.flag ∉ valued) :
    namedDirs valued [sort.flag] = [] := by
  rw [namedDirs, if_neg hvalued, DirSort.read?_flag]
  rfl

theorem namedDirs_of_joined {sort : DirSort} {path : String}
    (hvalued : sort.flag ++ path ∉ valued) (hpath : path ≠ "") (rest : List String) :
    namedDirs valued ((sort.flag ++ path) :: rest) =
      { sort, path, joined := true } :: namedDirs valued rest := by
  rw [namedDirs.eq_def]
  simp only [if_neg hvalued, DirSort.read?_eq_some_iff.mpr rfl, if_neg hpath]

end

/-- The paths of the directories of some sorts, in their order. -/
def pathsOf (wanted : DirSort → Bool) (dirs : List NamedDir) : List String :=
  (dirs.filter fun dir => wanted dir.sort).map (·.path)

/-! ## Flags read into a search -/

namespace IncludeSearch

/-- A search with more directories at the end. -/
def addDirs (search : IncludeSearch) (dirs : List NamedDir) : IncludeSearch where
  quoteDirs := search.quoteDirs ++ pathsOf (· == .quote) dirs
  angledDirs := search.angledDirs ++ pathsOf DirSort.isAngled dirs

theorem addDirs_nil (search : IncludeSearch) : search.addDirs [] = search := by
  simp [addDirs, pathsOf]

theorem addDirs_cons (search : IncludeSearch) (dir : NamedDir) (dirs : List NamedDir) :
    search.addDirs (dir :: dirs) = (search.add dir.sort.isAngled dir.path).addDirs dirs := by
  obtain ⟨sort, path, joined⟩ := dir
  cases sort <;> simp [addDirs, add, DirSort.isAngled, pathsOf]

/-- Flags add the directories that they name. -/
theorem addFlags_eq (search : IncludeSearch) (flags : List String) :
    search.addFlags flags = search.addDirs (namedDirs [] flags) := by
  fun_induction addFlags search flags with
  | case1 search => rw [namedDirs, addDirs_nil]
  | case2 search argument rest hflag ih =>
      rw [DirSort.includeFlag?_eq, Option.map_eq_none_iff] at hflag
      rw [ih, namedDirs_of_read?_eq_none (by simp) hflag]
  | case3 search argument flag angled joined hflag hjoined =>
      obtain ⟨sort, -, -, rfl⟩ := DirSort.exists_of_includeFlag? hflag
      obtain rfl : joined = "" := by simpa using hjoined
      rw [String.append_empty, namedDirs_of_last (by simp), addDirs_nil]
  | case4 search argument flag angled joined hflag hjoined dir rest ih =>
      -- nothing is joined, so the argument is the flag itself and the next one is its directory
      obtain ⟨sort, -, rfl, rfl⟩ := DirSort.exists_of_includeFlag? hflag
      obtain rfl : joined = "" := by simpa using hjoined
      rw [ih, String.append_empty, namedDirs_of_separate (by simp), addDirs_cons]
  | case5 search argument rest flag angled joined hflag hjoined ih =>
      obtain ⟨sort, -, rfl, rfl⟩ := DirSort.exists_of_includeFlag? hflag
      rw [ih, namedDirs_of_joined (by simp) (by simpa using hjoined), addDirs_cons]

/-- The search of a file: its own directory, and what the flags name. -/
theorem ofFlags_eq (file : String) (flags : List String) :
    ofFlags file flags =
      { quoteDirs := (Path.parent? file).toList ++ pathsOf (· == .quote) (namedDirs [] flags)
        angledDirs := pathsOf DirSort.isAngled (namedDirs [] flags) } := by
  rw [ofFlags, addFlags_eq, addDirs, List.nil_append]

/-! ## The file that is found -/

/-- The first of the directories that has the file, joined with its spelling. -/
def firstFile (isFile : String → Bool) (spelling : String) (dirs : List String) : Option String :=
  (dirs.map fun dir => Path.join dir spelling).find? isFile

/-- Where quoted inclusions are looked for first. -/
def quoteOrder (file : String) (flags : List String) (angled : Bool) : List String :=
  if angled then [] else (Path.parent? file).toList ++ pathsOf (· == .quote) (namedDirs [] flags)

/-- Directories by their sorts: those for quoted inclusions, those of the project, those of
the system. -/
def sortedOrder (file : String) (flags : List String) (angled : Bool) : List String :=
  quoteOrder file flags angled ++ pathsOf (· == .project) (namedDirs [] flags) ++
    pathsOf (· == .system) (namedDirs [] flags)

/-- Directories as a search goes through them: those of the project and of the system
stand in one list, in the order of the flags. -/
def flagOrder (file : String) (flags : List String) (angled : Bool) : List String :=
  quoteOrder file flags angled ++ pathsOf DirSort.isAngled (namedDirs [] flags)

theorem resolve_ofFlags (file : String) (flags : List String) (isFile : String → Bool)
    (spelling : String) (angled : Bool) :
    (ofFlags file flags).resolve isFile spelling angled =
      firstFile isFile spelling (flagOrder file flags angled) := by
  rw [resolve, dirs, ofFlags_eq]
  rfl

/-- Both orders are of the same directories. -/
theorem mem_flagOrder_iff {file : String} {flags : List String} {angled : Bool} {dir : String} :
    dir ∈ flagOrder file flags angled ↔ dir ∈ sortedOrder file flags angled := by
  have hsorts : dir ∈ pathsOf DirSort.isAngled (namedDirs [] flags) ↔
      dir ∈ pathsOf (· == .project) (namedDirs [] flags) ∨
        dir ∈ pathsOf (· == .system) (namedDirs [] flags) := by
    simp only [pathsOf, List.mem_map, List.mem_filter, ← exists_or, ← or_and_right, ← and_or_left]
    refine exists_congr fun named => ?_
    cases named.sort <;> simp [DirSort.isAngled]
  rw [flagOrder, sortedOrder, List.append_assoc, List.mem_append, List.mem_append, List.mem_append,
    hsorts]

theorem firstFile_eq_none_iff {isFile : String → Bool} {spelling : String} {dirs : List String} :
    firstFile isFile spelling dirs = none ↔
      ∀ dir ∈ dirs, isFile (Path.join dir spelling) = false := by
  simp [firstFile]

theorem firstFile_append (isFile : String → Bool) (spelling : String) (front back : List String) :
    firstFile isFile spelling (front ++ back) =
      (firstFile isFile spelling front).or (firstFile isFile spelling back) := by
  simp [firstFile]

/-! ## Shadowed files -/

/-- The first directory of some sorts that has the file. -/
def firstDir (isFile : String → Bool) (spelling : String) (wanted : DirSort → Bool)
    (dirs : List NamedDir) : Option NamedDir :=
  dirs.find? fun dir => wanted dir.sort && isFile (Path.join dir.path spelling)

theorem firstFile_pathsOf (isFile : String → Bool) (spelling : String) (wanted : DirSort → Bool)
    (dirs : List NamedDir) :
    firstFile isFile spelling (pathsOf wanted dirs) =
      (firstDir isFile spelling wanted dirs).map fun dir => Path.join dir.path spelling := by
  simp [firstFile, pathsOf, firstDir, List.find?_map, List.find?_filter, Function.comp_def]

section
variable {isFile : String → Bool} {spelling : String} {wanted : DirSort → Bool}
  {dirs : List NamedDir}

/-- The first directory of a sort among those that are wanted is the first of its sort. -/
theorem firstDir_of_sort {dir : NamedDir}
    (hfirst : firstDir isFile spelling wanted dirs = some dir) :
    firstDir isFile spelling (· == dir.sort) dirs = some dir := by
  obtain ⟨hdir, before, after, hdirs, hbefore⟩ := List.find?_eq_some_iff_append.mp hfirst
  rw [Bool.and_eq_true] at hdir
  refine List.find?_eq_some_iff_append.mpr ⟨by simp [hdir.2], before, after, hdirs, ?_⟩
  intro other hother
  have hmiss := hbefore other hother
  by_cases hsort : other.sort = dir.sort
  · simpa [hsort, hdir.1] using hmiss
  · simp [hsort]

theorem firstDir_eq_none_of_imp {fewer : DirSort → Bool}
    (hfewer : ∀ sort, fewer sort = true → wanted sort = true)
    (hnone : firstDir isFile spelling wanted dirs = none) :
    firstDir isFile spelling fewer dirs = none := by
  rw [firstDir, List.find?_eq_none] at hnone ⊢
  intro dir hdir hfound
  rw [Bool.and_eq_true] at hfound
  exact hnone dir hdir (by simp [hfewer _ hfound.1, hfound.2])

/-- A file is found in a directory of the system although a directory of the project has
it too: the system's was named first. -/
def Shadowed (isFile : String → Bool) (spelling : String) (dirs : List NamedDir) : Prop :=
  ∃ first, firstDir isFile spelling DirSort.isAngled dirs = some first ∧ first.sort = .system ∧
    (firstDir isFile spelling (· == .project) dirs).isSome

/-- Directories by their sorts, or in the order of the flags: only a file that is shadowed
makes a difference. -/
theorem firstDir_or_of_not_shadowed (hclear : ¬ Shadowed isFile spelling dirs) :
    (firstDir isFile spelling (· == .project) dirs).or
        (firstDir isFile spelling (· == .system) dirs) =
      firstDir isFile spelling DirSort.isAngled dirs := by
  cases hfirst : firstDir isFile spelling DirSort.isAngled dirs with
  | none =>
      rw [firstDir_eq_none_of_imp (by simp [DirSort.isAngled]) hfirst,
        firstDir_eq_none_of_imp (by simp [DirSort.isAngled]) hfirst, Option.or_none]
  | some first =>
      have hown := firstDir_of_sort hfirst
      have hangled := List.find?_some hfirst
      rw [Bool.and_eq_true] at hangled
      -- the first directory of both sorts is the first of its own, and decides which one it is
      cases hsort : first.sort with
      | quote => simp [hsort, DirSort.isAngled] at hangled
      | project =>
          rw [hsort] at hown
          rw [hown, Option.some_or]
      | system =>
          have hproject : firstDir isFile spelling (· == .project) dirs = none := by
            by_contra hsome
            exact hclear ⟨first, hfirst, hsort, Option.isSome_iff_ne_none.mpr hsome⟩
          rw [hproject, Option.none_or, ← hsort, hown]

end

/-- An inclusion means the first file in the order of the flags.  This is the first file in
the order of the sorts, unless that file is shadowed: then, if no directory for quoted
inclusions has it, it is a file of the system.  Nothing is found only if no directory has the
file. -/
theorem resolve_ofFlags_by_order (file : String) (flags : List String) (isFile : String → Bool)
    (spelling : String) (angled : Bool) :
    (ofFlags file flags).resolve isFile spelling angled =
        firstFile isFile spelling (flagOrder file flags angled) ∧
      (¬ Shadowed isFile spelling (namedDirs [] flags) →
        (ofFlags file flags).resolve isFile spelling angled =
          firstFile isFile spelling (sortedOrder file flags angled)) ∧
      (Shadowed isFile spelling (namedDirs [] flags) →
        firstFile isFile spelling (quoteOrder file flags angled) = none →
        ∃ dir ∈ namedDirs [] flags, dir.sort = .system ∧
          (ofFlags file flags).resolve isFile spelling angled =
            some (Path.join dir.path spelling)) ∧
      ((ofFlags file flags).resolve isFile spelling angled = none ↔
        ∀ dir ∈ sortedOrder file flags angled, isFile (Path.join dir spelling) = false) := by
  rw [resolve_ofFlags]
  refine ⟨rfl, fun hclear => ?_, ?_, ?_⟩
  · rw [flagOrder, sortedOrder, List.append_assoc, firstFile_append, firstFile_append,
      firstFile_append]
    simp only [firstFile_pathsOf, ← firstDir_or_of_not_shadowed hclear]
    rw [Option.map_or]
  · rintro ⟨first, hfirst, hsystem, -⟩ hquote
    refine ⟨first, List.mem_of_find?_eq_some hfirst, hsystem, ?_⟩
    rw [flagOrder, firstFile_append, hquote, Option.none_or, firstFile_pathsOf, hfirst]
    rfl
  · rw [firstFile_eq_none_iff]
    simp only [mem_flagOrder_iff]

/-- A project with `-Iinc` and a system directory in the settings, which both have `h.h`. -/
def shadowingFlags : List String :=
  (CompileCommand.withSystemDirs { systemCDirs := ["sys"] } ⟨"a.c", ["-Iinc"]⟩).arguments

def hasHeader (path : String) : Bool :=
  path == "inc/h.h" || path == "sys/h.h"

/-- A quoted inclusion of that header means the file of the system; with the flags the other
way round nothing is shadowed. -/
theorem resolve_ofFlags_by_order_headerSample :
    (∃ dir ∈ namedDirs [] shadowingFlags, dir.sort = .system ∧
      (ofFlags "a.c" shadowingFlags).resolve hasHeader "h.h" false =
        some (Path.join dir.path "h.h")) ∧
    (ofFlags "a.c" ["-Iinc", "-isystem", "sys"]).resolve hasHeader "h.h" false =
      firstFile hasHeader "h.h" (sortedOrder "a.c" ["-Iinc", "-isystem", "sys"] false) := by
  have hshadowed : Shadowed hasHeader "h.h" (namedDirs [] shadowingFlags) :=
    ⟨⟨.system, "sys", false⟩, by decide, rfl, by decide⟩
  have hclear : ¬ Shadowed hasHeader "h.h" (namedDirs [] ["-Iinc", "-isystem", "sys"]) := by
    rintro ⟨first, hfirst, hsystem, -⟩
    obtain rfl : ⟨.project, "inc", true⟩ = first := Option.some.inj (hfirst ▸ by decide)
    cases hsystem
  have hshadow := (resolve_ofFlags_by_order "a.c" shadowingFlags hasHeader "h.h" false).2.2.1
  have hsorted :=
    (resolve_ofFlags_by_order "a.c" ["-Iinc", "-isystem", "sys"] hasHeader "h.h" false).2.1
  exact ⟨hshadow hshadowed (by decide), hsorted hclear⟩

/-- The header of the project is not found, although the order of the sorts has it first. -/
theorem project_file_shadowed :
    firstFile hasHeader "h.h" (sortedOrder "a.c" shadowingFlags true) = some "inc/h.h" ∧
      (ofFlags "a.c" shadowingFlags).resolve hasHeader "h.h" true = some "sys/h.h" := by
  decide

end IncludeSearch
end SourceIndex
