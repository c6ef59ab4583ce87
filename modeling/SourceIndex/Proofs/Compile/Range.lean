import SourceIndex.Proofs.Compile.Database
import SourceIndex.Proofs.FileTree
import SourceIndex.Proofs.Path

/-!
# Files in range

A project may name directories and have only the files in them loaded.  Loading compares
texts: a file is kept if its path starts with the text of one of the directories.

* `Path.Within` says of a path that it lies in a directory: it has the steps of the directory
  first, and does not leave it again.
* `Path.LooksWithin` says of a path that it does not (`Path.LooksWithin.not_within`), although
  its text starts with the text of the directory.  Mostly this is because the text ends inside of
  a name: `/p/src2` starts with `/p/src`.
* `Path.startsWith_iff`: for paths in normal form, there is nothing between the two.

So what lies in one of the directories is loaded.  What is loaded need NOT lie in one
(`sibling_loaded`): a directory next to a named one counts as named if its name goes on from
the name of the other.
-/

namespace SourceIndex
namespace Path

/-! ## Segments of a text that goes on -/

/-- What has been read of a segment stands in front of its rest. -/
theorem splitSegments_of_current (current : List Char) {chars : List Char} {next : String}
    {rest : List String} (hsplit : splitSegments [] chars = next :: rest) :
    splitSegments current chars = (String.ofList current.reverse ++ next) :: rest := by
  induction chars generalizing current next rest with
  | nil =>
      cases hsplit
      simp [splitSegments]
  | cons c chars ih =>
      by_cases hslash : c = '/'
      · subst hslash
        rw [splitSegments] at hsplit ⊢
        cases hsplit
        simp
      · obtain ⟨piece, pieces, hpieces⟩ :=
          List.exists_cons_of_ne_nil (splitSegments_ne_nil [] chars)
        rw [splitSegments, ih [c] hpieces] at hsplit
        · rw [splitSegments, ih (c :: current) hpieces]
          · cases hsplit
            rw [List.reverse_cons, String.ofList_append, String.append_assoc]
            rfl
          · exact hslash
        · exact hslash

/-- The last segment of a text goes on with the first segment of what follows it. -/
theorem exists_splitSegments_append (current chars : List Char) :
    ∃ front last, splitSegments current chars = front ++ [last] ∧
      ∀ {more : List Char} {next : String} {rest : List String},
        splitSegments [] more = next :: rest →
        splitSegments current (chars ++ more) = front ++ (last ++ next) :: rest := by
  induction chars generalizing current with
  | nil => exact ⟨[], _, rfl, fun hmore => splitSegments_of_current current hmore⟩
  | cons c chars ih =>
      by_cases hslash : c = '/'
      · subst hslash
        obtain ⟨front, last, hsplit, happend⟩ := ih []
        refine ⟨String.ofList current.reverse :: front, last, ?_, fun hmore => ?_⟩
        · rw [splitSegments, hsplit, List.cons_append]
        · rw [List.cons_append, splitSegments, happend hmore, List.cons_append]
      · obtain ⟨front, last, hsplit, happend⟩ := ih (c :: current)
        refine ⟨front, last, ?_, fun hmore => ?_⟩
        · rw [splitSegments, hsplit]
          exact hslash
        · rw [List.cons_append, splitSegments, happend hmore]
          exact hslash

theorem exists_segments_append (text more : String) :
    ∃ front last next rest, segments text = front ++ [last] ∧
      segments (text ++ more) = front ++ (last ++ next) :: rest := by
  obtain ⟨next, rest, hmore⟩ := List.exists_cons_of_ne_nil (splitSegments_ne_nil [] more.toList)
  obtain ⟨front, last, hsplit, happend⟩ := exists_splitSegments_append [] text.toList
  refine ⟨front, last, next, rest, hsplit, ?_⟩
  rw [segments, String.toList_append]
  exact happend hmore

/-- A name that goes on is a name. -/
theorem isVoid_append {name more : String} (hname : isVoid name = false) (hmore : more ≠ "") :
    isVoid (name ++ more) = false := by
  simp only [isVoid, Bool.or_eq_false_iff, beq_eq_false_iff_ne] at hname ⊢
  refine ⟨fun hempty => hmore (String.append_eq_empty_iff.mp hempty).2, fun hdot => ?_⟩
  have hlength := congrArg String.length hdot
  have hfirst : name.length ≠ 0 := by simpa using hname.1
  have hsecond : more.length ≠ 0 := by simpa using hmore
  rw [String.length_append, show ".".length = 1 from rfl] at hlength
  omega

/-! ## Paths in a directory -/

/-- A path lies in a directory, or is the path of the directory: both start at the same
place, the steps of the directory come first, and no step behind them leads out again. -/
structure Within (dir path : String) : Prop where
  start : isAbsolute path = isAbsolute dir
  first : steps dir <+: steps path
  stays : ".." ∉ (steps path).drop (steps dir).length

instance (dir path : String) : Decidable (Within dir path) :=
  decidable_of_iff (isAbsolute path = isAbsolute dir ∧ steps dir <+: steps path ∧
      ".." ∉ (steps path).drop (steps dir).length)
    ⟨fun ⟨hstart, hfirst, hstays⟩ => ⟨hstart, hfirst, hstays⟩,
      fun ⟨hstart, hfirst, hstays⟩ => ⟨hstart, hfirst, hstays⟩⟩

/-- A path does not lie in a directory although its text starts with the text of the
directory.  Either the last name of the directory goes on, or the path starts at the top and
the text of the directory is empty, or the path leaves the directory again. -/
inductive LooksWithin (dir path : String) : Prop
  | name {front below : List String} {last more : String}
      (hstart : isAbsolute path = isAbsolute dir) (hdir : steps dir = front ++ [last])
      (hpath : steps path = front ++ (last ++ more) :: below) (hmore : more ≠ "")
  | top (hdir : dir = "") (hpath : isAbsolute path = true)
  | climb {below : List String} (hstart : isAbsolute path = isAbsolute dir)
      (hpath : steps path = steps dir ++ below) (hup : ".." ∈ below)

theorem LooksWithin.not_within {dir path : String} (hlooks : LooksWithin dir path) :
    ¬Within dir path := by
  intro hwithin
  cases hlooks with
  | @name front below last more hstart hdir hpath hmore =>
      have hfirst := hwithin.first
      rw [hdir, hpath, List.prefix_append_right_inj, List.cons_prefix_cons] at hfirst
      exact hmore (String.append_eq_left_iff.mp hfirst.1.symm)
  | top hdir hpath =>
      have hstart := hwithin.start
      rw [hdir, hpath] at hstart
      exact absurd hstart (by decide)
  | climb hstart hpath hup =>
      have hstays := hwithin.stays
      rw [hpath, List.drop_left] at hstays
      exact hstays hup

/-- A path with the steps of a directory first lies in it, unless it leaves it again. -/
theorem within_or_looksWithin {dir path : String} {below : List String}
    (hstart : isAbsolute path = isAbsolute dir) (hpath : steps path = steps dir ++ below) :
    Within dir path ∨ LooksWithin dir path := by
  by_cases hup : ".." ∈ below
  · exact .inr (.climb hstart hpath hup)
  · refine .inl ⟨hstart, hpath ▸ List.prefix_append _ _, ?_⟩
    rwa [hpath, List.drop_left]

theorem isAbsolute_append {dir : String} (hdir : dir ≠ "") (more : String) :
    isAbsolute (dir ++ more) = isAbsolute dir := by
  cases hchars : dir.toList with
  | nil => exact absurd (String.toList_eq_nil_iff.mp hchars) hdir
  | cons c chars => simp [isAbsolute, hchars]

/-- A text that goes on from the text of a directory is a path in the directory, or looks as
if it were one. -/
theorem within_or_looksWithin_append (dir more : String) :
    Within dir (dir ++ more) ∨ LooksWithin dir (dir ++ more) := by
  by_cases hempty : dir = ""
  · subst hempty
    rw [String.empty_append]
    cases hpath : isAbsolute more with
    | true => exact .inr (.top rfl hpath)
    | false => exact within_or_looksWithin hpath (by rfl)
  have hstart := isAbsolute_append hempty more
  obtain ⟨front, last, next, rest, hdir, hpath⟩ := exists_segments_append dir more
  have hdirSteps : steps dir = front.filter (fun segment => !isVoid segment) ++
      [last].filter fun segment => !isVoid segment := by
    rw [steps, hdir, List.filter_append]
  have hpathSteps : steps (dir ++ more) = front.filter (fun segment => !isVoid segment) ++
      ((last ++ next) :: rest).filter fun segment => !isVoid segment := by
    rw [steps, hpath, List.filter_append]
  -- the last segment of the directory is no step, or a whole step of the path, or it goes on
  cases hlast : isVoid last with
  | true =>
      rw [List.filter_cons_of_neg (by simp [hlast]), List.filter_nil, List.append_nil] at hdirSteps
      exact within_or_looksWithin hstart (hdirSteps ▸ hpathSteps)
  | false =>
      rw [List.filter_cons_of_pos (by simp [hlast]), List.filter_nil] at hdirSteps
      by_cases hnext : next = ""
      · rw [hnext, String.append_empty, List.filter_cons_of_pos (by simp [hlast]),
          List.append_cons, ← hdirSteps] at hpathSteps
        exact within_or_looksWithin hstart hpathSteps
      · rw [List.filter_cons_of_pos (by simp [isVoid_append hlast hnext])] at hpathSteps
        exact .inr (.name hstart hdirSteps hpathSteps hnext)

/-! ## Texts of normal forms -/

/-- A normal form is what its steps are written as. -/
theorem render_steps {path : String} (hnormal : normalize path = path) :
    render (isAbsolute path) (steps path) = path := by
  have hsteps := steps_normalize path
  rw [hnormal] at hsteps
  rw [hsteps]
  exact hnormal

/-- If the last name of a path goes on, then so does its text. -/
theorem render_append_cons (rooted : Bool) (front : List String) (last more : String)
    (below : List String) :
    render rooted (front ++ (last ++ more) :: below) =
      render rooted (front ++ [last]) ++ String.intercalate "/" (more :: below) := by
  unfold render
  by_cases hfront : front = []
  · simp [hfront, String.append_assoc]
  · rw [String.intercalate_append_of_ne_nil hfront (by simp),
      String.intercalate_append_of_ne_nil hfront (by simp), String.intercalate_cons_append,
      String.intercalate_singleton]
    simp only [String.append_assoc]

/-- If a path goes on, then so does its text. -/
theorem exists_render_append (rooted : Bool) (names below : List String) :
    ∃ more, render rooted (names ++ below) = render rooted names ++ more := by
  obtain rfl | ⟨front, last, rfl⟩ := List.eq_nil_or_concat' names
  · exact ⟨String.intercalate "/" below, by simp [render]⟩
  · refine ⟨String.intercalate "/" ("" :: below), ?_⟩
    rw [← render_append_cons, String.append_empty, List.append_assoc]
    rfl

/-- The text of a path in normal form starts with that of a directory in normal form if, and
only if, the path lies in the directory or looks so. -/
theorem startsWith_iff {dir path : String} (hdir : normalize dir = dir)
    (hpath : normalize path = path) :
    dir.toList <+: path.toList ↔ Within dir path ∨ LooksWithin dir path := by
  have hgoesOn {more : String} (hmore : path = dir ++ more) : dir.toList <+: path.toList := by
    rw [hmore, String.toList_append]
    exact List.prefix_append _ _
  constructor
  · rintro ⟨chars, hchars⟩
    obtain rfl : dir ++ String.ofList chars = path := by
      rw [← String.toList_inj, String.toList_append, String.toList_ofList, hchars]
    exact within_or_looksWithin_append dir _
  · have hbelow {below : List String} (hstart : isAbsolute path = isAbsolute dir)
        (hsteps : steps path = steps dir ++ below) : dir.toList <+: path.toList := by
      obtain ⟨more, hmore⟩ := exists_render_append (isAbsolute dir) (steps dir) below
      rw [← hsteps, ← hstart, render_steps hpath, hstart, render_steps hdir] at hmore
      exact hgoesOn hmore
    rintro (⟨hstart, ⟨below, hsteps⟩, -⟩ | hlooks)
    · exact hbelow hstart hsteps.symm
    · cases hlooks with
      | @name front below last more hstart hdirSteps hpathSteps hmore =>
          have htext := render_append_cons (isAbsolute dir) front last more below
          rw [← hpathSteps, ← hdirSteps, ← hstart, render_steps hpath, hstart,
            render_steps hdir] at htext
          exact hgoesOn htext
      | top hempty habsolute =>
          rw [hempty]
          exact List.nil_prefix
      | climb hstart hsteps hup => exact hbelow hstart hsteps

end Path

/-! ## Loading -/

section
variable {root : String} {settings : CompilationSettings} {command : CompileCommand}

/-- What is loaded is what the entries of the database give. -/
theorem commands_of_loadCommands {files : FileTree} {text : String} {entries : List RawCommand}
    {commands : List CompileCommand}
    (hread : files.readText (Path.join root settings.database) = .ok text)
    (hentries : entriesOf? text = some entries)
    (hload : loadCommands files root settings = .ok commands) :
    commandsOf root settings entries = commands := by
  obtain ⟨_, _, hreadAgain, hentriesAgain, rfl⟩ := exists_entries_of_loadCommands hload
  obtain rfl := Except.ok.inj (hread.symm.trans hreadAgain)
  obtain rfl := Option.some.inj (hentries.symm.trans hentriesAgain)
  rfl

/-- A file looks in range if it lies in one of the directories that are named, or looks so. -/
theorem inRange_iff_within (hrange : settings.pathRange ≠ []) {entry : RawCommand}
    (hnormal : entry.normalize? = some command) :
    InRange root settings command.file ↔
      ∃ start ∈ settings.pathRange, Path.Within (Path.absolutize root start) command.file ∨
        Path.LooksWithin (Path.absolutize root start) command.file := by
  obtain ⟨words, -, rfl⟩ := Option.map_eq_some_iff.mp hnormal
  simp only [InRange, hrange, false_or, Path.absolutize,
    Path.startsWith_iff (Path.normalize_normalize _) (Path.normalize_normalize _)]

/-- Where directories are named, a file that is loaded lies in one of them, or looks so: its
path starts with the text of one.  And if a file that can be loaded does either, loading
succeeds and the file is among those that are loaded. -/
theorem loadCommands_in_range {files : FileTree} {text : String} {entries : List RawCommand}
    (hread : files.readText (Path.join root settings.database) = .ok text)
    (hentries : entriesOf? text = some entries) (hrange : settings.pathRange ≠ []) :
    (∀ commands, loadCommands files root settings = .ok commands → ∀ command ∈ commands,
      ∃ start ∈ settings.pathRange, Path.Within (Path.absolutize root start) command.file ∨
        Path.LooksWithin (Path.absolutize root start) command.file) ∧
    ∀ entry ∈ entries, ∀ command, entry.normalize? = some command →
      (∃ start ∈ settings.pathRange, Path.Within (Path.absolutize root start) command.file ∨
        Path.LooksWithin (Path.absolutize root start) command.file) →
      ∃ commands, loadCommands files root settings = .ok commands ∧
        command.file ∈ commands.map (·.file) := by
  constructor
  · intro commands hcommands command hcommand
    obtain rfl := commands_of_loadCommands hread hentries hcommands
    rw [commandsOf_eq] at hcommand
    obtain ⟨own, hown, rfl⟩ := List.mem_map.mp hcommand
    obtain ⟨entry, -, husable⟩ := exists_usable_of_mem_keptCommands hown
    exact (inRange_iff_within hrange husable.normal).mp husable.inRange
  · intro entry hentry command hnormal hdirs
    have husable : entry.Usable root settings command :=
      ⟨hnormal, (inRange_iff_within hrange hnormal).mpr hdirs⟩
    obtain ⟨commands, hcommands⟩ :=
      (exists_loadCommands_iff hread hentries).mpr ⟨entry, hentry, command, husable⟩
    refine ⟨commands, hcommands, ?_⟩
    obtain rfl := commands_of_loadCommands hread hentries hcommands
    rw [files_commandsOf]
    simpa using file_mem_keptCommands [] hentry husable

end

/-! ## Two directories with names that start alike -/

namespace RangeSample

/-- Only files in `/p/src` are wanted. -/
def settings : CompilationSettings where
  pathRange := ["src/"]

/-- A file in the directory, one next to it, and one elsewhere. -/
def entries : List RawCommand :=
  [⟨"/p", "src/a.c", some ["cc"], none⟩, ⟨"/p", "src2/b.c", some ["cc"], none⟩,
    ⟨"/p", "lib/c.c", some ["cc"], none⟩]

def text : String :=
  "[[\"/p\",\"src/a.c\",[\"cc\"]],[\"/p\",\"src2/b.c\",[\"cc\"]],[\"/p\",\"lib/c.c\",[\"cc\"]]]"

/-- A project with a database. -/
def tree : FileTree where
  entries := [(["p"], .directory), (["p", "compile_commands.json"], .file (Bytes.ofText text))]

end RangeSample

section
open RangeSample

theorem loadCommands_in_range_rangeSample :
    ∃ commands, loadCommands tree "/p" settings = .ok commands ∧
      "/p/src/a.c" ∈ commands.map (·.file) ∧
      ∀ command ∈ commands, Path.Within "/p/src" command.file ∨
        Path.LooksWithin "/p/src" command.file := by
  have hread : tree.readText (Path.join "/p" settings.database) = .ok text := by decide +kernel
  have hentries : entriesOf? text = some entries := by decide +kernel
  have hstart : Path.absolutize "/p" "src/" = "/p/src" := by decide +kernel
  obtain ⟨hloaded, hloads⟩ := loadCommands_in_range hread hentries (by decide)
  obtain ⟨commands, hcommands, hfile⟩ :=
    hloads ⟨"/p", "src/a.c", some ["cc"], none⟩ (by decide) ⟨"/p/src/a.c", []⟩
      (by decide +kernel) ⟨"src/", by decide, .inl (by decide +kernel)⟩
  refine ⟨commands, hcommands, hfile, fun command hcommand => ?_⟩
  obtain ⟨start, hmem, hdirs⟩ := hloaded commands hcommands command hcommand
  obtain rfl := List.mem_singleton.mp hmem
  rwa [hstart] at hdirs

/-- A file that is loaded need not lie in a directory that is named. -/
theorem sibling_loaded :
    loadCommands tree "/p" settings = .ok [⟨"/p/src/a.c", []⟩, ⟨"/p/src2/b.c", []⟩] ∧
      ¬∃ start ∈ settings.pathRange,
        Path.Within (Path.absolutize "/p" start) "/p/src2/b.c" := by
  decide +kernel

end

end SourceIndex
