import Mathlib.Algebra.Group.Nat.Defs
import Mathlib.Data.List.Nodup
import Mathlib.Data.List.Perm.Subperm
import SourceIndex.Proofs.Cursor.Saved
import SourceIndex.Proofs.Path.Joined
import SourceIndex.Proofs.Pipeline.Unit
import SourceIndex.Record.Extract

/-!
# When units survive scratch files

A directory that serves (`Scratch.Serves`) holds a scratch file of any short name, under a
name that is not taken, and reads back what was written.  In such a directory the codec has no
choice: what it does depends on the file name of the unit only.

* `Scratch.Admits` says of the start of a scratch name that the rest still fits behind it.  A
  scratch name is ten bytes longer than its start, and names have at most 255 bytes.
* `Scratch.create_of_admits` and `Scratch.create_of_not_admits`: a scratch file is made exactly
  if its name is admitted.  Both rest on `Scratch.follow_path`, which says where a scratch path
  leads, whatever way the directory is written.
* `Scratch.fresh_of_room`: a name that is not taken is found as long as there are fewer entries
  than numbers.
* `codec_roundTrip`: a unit is restored as it was saved, errors or not, exactly if its name is
  admitted; and whatever happens, the files are what they were.

It is NOT enough that the directory can be written and that the links of a tree are sound.  The
start of a scratch name is the file name of the unit, uncut, and so a unit whose own file name
is legal but longer than 244 bytes is never saved (`serialize_long_name`).  Restoring takes a
fixed start and has no such limit.
-/

namespace SourceIndex

/-! ## Scratch paths -/

namespace Scratch

/-- The directory where scratch files go. -/
def place (scratch : Scratch) : String :=
  scratch.dir.getD systemDir

/-- The name of a scratch file in its directory. -/
def fileName (hint : String) (number : Nat) : String :=
  hint ++ String.ofList (letters 6 number) ++ ".ast"

theorem path_eq_join (scratch : Scratch) (hint : String) (number : Nat) :
    scratch.path hint number = Path.join scratch.place (fileName hint number) :=
  rfl

/-- Each letter is one byte and neither a slash nor a NUL. -/
theorem letter_cases (number : Nat) :
    (Char.ofNat ('a'.toNat + number % 26)).utf8Size = 1 ∧
      Char.ofNat ('a'.toNat + number % 26) ≠ '/' ∧
      Char.ofNat ('a'.toNat + number % 26) ≠ '\x00' := by
  have hletters : ∀ letter < 26, (Char.ofNat ('a'.toNat + letter)).utf8Size = 1 ∧
      Char.ofNat ('a'.toNat + letter) ≠ '/' ∧ Char.ofNat ('a'.toNat + letter) ≠ '\x00' := by
    decide
  exact hletters _ (Nat.mod_lt _ (by decide))

theorem utf8ByteSize_letters (count number : Nat) :
    (String.ofList (letters count number)).utf8ByteSize = count := by
  induction count generalizing number with
  | zero => rfl
  | succ count ih =>
      rw [letters, String.ofList_cons, String.utf8ByteSize_append, String.utf8ByteSize_singleton,
        (letter_cases number).1, ih, Nat.add_comm]

theorem notMem_letters {char : Char} (hchar : char = '/' ∨ char = '\x00') (count number : Nat) :
    char ∉ letters count number := by
  induction count generalizing number with
  | zero => exact List.not_mem_nil
  | succ count ih =>
      rw [letters, List.mem_cons, not_or]
      refine ⟨?_, ih (number / 26)⟩
      rcases hchar with rfl | rfl
      · exact (letter_cases number).2.1.symm
      · exact (letter_cases number).2.2.symm

/-- Different numbers have different letters, as far as there are enough letters. -/
theorem mod_eq_of_letters_eq {count first second : Nat}
    (hsame : letters count first = letters count second) :
    first % 26 ^ count = second % 26 ^ count := by
  induction count generalizing first second with
  | zero => rw [Nat.pow_zero, Nat.mod_one, Nat.mod_one]
  | succ count ih =>
      have hletter : ∀ a < 26, ∀ b < 26,
          Char.ofNat ('a'.toNat + a) = Char.ofNat ('a'.toNat + b) → a = b := by
        decide
      obtain ⟨hhead, htail⟩ := List.cons.inj hsame
      have hlast := hletter _ (Nat.mod_lt _ (by decide)) _ (Nat.mod_lt _ (by decide)) hhead
      rw [Nat.pow_succ', Nat.mod_mul, Nat.mod_mul, hlast, ih htail]

section Paths

variable {hint : String} (hhint : '/' ∉ hint.toList)
include hhint

theorem slash_notMem_fileName (number : Nat) : '/' ∉ (fileName hint number).toList := by
  simp [fileName, hhint, notMem_letters (.inl rfl)]

theorem path_eq (scratch : Scratch) (number : Nat) :
    scratch.path hint number = Path.asDirectory scratch.place ++ fileName hint number :=
  Path.join_of_relative (Path.isAbsolute_of_slashless (slash_notMem_fileName hhint number)) _

omit hhint in
theorem utf8ByteSize_fileName (number : Nat) :
    (fileName hint number).utf8ByteSize = hint.utf8ByteSize + 10 := by
  rw [fileName, String.utf8ByteSize_append, String.utf8ByteSize_append, utf8ByteSize_letters]
  rfl

omit hhint in
theorem fileName_ne {short : String} (hshort : short.utf8ByteSize < 10) (number : Nat) :
    fileName hint number ≠ short := by
  rintro rfl
  rw [utf8ByteSize_fileName] at hshort
  omega

/-- Whether a scratch path is a path at all does not depend on its number. -/
theorem pathFault?_path (scratch : Scratch) (number : Nat) :
    FileTree.pathFault? (scratch.path hint number) = FileTree.pathFault? (scratch.path hint 0) := by
  have hsize : (scratch.path hint number).utf8ByteSize = (scratch.path hint 0).utf8ByteSize := by
    rw [path_eq hhint, path_eq hhint, String.utf8ByteSize_append, String.utf8ByteSize_append,
      utf8ByteSize_fileName, utf8ByteSize_fileName]
  have hnul : (scratch.path hint number).toList.contains '\x00' =
      (scratch.path hint 0).toList.contains '\x00' := by
    rw [path_eq hhint, path_eq hhint]
    simp [fileName, notMem_letters (.inr rfl)]
  have hempty : (scratch.path hint number == "") = (scratch.path hint 0 == "") := by
    rw [Bool.eq_iff_iff, beq_iff_eq, beq_iff_eq, ← String.utf8ByteSize_eq_zero_iff, hsize,
      String.utf8ByteSize_eq_zero_iff]
  rw [FileTree.pathFault?, FileTree.pathFault?, hnul, hempty, hsize]

/-- A scratch path leads to its name in the directory. -/
theorem follow_path {scratch : Scratch} {files : FileTree} {dir : List String}
    (hplace : files.follow (files.startOf scratch.place) (Path.segments scratch.place) =
      .ok (.present dir .directory)) (number : Nat) :
    files.follow (files.startOf (scratch.path hint number))
        (Path.segments (scratch.path hint number)) =
      if FileTree.maxNameSize < hint.utf8ByteSize + 10 then .error .nameTooLong
      else files.follow (dir ++ [fileName hint number]) [] := by
  have hslash := slash_notMem_fileName hhint number
  have hstart : files.startOf (scratch.path hint number) = files.startOf scratch.place := by
    rw [FileTree.startOf, FileTree.startOf, path_eq_join, Path.isAbsolute_join,
      Path.isAbsolute_of_slashless hslash, Bool.or_false]
  obtain ⟨way, hpath, hway⟩ := Path.exists_segments_join hslash scratch.place
  have hdir : files.follow (files.startOf scratch.place) way = .ok (.present dir .directory) := by
    rcases hway with hsame | hslashed
    · rw [← hsame]
      exact hplace
    · rw [hslashed] at hplace
      exact FileTree.follow_of_slashed hplace
  have hdirectory : files.entry? dir = some .directory := FileTree.entry_of_follow hdir
  have hmoves : Path.isVoid (fileName hint number) = false := by
    rw [Path.isVoid, beq_eq_false_iff_ne.mpr (fileName_ne (by decide) number),
      beq_eq_false_iff_ne.mpr (fileName_ne (by decide) number)]
    rfl
  rw [hstart, path_eq_join, hpath, FileTree.follow_append hdir,
    FileTree.follow_singleton hdirectory hmoves (fileName_ne (by decide) number),
    utf8ByteSize_fileName]

end Paths

/-! ## Scratch files that can be had -/

/-- The name and the path of a scratch file with this hint are no longer than they may be, and
there is no NUL in them. -/
def Admits (scratch : Scratch) (hint : String) : Prop :=
  FileTree.pathFault? (scratch.path hint 0) = none ∧
    hint.utf8ByteSize + 10 ≤ FileTree.maxNameSize

instance (scratch : Scratch) (hint : String) : Decidable (scratch.Admits hint) :=
  inferInstanceAs (Decidable (_ ∧ _))

/-- What is wrong with the path of a scratch file, or else with its name. -/
def refusal (scratch : Scratch) (hint : String) : IoFault :=
  (FileTree.pathFault? (scratch.path hint 0)).getD .nameTooLong

section Creation

variable {scratch : Scratch} {files : FileTree} {hint : String} {dir : List String}
  (hhint : '/' ∉ hint.toList)
  (hplace : files.follow (files.startOf scratch.place) (Path.segments scratch.place) =
    .ok (.present dir .directory))
include hhint hplace

theorem resolve_of_admits (hadmits : scratch.Admits hint) (number : Nat) :
    files.resolve (scratch.path hint number) =
      files.follow (dir ++ [fileName hint number]) [] := by
  rw [FileTree.resolve, pathFault?_path hhint, hadmits.1]
  dsimp only
  rw [follow_path hhint hplace, if_neg (Nat.not_lt.mpr hadmits.2)]

theorem resolve_of_not_admits (hrefused : ¬scratch.Admits hint) (number : Nat) :
    files.resolve (scratch.path hint number) = .error (scratch.refusal hint) := by
  rw [FileTree.resolve, pathFault?_path hhint, refusal]
  cases hfault : FileTree.pathFault? (scratch.path hint 0) with
  | some fault => rfl
  | none =>
      have hlong : FileTree.maxNameSize < hint.utf8ByteSize + 10 :=
        Nat.not_le.mp fun hshort => hrefused ⟨hfault, hshort⟩
      dsimp only
      rw [follow_path hhint hplace, if_pos hlong]
      rfl

/-- A scratch file that is not admitted is not made. -/
theorem create_of_not_admits (hrefused : ¬scratch.Admits hint) :
    scratch.create files hint = .error (scratch.refusal hint) := by
  obtain ⟨number, hpath⟩ := scratch.exists_freshPath_eq files hint
  have hresolve := resolve_of_not_admits hhint hplace hrefused number
  have hname := scratch.endsInName_path hint number
  rw [create, hpath]
  simp [FileTree.exists, FileTree.find, FileTree.write,
    FileTree.resolveForWriting_of_endsInName hname, hresolve]

/-- One that is admitted is made under a name that is not taken. -/
theorem create_of_admits (hadmits : scratch.Admits hint)
    (hfresh : files.exists (scratch.freshPath files hint) = false) :
    ∃ made, scratch.create files hint = .ok made := by
  obtain ⟨number, hpath⟩ := scratch.exists_freshPath_eq files hint
  have hresolve := resolve_of_admits hhint hplace hadmits number
  have hname := scratch.endsInName_path hint number
  rw [create, hfresh, if_neg Bool.false_ne_true]
  rw [hpath] at hfresh ⊢
  rw [FileTree.follow] at hresolve
  split at hresolve
  next =>
    simp [FileTree.exists, FileTree.find, hresolve] at hfresh
  next =>
    simp [FileTree.write, FileTree.resolveForWriting_of_endsInName hname, hresolve]

theorem mem_entries_of_exists {number : Nat}
    (htaken : files.exists (scratch.path hint number) = true) :
    dir ++ [fileName hint number] ∈ files.entries.map Prod.fst := by
  by_cases hadmits : scratch.Admits hint
  · rw [FileTree.exists, FileTree.find, resolve_of_admits hhint hplace hadmits,
      FileTree.follow] at htaken
    cases hentry : files.entry? (dir ++ [fileName hint number]) with
    | none => simp [hentry] at htaken
    | some entry =>
        rw [FileTree.entry?, if_neg (by simp)] at hentry
        obtain ⟨before, after, hentries, -⟩ := List.lookup_eq_some_iff.mp hentry
        simp [hentries]
  · simp [FileTree.exists, FileTree.find,
      resolve_of_not_admits hhint hplace hadmits] at htaken

/-- As long as there are fewer entries than numbers, some number is not taken. -/
theorem fresh_of_room (hroom : files.entries.length < 26 ^ 6) :
    files.exists (scratch.freshPath files hint) = false := by
  unfold freshPath
  dsimp only
  cases hfound : ((List.range (files.entries.length + 1)).map (scratch.path hint)).find?
      fun path => !files.exists path with
  | some path => simpa using List.find?_some hfound
  | none =>
      -- otherwise each of the numbers has an entry of its own, and they are one too many
      have htaken : (List.range (files.entries.length + 1)).map
          (fun number => dir ++ [fileName hint number]) ⊆ files.entries.map Prod.fst := by
        intro name hname
        obtain ⟨number, hnumber, rfl⟩ := List.mem_map.mp hname
        refine mem_entries_of_exists hhint hplace ?_
        simpa using List.find?_eq_none.mp hfound _ (List.mem_map_of_mem hnumber)
      have hdistinct : ((List.range (files.entries.length + 1)).map
          (fun number => dir ++ [fileName hint number])).Nodup := by
        refine List.nodup_range.map_on fun first hfirst second hsecond hsame => ?_
        have hletters : letters 6 first = letters 6 second := by
          simpa [fileName, ← String.toList_inj] using hsame
        have hmod := mod_eq_of_letters_eq hletters
        rw [List.mem_range] at hfirst hsecond
        rwa [Nat.mod_eq_of_lt (by omega), Nat.mod_eq_of_lt (by omega)] at hmod
      have hlength := (hdistinct.subperm htaken).length_le
      rw [List.length_map, List.length_range, List.length_map] at hlength
      omega

end Creation

/-- Scratch files can be had, written and read: the device refuses nothing, the directory is
there, units can be restored in it, and for each hint a name is found that is not taken. -/
structure Serves (scratch : Scratch) (files : FileTree) : Prop where
  writes : scratch.writeFault = none
  reads : scratch.readFault = none
  leads : ∃ dir, files.follow (files.startOf scratch.place) (Path.segments scratch.place) =
    .ok (.present dir .directory)
  restores : scratch.Admits "restore-"
  fresh : ∀ hint : String, '/' ∉ hint.toList →
    files.exists (scratch.freshPath files hint) = false

theorem slash_notMem_hint (spelling : String) : '/' ∉ (hint spelling).toList := by
  cases hfound : Path.fileName? spelling with
  | none => simp [hint, hfound]
  | some name => simpa [hint, hfound] using Path.slash_notMem_fileName? hfound

/-- A unit with a long file name has no scratch file in any directory. -/
theorem not_admits_of_long {spelling : String} (hname : '/' ∉ spelling.toList)
    (hlong : 244 < spelling.utf8ByteSize) (scratch : Scratch) :
    ¬scratch.Admits (hint spelling) := by
  rintro ⟨-, hshort⟩
  rw [hint, Path.fileName?_of_slashless hname (by omega), Option.getD_some,
    String.utf8ByteSize_append] at hshort
  have hdash : "-".utf8ByteSize = 1 := by decide
  have hlimit : FileTree.maxNameSize = 255 := rfl
  omega

/-- In a directory that serves, a scratch file is had exactly if it is admitted. -/
theorem Serves.create_isOk_iff {scratch : Scratch} {files : FileTree}
    (hserves : scratch.Serves files) {hint : String} (hhint : '/' ∉ hint.toList) :
    (scratch.create files hint).isOk = true ↔ scratch.Admits hint := by
  obtain ⟨dir, hplace⟩ := hserves.leads
  constructor
  · intro hmade
    by_contra hrefused
    rw [create_of_not_admits hhint hplace hrefused] at hmade
    cases hmade
  · intro hadmits
    obtain ⟨made, hmade⟩ := create_of_admits hhint hplace hadmits (hserves.fresh hint hhint)
    rw [hmade]
    rfl

theorem Serves.usable {scratch : Scratch} {files : FileTree} (hserves : scratch.Serves files) :
    scratch.Usable files :=
  ⟨hserves.writes, (hserves.create_isOk_iff (by decide)).mpr hserves.restores⟩

end Scratch

/-! ## The way there and back -/

theorem serialize_of_serves {scratch : Scratch} {files : FileTree} (hserves : scratch.Serves files)
    {tree : CursorTree} (hadmits : scratch.Admits (Scratch.hint tree.spelling)) :
    serialize scratch files { tree } = (.done tree.toBytes, files) := by
  have hmade := (hserves.create_isOk_iff (Scratch.slash_notMem_hint tree.spelling)).mpr hadmits
  cases hcreate : scratch.create files (Scratch.hint tree.spelling) with
  | error fault =>
      rw [hcreate] at hmade
      cases hmade
  | ok made =>
      obtain ⟨path, created⟩ := made
      obtain ⟨name, hvacant, rfl⟩ := Scratch.exists_vacant_of_create hcreate
      have hsave : SourceUnit.save scratch { tree } (files.add name (.file [])) path =
          .done (files.add name (.file tree.toBytes)) := by
        simp [SourceUnit.save, hserves.writes, CursorTree.save, hvacant.write_add]
      have hread : scratch.read (files.add name (.file tree.toBytes)) path = .ok tree.toBytes := by
        simp [Scratch.read, hserves.reads, hvacant.read_add]
      simp [serialize, hcreate, hsave, hread, Scratch.close_add hvacant]

theorem serialize_of_not_admits {scratch : Scratch} {files : FileTree}
    (hserves : scratch.Serves files) (unit : SourceUnit)
    (hrefused : ¬scratch.Admits (Scratch.hint unit.tree.spelling)) :
    serialize scratch files unit =
      (.failed (.scratch (scratch.refusal (Scratch.hint unit.tree.spelling))), files) := by
  obtain ⟨dir, hplace⟩ := hserves.leads
  rw [serialize, Scratch.create_of_not_admits (Scratch.slash_notMem_hint _) hplace hrefused]

theorem deserialize_toBytes {scratch : Scratch} {files : FileTree} (hserves : scratch.Serves files)
    {tree : CursorTree} (hlinks : tree.linkFault? = none) (hfits : tree.Fits) :
    deserialize scratch files tree.toBytes = (.ok tree, files) := by
  have hbytes := CursorTree.ofBytes_toBytes_eq hfits []
  rw [List.append_nil, hlinks] at hbytes
  exact deserialize_of_usable hbytes hserves.usable

/-- **Units come back from scratch files, and no file is left.**  In a directory that serves, a
tree with sound links comes back from the codec as it was, and with it its records, if the name
of its scratch file is admitted; otherwise it cannot be saved at all.  On any device, for any
unit and any bytes, and wherever the codec stops, the files are what they were. -/
theorem codec_roundTrip (scratch : Scratch) (files : FileTree) :
    (scratch.Serves files → ∀ tree : CursorTree, tree.linkFault? = none → tree.Fits →
      (scratch.Admits (Scratch.hint tree.spelling) →
        ∃ bytes restored, serialize scratch files { tree } = (.done bytes, files) ∧
          deserialize scratch files bytes = (.ok restored, files) ∧ restored = tree ∧
          ∀ path flags tally, extract restored path flags tally = extract tree path flags tally) ∧
      (¬scratch.Admits (Scratch.hint tree.spelling) →
        serialize scratch files { tree } =
          (.failed (.scratch (scratch.refusal (Scratch.hint tree.spelling))), files))) ∧
    (∀ unit, (serialize scratch files unit).2 = files) ∧
    (∀ bytes, (deserialize scratch files bytes).2 = files) ∧
    ∀ reconstruct bytes, (restoreBy reconstruct scratch files bytes).2 = files := by
  refine ⟨fun hserves tree hlinks hfits => ⟨fun hadmits => ?_, fun hrefused => ?_⟩,
    serialize_files scratch files, deserialize_files scratch files,
    fun reconstruct => restoreBy_files reconstruct scratch files⟩
  · exact ⟨tree.toBytes, tree, serialize_of_serves hserves hadmits,
      deserialize_toBytes hserves hlinks hfits, rfl, fun _ _ _ => rfl⟩
  · exact serialize_of_not_admits hserves _ hrefused

/-! ## A directory that serves -/

namespace Scratch

/-- A directory of its own for scratch files. -/
def servingSample : Scratch where
  dir := some "/s"

/-- A tree with this directory and a file that has the first scratch name for `main.c`. -/
def servingFiles : FileTree where
  entries := [(["s", "main.c-aaaaaa.ast"], .file [7]), (["s"], .directory)]

theorem serves_servingSample : servingSample.Serves servingFiles := by
  have hplace : servingFiles.follow (servingFiles.startOf servingSample.place)
      (Path.segments servingSample.place) = .ok (.present ["s"] .directory) := by
    decide +kernel
  exact {
    writes := rfl
    reads := rfl
    leads := ⟨["s"], hplace⟩
    restores := by decide +kernel
    fresh := fun hint hhint => fresh_of_room hhint hplace (by decide) }

end Scratch

/-- A function with an error in it that calls itself. -/
def brokenSample : CursorTree where
  spelling := "/src/main.c"
  nodes := #[{ kind := .unit, spelling := "/src/main.c", location := .nowhere, children := #[1] },
    { kind := .function, spelling := "f", children := #[2], definition := some 1,
      location := { file := "/src/main.c", line := 1, column := 1 } },
    { kind := .call, spelling := "f", referenced := some 1,
      location := { file := "/src/main.c", line := 2, column := 3 } }]
  hasErrors := true

theorem codec_roundTrip_brokenSample :
    brokenSample.hasErrors = true ∧
      ∃ bytes restored, serialize Scratch.servingSample Scratch.servingFiles
          { tree := brokenSample } = (.done bytes, Scratch.servingFiles) ∧
        deserialize Scratch.servingSample Scratch.servingFiles bytes =
          (.ok restored, Scratch.servingFiles) ∧ restored = brokenSample ∧
        ∀ path flags tally,
          extract restored path flags tally = extract brokenSample path flags tally := by
  refine ⟨rfl, ?_⟩
  exact ((codec_roundTrip Scratch.servingSample Scratch.servingFiles).1
    Scratch.serves_servingSample brokenSample (by decide) (by decide)).1 (by decide +kernel)

/-- A file name that the system allows, of 245 bytes. -/
def longName : String :=
  String.ofList (List.replicate 245 'n')

theorem slash_notMem_longName : '/' ∉ longName.toList := by
  have hplain : ∀ count, '/' ∉ (String.ofList (List.replicate count 'n')).toList := by simp
  exact hplain 245

/-- An empty unit of this name. -/
def longNameSample : CursorTree where
  spelling := longName
  nodes := #[{ kind := .unit, spelling := longName, location := .nowhere }]

/-- A directory that serves and a tree with sound links, but the tree is not saved. -/
theorem serialize_long_name :
    Scratch.servingSample.Serves Scratch.servingFiles ∧ longNameSample.linkFault? = none ∧
      longNameSample.Fits ∧
      ¬∃ bytes, (serialize Scratch.servingSample Scratch.servingFiles
        { tree := longNameSample }).1 = .done bytes := by
  have hrefused : ¬Scratch.servingSample.Admits (Scratch.hint longNameSample.spelling) :=
    Scratch.not_admits_of_long slash_notMem_longName (by decide +kernel) _
  have hfailed := serialize_of_not_admits Scratch.serves_servingSample { tree := longNameSample }
    hrefused
  refine ⟨Scratch.serves_servingSample, by decide, by decide +kernel, ?_⟩
  rintro ⟨bytes, hdone⟩
  rw [hfailed] at hdone
  cases hdone

end SourceIndex
