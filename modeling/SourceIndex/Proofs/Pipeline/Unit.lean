import SourceIndex.Pipeline.Unit
import SourceIndex.Proofs.FileTree

/-!
# Units survive scratch files

Scratch files are made where nothing was, so what is written to one is what is read
from it, and once it is taken away the files are what they were.  The device may
refuse to write or to read, and the directory may be missing; then there is no
result, but there is never a wrong one.
-/

namespace SourceIndex
namespace Scratch

theorem endsInName_path (scratch : Scratch) (hint : String) (number : Nat) :
    Path.EndsInName (scratch.path hint number) := by
  obtain ⟨front, hfront⟩ := Path.exists_toList_join (scratch.dir.getD systemDir)
    (hint ++ String.ofList (letters 6 number) ++ ".ast")
  have hending : (scratch.path hint number).toList =
      (front ++ (hint.toList ++ letters 6 number ++ ['.', 'a', 's'])) ++ ['t'] := by
    rw [path, hfront]
    simp
  exact .of_append hending (by decide)

theorem exists_freshPath_eq (scratch : Scratch) (files : FileTree) (hint : String) :
    ∃ number, scratch.freshPath files hint = scratch.path hint number := by
  unfold freshPath
  dsimp only
  cases hfound : ((List.range (files.entries.length + 1)).map (scratch.path hint)).find?
      fun path => !files.exists path with
  | none => exact ⟨0, rfl⟩
  | some path =>
      obtain ⟨number, -, hpath⟩ := List.mem_map.mp (List.mem_of_find?_eq_some hfound)
      exact ⟨number, hpath.symm⟩

theorem endsInName_freshPath (scratch : Scratch) (files : FileTree) (hint : String) :
    Path.EndsInName (scratch.freshPath files hint) := by
  obtain ⟨number, hpath⟩ := scratch.exists_freshPath_eq files hint
  rw [hpath]
  exact scratch.endsInName_path hint number

/-- A scratch file is made where nothing was. -/
theorem exists_vacant_of_create {scratch : Scratch} {files created : FileTree}
    {hint path : String} (hcreate : scratch.create files hint = .ok (path, created)) :
    ∃ name, files.Vacant path name ∧ created = files.add name (.file []) := by
  unfold create at hcreate
  dsimp only at hcreate
  split at hcreate
  · cases hcreate
  next hfree =>
    split at hcreate
    · cases hcreate
    next hwrite =>
      cases hcreate
      exact FileTree.exists_vacant_of_write (scratch.endsInName_freshPath files hint)
        (Bool.eq_false_iff.mpr hfree) hwrite

theorem close_add {files : FileTree} {path : String} {name : List String}
    (hvacant : files.Vacant path name) (content : Bytes) :
    close (files.add name (.file content)) path = files := by
  rw [close, hvacant.remove_add]

/-- What is written to a scratch file takes the place of its content. -/
theorem eq_add_of_write {scratch : Scratch} {files written : FileTree} {path : String}
    {name : List String} (hvacant : files.Vacant path name) {content bytes : Bytes}
    (hwrite : scratch.write (files.add name (.file content)) path bytes = .ok written) :
    written = files.add name (.file bytes) := by
  unfold write at hwrite
  split at hwrite
  · cases hwrite
  · rw [hvacant.write_add] at hwrite
    cases hwrite
    rfl

end Scratch

/-- A unit that is saved at all is saved as the bytes of its tree. -/
theorem SourceUnit.eq_add_of_save {scratch : Scratch} {unit : SourceUnit}
    {files saved : FileTree} {path : String} {name : List String}
    (hvacant : files.Vacant path name) {content : Bytes}
    (hsave : unit.save scratch (files.add name (.file content)) path = .done saved) :
    saved = files.add name (.file unit.tree.toBytes) := by
  unfold SourceUnit.save at hsave
  split at hsave
  · cases hsave
  · cases hsave
  split at hsave
  · cases hsave
  · simp only [CursorTree.save, Bool.not_true, Bool.and_false, if_neg Bool.false_ne_true,
      hvacant.write_add] at hsave
    cases hsave
    rfl

theorem eq_toBytes_of_serialize {scratch : Scratch} {files : FileTree} {unit : SourceUnit}
    {bytes : Bytes} (hdone : (serialize scratch files unit).1 = .done bytes) :
    bytes = unit.tree.toBytes := by
  unfold serialize at hdone
  split at hdone
  · cases hdone
  next path created hcreate =>
    obtain ⟨name, hvacant, rfl⟩ := Scratch.exists_vacant_of_create hcreate
    split at hdone
    · cases hdone
    · cases hdone
    next saved hsave =>
      obtain rfl := SourceUnit.eq_add_of_save hvacant hsave
      split at hdone
      · cases hdone
      next found hfound =>
        unfold Scratch.read at hfound
        split at hfound
        · cases hfound
        · rw [hvacant.read_add] at hfound
          cases hfound
          cases hdone
          rfl

/-- Saving a unit leaves no file behind. -/
@[simp] theorem serialize_files (scratch : Scratch) (files : FileTree) (unit : SourceUnit) :
    (serialize scratch files unit).2 = files := by
  unfold serialize
  split
  · rfl
  next path created hcreate =>
    obtain ⟨name, hvacant, rfl⟩ := Scratch.exists_vacant_of_create hcreate
    split
    · exact Scratch.close_add hvacant []
    · exact Scratch.close_add hvacant []
    next saved hsave =>
      obtain rfl := SourceUnit.eq_add_of_save hvacant hsave
      split <;> exact Scratch.close_add hvacant _

/-- The way of bytes through a scratch file to a parser that takes the file as it likes. -/
def restoreBy (reconstruct : FileTree → String → Except UnitFault CursorTree) (scratch : Scratch)
    (files : FileTree) (bytes : Bytes) : Except CodecFault CursorTree × FileTree :=
  match scratch.create files "restore-" with
  | .error fault => (.error (.scratch fault), files)
  | .ok (path, created) =>
    match scratch.write created path bytes with
    | .error fault => (.error (.scratch fault), Scratch.close created path)
    | .ok written =>
      match reconstruct written path with
      | .error fault => (.error (.unit fault), Scratch.close written path)
      | .ok tree => (.ok tree, Scratch.close written path)

theorem deserialize_eq_restoreBy : deserialize = restoreBy CursorTree.load :=
  rfl

/-- Restoring a unit leaves no file behind, whatever the parser makes of the file. -/
theorem restoreBy_files (reconstruct : FileTree → String → Except UnitFault CursorTree)
    (scratch : Scratch) (files : FileTree) (bytes : Bytes) :
    (restoreBy reconstruct scratch files bytes).2 = files := by
  unfold restoreBy
  split
  · rfl
  next path created hcreate =>
    obtain ⟨name, hvacant, rfl⟩ := Scratch.exists_vacant_of_create hcreate
    split
    · exact Scratch.close_add hvacant []
    next written hwritten =>
      obtain rfl := Scratch.eq_add_of_write hvacant hwritten
      split <;> exact Scratch.close_add hvacant _

@[simp] theorem deserialize_files (scratch : Scratch) (files : FileTree) (bytes : Bytes) :
    (deserialize scratch files bytes).2 = files := by
  rw [deserialize_eq_restoreBy]
  exact restoreBy_files CursorTree.load scratch files bytes

/-- The saved form of a tree gives the tree back, if the scratch file can be had. -/
theorem deserialize_of_ofBytes {bytes : Bytes} {tree : CursorTree}
    (hbytes : CursorTree.ofBytes bytes = .ok tree) (scratch : Scratch) (files : FileTree) :
    (deserialize scratch files bytes).1 = .ok tree ∨
      ∃ fault, (deserialize scratch files bytes).1 = .error (.scratch fault) := by
  unfold deserialize
  split
  next fault _ => exact .inr ⟨fault, rfl⟩
  next path created hcreate =>
    obtain ⟨name, hvacant, rfl⟩ := Scratch.exists_vacant_of_create hcreate
    split
    next fault _ => exact .inr ⟨fault, rfl⟩
    next written hwritten =>
      obtain rfl := Scratch.eq_add_of_write hvacant hwritten
      have hload : CursorTree.load (files.add name (.file bytes)) path = .ok tree := by
        simp [CursorTree.load, hvacant.read_add, hbytes]
      rw [hload]
      exact .inl rfl

/-- A scratch file for a unit to be restored can be had. -/
def Scratch.Usable (scratch : Scratch) (files : FileTree) : Prop :=
  scratch.writeFault = none ∧ (scratch.create files "restore-").isOk = true

instance (scratch : Scratch) (files : FileTree) : Decidable (scratch.Usable files) :=
  inferInstanceAs (Decidable (_ ∧ _))

theorem deserialize_of_usable {bytes : Bytes} {tree : CursorTree}
    (hbytes : CursorTree.ofBytes bytes = .ok tree) {scratch : Scratch} {files : FileTree}
    (husable : scratch.Usable files) : deserialize scratch files bytes = (.ok tree, files) := by
  obtain ⟨hdevice, hmade⟩ := husable
  cases hcreate : scratch.create files "restore-" with
  | error fault =>
      rw [hcreate] at hmade
      cases hmade
  | ok made =>
      obtain ⟨path, created⟩ := made
      obtain ⟨name, hvacant, rfl⟩ := Scratch.exists_vacant_of_create hcreate
      have hwrite : scratch.write (files.add name (.file [])) path bytes =
          .ok (files.add name (.file bytes)) := by
        simp [Scratch.write, hdevice, hvacant.write_add]
      simp [deserialize, hcreate, hwrite, CursorTree.load, hvacant.read_add, hbytes,
        Scratch.close_add hvacant]

end SourceIndex
