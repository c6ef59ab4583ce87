import SourceIndex.Proofs.Store.File

/-!
# A store that is opened again

Opening a store makes the directory around it.  Once that is done it need not be done again:
the directory is there (`FileTree.ParentMade`), and writing to the store does not take it away.
So a store on disk that lacks no table is found as it was written (`FileTree.Holds.openStore_eq`).

The directory of a path is followed as an operating system does it, and a path may come
through a directory more than once.  What counts is that no directory is lost on the way,
NOT that nothing is changed.
-/

namespace SourceIndex
namespace FileTree

variable {tree changed made : FileTree} {path : String} {name : List String} {store : Store}

/-! ## Directories that stay -/

/-- A tree in which no directory of another one is lost, with the same working directory. -/
structure Spares (tree changed : FileTree) : Prop where
  workDir_eq : changed.workDir = tree.workDir
  directory : ∀ name, tree.entry? name = some .directory → changed.entry? name = some .directory

theorem spares_add (hplain : tree.entry? name ≠ some .directory) (entry : Entry) :
    tree.Spares (tree.add name entry) where
  workDir_eq := rfl
  directory dir hdir := by
    have hne : dir ≠ name := fun hsame => hplain (hsame ▸ hdir)
    rw [entry_add_of_ne tree hne]
    exact hdir

theorem spares_put (hplain : tree.entry? name ≠ some .directory) (entry : Entry) :
    tree.Spares (tree.put name entry) where
  workDir_eq := rfl
  directory dir hdir := by
    have hne : dir ≠ name := fun hsame => hplain (hsame ▸ hdir)
    rw [entry_put_of_ne tree hne]
    exact hdir

theorem entry_of_resolve {target : Target} (hresolve : tree.resolve path = .ok target) :
    tree.entry? target.name = target.found? := by
  unfold resolve at hresolve
  split at hresolve
  · cases hresolve
  · exact entry_of_follow hresolve

/-- Slashes behind a directory lead nowhere else. -/
theorem follow_slashes {segments : List String} (hname : tree.entry? name = some .directory)
    (hslashes : ∀ segment ∈ segments, segment = "") :
    tree.follow name segments = .ok (.present name .directory) := by
  induction segments with
  | nil => rw [follow, hname]
  | cons segment rest ih =>
      obtain ⟨rfl, hrest⟩ := List.forall_mem_cons.mp hslashes
      rw [follow, hname]
      exact ih hrest

/-- Where no directory is lost, a path leads to the same name as before, if that is the name of
a directory now. -/
theorem Spares.follow_eq (hspares : tree.Spares changed) {start segments : List String}
    {target : Target} (hfollow : tree.follow start segments = .ok target)
    (hentry : changed.entry? target.name = some .directory) :
    changed.follow start segments = .ok (.present target.name .directory) := by
  induction segments generalizing start with
  | nil =>
      have hname : target.name = start := by
        rw [follow] at hfollow
        split at hfollow <;> cases hfollow <;> rfl
      rw [hname] at hentry ⊢
      rw [follow, hentry]
  | cons segment rest ih =>
      rw [follow] at hfollow
      split at hfollow
      next hdirectory =>
        rw [follow, hspares.directory start hdirectory]
        dsimp only
        split at hfollow
        next hvoid =>
          rw [if_pos hvoid]
          exact ih hfollow
        next hmoves =>
          rw [if_neg hmoves]
          split at hfollow
          next hup =>
            rw [if_pos hup]
            exact ih hfollow
          next hdown =>
            rw [if_neg hdown]
            split at hfollow
            next => cases hfollow
            next hshort =>
              rw [if_neg hshort]
              exact ih hfollow
      next => cases hfollow
      next =>
        -- nothing was there, and only slashes follow
        split at hfollow
        next hslashes =>
          cases hfollow
          exact follow_slashes hentry (by simpa using hslashes)
        next => cases hfollow

theorem isDirectory_iff :
    tree.isDirectory path = true ↔ ∃ name, tree.resolve path = .ok (.present name .directory) := by
  unfold isDirectory find
  cases tree.resolve path with
  | error fault => simp
  | ok target =>
      cases target with
      | absent name => simp
      | present name entry => cases entry <;> simp

theorem Spares.isDirectory_of_resolve (hspares : tree.Spares changed) {target : Target}
    (hresolve : tree.resolve path = .ok target)
    (hentry : changed.entry? target.name = some .directory) : changed.isDirectory path = true := by
  unfold resolve at hresolve
  split at hresolve
  · cases hresolve
  next hfault =>
    have hstart : changed.startOf path = tree.startOf path := by
      rw [startOf, startOf, hspares.workDir_eq]
    refine isDirectory_iff.mpr ⟨target.name, ?_⟩
    rw [resolve, hfault, hstart]
    exact hspares.follow_eq hresolve hentry

/-- Where no directory is lost, a directory is still found by its path. -/
theorem Spares.isDirectory (hspares : tree.Spares changed)
    (hdirectory : tree.isDirectory path = true) : changed.isDirectory path = true := by
  obtain ⟨name, hresolve⟩ := isDirectory_iff.mp hdirectory
  exact hspares.isDirectory_of_resolve hresolve
    (hspares.directory name (entry_of_resolve hresolve))

/-! ## Directories that were made -/

theorem isDirectory_of_makeDirectory (hmade : tree.makeDirectory path = .ok made) :
    made.isDirectory path = true := by
  unfold makeDirectory at hmade
  split at hmade
  · cases hmade
  · cases hmade
  next name hresolve =>
    cases hmade
    have hfree : tree.entry? name = none := entry_of_resolve hresolve
    have hname : name ≠ [] := by
      rintro rfl
      cases hfree
    have hspares : tree.Spares (tree.add name .directory) :=
      spares_add (by rw [hfree]; exact nofun) _
    exact hspares.isDirectory_of_resolve hresolve (entry_add_self tree hname _)

/-- A directory that was made is there, unless its path is empty. -/
theorem isDirectory_of_makeFirst {above : List String} (hpath : path ≠ "")
    (hmade : tree.makeFirst (path :: above) = .ok made) : made.isDirectory path = true := by
  rw [makeFirst, if_neg (by simpa using hpath)] at hmade
  split at hmade
  next hdirectory =>
    cases hmade
    exact isDirectory_of_makeDirectory hdirectory
  next =>
    split at hmade
    · cases hmade
    · split at hmade
      next hdirectory =>
        cases hmade
        exact isDirectory_of_makeDirectory hdirectory
      next =>
        split at hmade <;> cases hmade
        assumption
  next =>
    split at hmade <;> cases hmade
    assumption

/-- A directory that is there need not be made. -/
theorem makeFirst_of_isDirectory {above : List String} (hdirectory : tree.isDirectory path = true) :
    tree.makeFirst (path :: above) = .ok tree := by
  obtain ⟨name, hresolve⟩ := isDirectory_iff.mp hdirectory
  rw [makeFirst, makeDirectory, hresolve]
  simp [hdirectory]

/-- The directory in which a path stands is there. -/
def ParentMade (tree : FileTree) (path : String) : Prop :=
  ∀ dir, Path.parent? path = some dir → dir = "" ∨ tree.isDirectory dir = true

theorem parentMade_of_makeParent (hmade : tree.makeParent path = .ok made) :
    made.ParentMade path := by
  intro dir hdir
  by_cases hempty : dir = ""
  · exact .inl hempty
  · rw [makeParent, hdir] at hmade
    dsimp only at hmade
    split at hmade
    · cases hmade
    next hmakes =>
      cases hmade
      exact .inr (isDirectory_of_makeFirst hempty hmakes)

theorem ParentMade.makeParent_eq (hparent : tree.ParentMade path) :
    tree.makeParent path = .ok tree := by
  cases hdir : Path.parent? path with
  | none => rw [makeParent, hdir]
  | some dir =>
      have hmakes : tree.makeDirectories dir = .ok tree := by
        rw [makeDirectories, Path.ancestors]
        rcases hparent dir hdir with rfl | hdirectory
        · rfl
        · exact makeFirst_of_isDirectory hdirectory
      simp only [makeParent, hdir, hmakes]

/-! ## Stores on disk -/

/-- A store stands at a path, in a directory that was made for it. -/
structure Holds (tree : FileTree) (path : String) (store : Store) : Prop where
  parentMade : tree.ParentMade path
  found : ∃ name, tree.storeAt? path = some (name, store)

/-- The place of a store can hold another one. -/
theorem holds_put (hparent : tree.ParentMade path)
    (hstore : tree.storeAt? path = some (name, store)) (new : Store) :
    (tree.put name (.store new)).Holds path new where
  parentMade := by
    obtain ⟨target, hresolve, rfl, hplain⟩ := exists_target_of_storeAt? hstore
    rw [← entry_of_resolve hresolve] at hplain
    exact fun dir hdir => (hparent dir hdir).imp_right (spares_put hplain _).isDirectory
  found := ⟨name, storeAt?_put hstore new⟩

theorem holds_of_openStore (hpath : path ∉ passingStores)
    (hopen : tree.openStore path = .done (store, made)) : made.Holds path store := by
  unfold openStore at hopen
  split at hopen
  · cases hopen
  next above habove =>
    rw [if_neg (by simpa using hpath)] at hopen
    split at hopen
    · cases hopen
    next name old hold =>
      split at hopen
      · cases hopen
      next =>
        cases hopen
        exact holds_put (parentMade_of_makeParent habove) hold _

theorem Holds.writeStore (hholds : tree.Holds path store) (hpath : path ∉ passingStores)
    (new : Store) : (tree.writeStore path new).Holds path new := by
  obtain ⟨hparent, name, hstore⟩ := hholds
  rw [FileTree.writeStore, if_neg (by simpa using hpath), hstore]
  exact holds_put hparent hstore new

/-- A store that lacks nothing is opened as it is. -/
theorem Holds.openStore_eq (hholds : tree.Holds path store) (hpath : path ∉ passingStores)
    (hcomplete : store.setUp? = some store) :
    ∃ opened, tree.openStore path = .done (store, opened) := by
  obtain ⟨hparent, name, hstore⟩ := hholds
  refine ⟨tree.put name (.store store), ?_⟩
  rw [openStore, hparent.makeParent_eq]
  simp only [hstore, hcomplete]
  rw [if_neg (by simpa using hpath)]

end FileTree
end SourceIndex
