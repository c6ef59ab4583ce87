import SourceIndex.Proofs.FileTree
import SourceIndex.Proofs.Path
import SourceIndex.Store.File

/-!
# Stores are found where they were written

A path that leads to a store, or to where one can be made, leads to the same name after a store
was put there (`FileTree.storeAt?_put`).  So what is written to an opened store is found again at
its path (`FileTree.storeAt?_writeStore`).

The two texts that name passing stores are NOT such paths: what is written to a passing store is
gone.  An absolute path is neither of them.
-/

namespace SourceIndex

namespace Path

/-- A normal form with a name in it ends in that name. -/
theorem endsInName_render (rooted : Bool) {names : List String}
    (hnames : ∀ name ∈ names, IsStep name) (hne : names ≠ []) :
    EndsInName (render rooted names) := by
  have hsegments : segments (String.intercalate "/" names) = names :=
    segments_intercalate (fun name hname => (hnames name hname).slashless) hne
  have hlast : (segments (render rooted names)).getLast? = names.getLast? := by
    cases rooted with
    | false => rw [render, if_neg (by simp), String.empty_append, hsegments]
    | true =>
        rw [render, if_pos rfl, segments_slash_append, hsegments]
        obtain ⟨name, rest, rfl⟩ := List.exists_cons_of_ne_nil hne
        rw [List.getLast?_cons_cons]
  rw [EndsInName, hlast]
  intro hempty
  exact (hnames "" (List.mem_of_getLast? hempty)).ne_empty rfl

/-- A normal form ends in a name, or there is nothing in it. -/
theorem endsInName_normalize (path : String) :
    EndsInName (normalize path) ∨ normalize path = "/" ∨ normalize path = "" := by
  by_cases hnames : ((steps path).foldl (resolveStep (isAbsolute path)) []).reverse = []
  · rw [normalize, hnames]
    cases isAbsolute path with
    | true => exact .inr (.inl rfl)
    | false => exact .inr (.inr rfl)
  · exact .inl (endsInName_render _ (fun name hname =>
      (settled_resolved _ path).isStep name (List.mem_reverse.mp hname)) hnames)

/-- The parent of an absolute path is absolute. -/
theorem isAbsolute_of_parent? {path up : String} (hpath : isAbsolute path = true)
    (hup : parent? path = some up) : isAbsolute up = true := by
  obtain ⟨rest, hrest⟩ : ∃ rest, path.toList = '/' :: rest := by
    cases hchars : path.toList with
    | nil => simp [isAbsolute, hchars] at hpath
    | cons c rest => exact ⟨rest, by simpa [isAbsolute, hchars] using hpath⟩
  rw [parent?, hrest, splitLead] at hup
  dsimp only at hup
  split at hup
  · cases hup
  · cases hup
    simp [isAbsolute]

theorem isAbsolute_of_mem_parents {count : Nat} {path up : String}
    (hpath : isAbsolute path = true) (hup : up ∈ parents count path) : isAbsolute up = true := by
  induction count generalizing path with
  | zero => cases hup
  | succ count ih =>
      rw [parents] at hup
      split at hup
      · cases hup
      next next hnext =>
        have hnextAbsolute := isAbsolute_of_parent? hpath hnext
        rcases List.mem_cons.mp hup with rfl | hlater
        · exact hnextAbsolute
        · exact ih hnextAbsolute hlater

theorem isAbsolute_of_mem_ancestors {path up : String} (hpath : isAbsolute path = true)
    (hup : up ∈ ancestors path) : isAbsolute up = true := by
  rcases List.mem_cons.mp hup with rfl | hlater
  · exact hpath
  · exact isAbsolute_of_mem_parents hpath hlater

end Path

namespace FileTree

/-- A path that leads to a store, or to where one can be made. -/
theorem exists_target_of_storeAt? {tree : FileTree} {path : String} {name : List String}
    {store : Store} (hstore : tree.storeAt? path = some (name, store)) :
    ∃ target : Target, tree.resolve (Path.normalize path) = .ok target ∧ target.name = name ∧
      target.found? ≠ some .directory := by
  unfold storeAt? at hstore
  split at hstore
  next hresolve =>
    cases hstore
    exact ⟨_, hresolve, rfl, by nofun⟩
  next hresolve =>
    cases hstore
    exact ⟨_, hresolve, rfl, by nofun⟩
  next hresolve =>
    cases hstore
    exact ⟨_, hresolve, rfl, by nofun⟩
  next => cases hstore

/-- The path of a store ends in a name: the top is a directory, and the empty text is no path. -/
theorem endsInName_of_storeAt? {tree : FileTree} {path : String} {name : List String}
    {store : Store} (hstore : tree.storeAt? path = some (name, store)) :
    Path.EndsInName (Path.normalize path) := by
  obtain ⟨target, hresolve, -, hplain⟩ := exists_target_of_storeAt? hstore
  obtain hlast | htop | hempty := Path.endsInName_normalize path
  · exact hlast
  · have hdirectory : tree.resolve "/" = .ok (.present [] .directory) := rfl
    rw [htop, hdirectory] at hresolve
    cases hresolve
    exact absurd rfl hplain
  · have hnothing : tree.resolve "" = .error .notFound := rfl
    rw [hempty, hnothing] at hresolve
    cases hresolve

theorem storeAt?_put {tree : FileTree} {path : String} {name : List String} {store : Store}
    (hstore : tree.storeAt? path = some (name, store)) (new : Store) :
    (tree.put name (.store new)).storeAt? path = some (name, new) := by
  have hlast := endsInName_of_storeAt? hstore
  obtain ⟨target, hresolve, rfl, hplain⟩ := exists_target_of_storeAt? hstore
  rw [resolve] at hresolve
  split at hresolve
  · cases hresolve
  next hfault =>
    have hentry := entry_of_follow hresolve
    have hname : target.name ≠ [] := by
      intro htop
      rw [htop] at hentry
      exact hplain (hentry ▸ rfl)
    -- nothing but a store or an empty file gives way, so no directory is lost
    have hdirs : ∀ dir, tree.entry? dir = some .directory →
        FileTree.entry? (tree.put target.name (.store new)) dir = some .directory := by
      intro dir hdir
      rw [entry_put_of_ne tree fun hsame => hplain (by rw [← hentry, ← hsame, hdir])]
      exact hdir
    have hfound := follow_of_directories hresolve hlast hdirs
      (entry_put_self tree hname (.store new))
    have hagain : (tree.put target.name (.store new)).resolve (Path.normalize path) =
        .ok (.present target.name (.store new)) := by
      rw [resolve, hfault]
      exact hfound
    rw [storeAt?, hagain]

/-- What is written to a store is found at its path. -/
theorem storeAt?_writeStore {tree : FileTree} {path : String} {name : List String}
    {store : Store} (hpath : path ∉ passingStores)
    (hstore : tree.storeAt? path = some (name, store)) (new : Store) :
    (tree.writeStore path new).storeAt? path = some (name, new) := by
  rw [writeStore, if_neg (by simpa using hpath), hstore]
  exact storeAt?_put hstore new

/-- A store that was opened is found at its path. -/
theorem exists_storeAt?_of_openStore {tree made : FileTree} {path : String} {store : Store}
    (hpath : path ∉ passingStores) (hopen : tree.openStore path = .done (store, made)) :
    ∃ name, made.storeAt? path = some (name, store) := by
  unfold openStore at hopen
  split at hopen
  · cases hopen
  next above habove =>
    rw [if_neg (by simpa using hpath)] at hopen
    split at hopen
    · cases hopen
    next name old hold =>
      split at hopen
      · cases hopen
      next =>
        cases hopen
        exact ⟨name, storeAt?_put hold _⟩

theorem notMem_passingStores {path : String} (hpath : Path.isAbsolute path = true) :
    path ∉ passingStores := by
  intro hmem
  have hrelative : ∀ name ∈ passingStores, Path.isAbsolute name = false := by decide
  rw [hrelative path hmem] at hpath
  cases hpath

end FileTree
end SourceIndex
