import SourceIndex.FileTree

/-!
# Files are read as they were written

A write changes what stands under one name, and no directory is lost by it
(`FileTree.write_cases`).  So a path that led to the name leads there still
(`FileTree.follow_of_directories`).

This is NOT so for a path that ends in a slash: in a tree in which a directory is
missing on the way, such a path can be written once and then leads to a file where
it asks for a directory.  The statement is about paths that end in a name.

A path that goes on behind a directory leads on from there (`FileTree.follow_append`).

A path that leads to a name where nothing stands is `FileTree.Vacant`.  A file can be
made there, written again, read and taken away, and then the tree is what it was.
-/

namespace SourceIndex

/-! ## The last segment of a path -/

namespace Path

/-- The last segment of a path is not empty, so no slash ends it. -/
def EndsInName (path : String) : Prop :=
  (segments path).getLast? ≠ some ""

theorem splitSegments_ne_nil (current chars : List Char) : splitSegments current chars ≠ [] := by
  induction chars generalizing current with
  | nil => simp [splitSegments]
  | cons c rest ih =>
      by_cases hslash : c = '/'
      · subst hslash
        simp [splitSegments]
      · rw [splitSegments]
        · exact ih (c :: current)
        · exact hslash

theorem getLast?_splitSegments {last : Char} (hlast : last ≠ '/') (current front : List Char) :
    (splitSegments current (front ++ [last])).getLast? ≠ some "" := by
  induction front generalizing current with
  | nil =>
      have hsplit : splitSegments current [last] = [String.ofList (last :: current).reverse] := by
        rw [splitSegments, splitSegments]
        exact hlast
      intro hempty
      rw [List.nil_append, hsplit, List.getLast?_singleton, Option.some.injEq] at hempty
      have hlist := congrArg String.toList hempty
      simp at hlist
  | cons c front ih =>
      by_cases hslash : c = '/'
      · subst hslash
        obtain ⟨segment, rest, hsplit⟩ :=
          List.exists_cons_of_ne_nil (splitSegments_ne_nil [] (front ++ [last]))
        rw [List.cons_append, splitSegments, hsplit, List.getLast?_cons_cons, ← hsplit]
        exact ih []
      · rw [List.cons_append, splitSegments]
        · exact ih (c :: current)
        · exact hslash

theorem EndsInName.of_append {path : String} {front : List Char} {last : Char}
    (hpath : path.toList = front ++ [last]) (hlast : last ≠ '/') : EndsInName path := by
  rw [EndsInName, segments, hpath]
  exact getLast?_splitSegments hlast [] front

/-- A joined path ends in what was joined last. -/
theorem exists_toList_join (base path : String) :
    ∃ front, (join base path).toList = front ++ path.toList := by
  unfold join
  split
  · exact ⟨[], rfl⟩
  · split
    · exact ⟨[], rfl⟩
    · exact ⟨base.toList, by simp⟩
    · exact ⟨base.toList ++ ['/'], by simp⟩

end Path

namespace FileTree

/-! ## Entries -/

theorem lookup_eraseP_of_ne {entries : List (List String × Entry)} {name other : List String}
    (hne : other ≠ name) :
    (entries.eraseP fun found => found.1 == name).lookup other = entries.lookup other := by
  induction entries with
  | nil => rfl
  | cons entry rest ih =>
      obtain ⟨found, value⟩ := entry
      by_cases hfound : found = name
      · subst hfound
        have hbeq : (other == found) = false := by simpa using hne
        simp [List.lookup_cons, hbeq]
      · have hbeq : (found == name) = false := by simpa using hfound
        rw [List.eraseP_cons_of_neg (by simp [hbeq]), List.lookup_cons, List.lookup_cons, ih]

theorem entry_add_self (tree : FileTree) {name : List String} (hname : name ≠ [])
    (entry : Entry) : FileTree.entry? (tree.add name entry) name = some entry := by
  simp [ entry?, add, hname]

theorem entry_add_of_ne (tree : FileTree) {name other : List String} (hne : other ≠ name)
    (entry : Entry) : FileTree.entry? (tree.add name entry) other = tree.entry? other := by
  have hbeq : (other == name) = false := by simpa using hne
  simp [ entry?, add, List.lookup_cons, hbeq]

theorem entry_put_self (tree : FileTree) {name : List String} (hname : name ≠ [])
    (entry : Entry) : FileTree.entry? (tree.put name entry) name = some entry :=
  entry_add_self _ hname entry

theorem entry_put_of_ne (tree : FileTree) {name other : List String} (hne : other ≠ name)
    (entry : Entry) : FileTree.entry? (tree.put name entry) other = tree.entry? other := by
  rw [put, entry_add_of_ne _ hne]
  simp [ entry?, erase, lookup_eraseP_of_ne hne]

/-! ## Ways through a tree -/

/-- The name a path leads to. -/
def Target.name : Target → List String
  | .present name _ | .absent name => name

/-- What stands there. -/
def Target.found? : Target → Option Entry
  | .present _ entry => some entry
  | .absent _ => none

theorem entry_of_follow {tree : FileTree} {start segments : List String} {target : Target}
    (hfollow : tree.follow start segments = .ok target) :
    tree.entry? target.name = target.found? := by
  induction segments generalizing start with
  | nil =>
      rw [follow] at hfollow
      split at hfollow <;> cases hfollow <;> assumption
  | cons segment rest ih =>
      rw [follow] at hfollow
      split at hfollow
      · split at hfollow
        · exact ih hfollow
        split at hfollow
        · exact ih hfollow
        split at hfollow
        · cases hfollow
        · exact ih hfollow
      · cases hfollow
      next hnone =>
        split at hfollow
        · cases hfollow
          exact hnone
        · cases hfollow

/-- Where no directory is lost, a path that ends in a name leads to the same name
as before. -/
theorem follow_of_directories {tree changed : FileTree} {start segments : List String}
    {target : Target} {entry : Entry} (hfollow : tree.follow start segments = .ok target)
    (hlast : segments.getLast? ≠ some "")
    (hdirs : ∀ name, tree.entry? name = some .directory → changed.entry? name = some .directory)
    (hentry : changed.entry? target.name = some entry) :
    changed.follow start segments = .ok (.present target.name entry) := by
  induction segments generalizing start with
  | nil =>
      have hname : target.name = start := by
        rw [follow] at hfollow
        split at hfollow <;> cases hfollow <;> rfl
      rw [hname] at hentry ⊢
      rw [follow, hentry]
  | cons segment rest ih =>
      have hrest : rest.getLast? ≠ some "" := by
        cases rest with
        | nil => simp
        | cons next later => simpa using hlast
      rw [follow] at hfollow
      split at hfollow
      next hdirectory =>
        rw [follow, hdirs start hdirectory]
        dsimp only
        split at hfollow
        next hvoid =>
          rw [if_pos hvoid]
          exact ih hfollow hrest
        next hmoves =>
          rw [if_neg hmoves]
          split at hfollow
          next hup =>
            rw [if_pos hup]
            exact ih hfollow hrest
          next hdown =>
            rw [if_neg hdown]
            split at hfollow
            next => cases hfollow
            next hshort =>
              rw [if_neg hshort]
              exact ih hfollow hrest
      next => cases hfollow
      next =>
        split at hfollow
        next hvoid =>
          -- only slashes follow the missing name, but the path ends in a name
          have hmem : (segment :: rest).getLast (by simp) ∈ segment :: rest :=
            List.getLast_mem _
          have hempty := List.all_eq_true.mp hvoid _ hmem
          rw [List.getLast?_eq_some_getLast (by simp)] at hlast
          exact absurd (by simpa using hempty) hlast
        next => cases hfollow

section Onward

variable {tree : FileTree} {start name way : List String} {segment : String} {entry : Entry}

/-- Each segment of a path that leads to something leads on from a directory, whatever comes
behind it. -/
theorem exists_next {rest : List String}
    (hway : tree.follow start (segment :: rest) = .ok (.present name entry)) :
    ∃ next, ∀ more, tree.follow start (segment :: more) = tree.follow next more := by
  rw [follow] at hway
  split at hway
  next hdirectory =>
    by_cases hvoid : Path.isVoid segment = true
    · exact ⟨start, fun more => by rw [follow, hdirectory]; simp only [if_pos hvoid]⟩
    by_cases hup : (segment == "..") = true
    · exact ⟨start.dropLast, fun more => by
        rw [follow, hdirectory]
        simp only [if_neg hvoid, if_pos hup]⟩
    · rw [if_neg hvoid, if_neg hup] at hway
      split at hway
      · cases hway
      next hshort =>
        exact ⟨start ++ [segment], fun more => by
          rw [follow, hdirectory]
          simp only [if_neg hvoid, if_neg hup, if_neg hshort]⟩
  next => cases hway
  next => split at hway <;> cases hway

/-- A path goes on from the directory that its first part leads to. -/
theorem follow_append (hway : tree.follow start way = .ok (.present name .directory))
    (rest : List String) : tree.follow start (way ++ rest) = tree.follow name rest := by
  induction way generalizing start with
  | nil =>
      rw [follow] at hway
      split at hway <;> cases hway
      rfl
  | cons segment later ih =>
      obtain ⟨next, hnext⟩ := exists_next hway
      rw [hnext] at hway
      rw [List.cons_append, hnext]
      exact ih hway

/-- A slash behind a directory does not matter. -/
theorem follow_of_slashed
    (hway : tree.follow start (way ++ [""]) = .ok (.present name .directory)) :
    tree.follow start way = .ok (.present name .directory) := by
  induction way generalizing start with
  | nil =>
      rw [List.nil_append, follow] at hway
      split at hway
      · exact hway
      · cases hway
      · split at hway <;> cases hway
  | cons segment later ih =>
      obtain ⟨next, hnext⟩ := exists_next hway
      rw [List.cons_append, hnext] at hway
      rw [hnext]
      exact ih hway

/-- One name leads on from a directory, if it is no longer than names can be. -/
theorem follow_singleton (hdirectory : tree.entry? name = some .directory)
    (hmoves : Path.isVoid segment = false) (hdown : segment ≠ "..") :
    tree.follow name [segment] =
      if maxNameSize < segment.utf8ByteSize then .error .nameTooLong
      else tree.follow (name ++ [segment]) [] := by
  conv =>
    lhs
    rw [follow, hdirectory]
  simp [hmoves, hdown]

end Onward

/-! ## Writing -/

/-- A path that can be written is looked up as it is for reading. -/
theorem follow_of_resolveForWriting {tree : FileTree} {path : String} {target : Target}
    (hresolved : tree.resolveForWriting path = .ok target) :
    pathFault? path = none ∧
      tree.follow (tree.startOf path) (Path.segments path) = .ok target := by
  rw [resolveForWriting] at hresolved
  split at hresolved
  · cases hresolved
  next hpath =>
    split at hresolved
    · exact ⟨hpath, hresolved⟩
    · split at hresolved <;> cases hresolved

theorem resolveForWriting_of_endsInName {path : String} (hname : Path.EndsInName path)
    (tree : FileTree) : tree.resolveForWriting path = tree.resolve path := by
  have hplain : Path.aroundSlashed? path = none := by
    rw [Path.aroundSlashed?]
    split
    next hlast => exact absurd (by rw [← List.head?_reverse, hlast]; rfl) hname
    next => rfl
  rw [resolveForWriting, resolve, hplain]

/-- A write puts a file under the name that its path leads to, where no directory
was. -/
theorem write_cases {tree written : FileTree} {path : String} {content : Bytes}
    (hwrite : tree.write path content = .ok written) :
    ∃ target : Target, pathFault? path = none ∧
      tree.follow (tree.startOf path) (Path.segments path) = .ok target ∧
      written.entry? target.name = some (.file content) ∧
      written.startOf path = tree.startOf path ∧
      ∀ name, tree.entry? name = some .directory → written.entry? name = some .directory := by
  obtain ⟨target, htarget⟩ : ∃ target, tree.resolveForWriting path = .ok target := by
    unfold write at hwrite
    cases hresolved : tree.resolveForWriting path with
    | error fault =>
        rw [hresolved] at hwrite
        cases hwrite
    | ok target => exact ⟨target, rfl⟩
  obtain ⟨hpath, hfollow⟩ := follow_of_resolveForWriting htarget
  -- what stands under the name tells whether the write replaces or adds an entry
  have hentry := entry_of_follow hfollow
  rw [write, htarget] at hwrite
  -- the top is a directory, so a file never takes its place
  have htop : ∀ name, tree.entry? name ≠ some .directory → name ≠ [] := by
    intro name hplain htop
    exact hplain (by simp [ entry?, htop])
  refine ⟨target, hpath, hfollow, ?_⟩
  cases target with
  | absent name =>
      have hfree : tree.entry? name ≠ some .directory := by
        rw [show tree.entry? name = none from hentry]
        exact nofun
      cases hwrite
      refine ⟨entry_add_self _ (htop name hfree) _, rfl, fun dir hdir => ?_⟩
      have hne : dir ≠ name := fun heq => hfree (heq ▸ hdir)
      rw [entry_add_of_ne tree hne]
      exact hdir
  | present name entry =>
      have hplain : tree.entry? name ≠ some .directory := by
        rw [show tree.entry? name = some entry from hentry]
        rintro ⟨⟩
        cases hwrite
      have hput : written = tree.put name (.file content) := by
        cases entry <;> cases hwrite <;> rfl
      subst hput
      refine ⟨entry_put_self _ (htop name hplain) _, rfl, fun dir hdir => ?_⟩
      have hne : dir ≠ name := fun heq => hplain (heq ▸ hdir)
      rw [entry_put_of_ne tree hne]
      exact hdir

/-! ## Files that come and go -/

@[simp] theorem erase_add (tree : FileTree) (name : List String) (entry : Entry) :
    (tree.add name entry).erase name = tree := by
  simp [erase, add]

@[simp] theorem put_add (tree : FileTree) (name : List String) (entry other : Entry) :
    (tree.add name entry).put name other = tree.add name other := by
  rw [put, erase_add]

/-- A path leads to a name under which there is nothing but a file to be added. -/
def Vacant (tree : FileTree) (path : String) (name : List String) : Prop :=
  ∀ content, (tree.add name (.file content)).resolve path = .ok (.present name (.file content)) ∧
    (tree.add name (.file content)).resolveForWriting path = .ok (.present name (.file content))

/-- Where nothing was, a write adds a file. -/
theorem exists_vacant_of_write {tree written : FileTree} {path : String} {content : Bytes}
    (hname : Path.EndsInName path) (hfree : tree.exists path = false)
    (hwrite : tree.write path content = .ok written) :
    ∃ name, tree.Vacant path name ∧ written = tree.add name (.file content) := by
  cases htarget : tree.resolveForWriting path with
  | error fault =>
      rw [write, htarget] at hwrite
      cases hwrite
  | ok target =>
      obtain ⟨hpath, hfollow⟩ := follow_of_resolveForWriting htarget
      cases target with
      | present name entry =>
          rw [FileTree.exists, find, resolve, hpath] at hfree
          simp [hfollow] at hfree
      | absent name =>
          have hadded : ∀ content, tree.write path content = .ok (tree.add name (.file content)) :=
            fun content => by rw [write, htarget]
          refine ⟨name, fun content => ?_, by rw [hadded] at hwrite; cases hwrite; rfl⟩
          obtain ⟨target, -, hsame, hfile, hstart, hdirs⟩ := write_cases (hadded content)
          obtain rfl : target = .absent name := by
            rw [hfollow] at hsame
            cases hsame
            rfl
          have hfound := follow_of_directories hfollow hname hdirs hfile
          rw [← hstart] at hfound
          refine ⟨by rw [resolve, hpath]; exact hfound, ?_⟩
          rw [resolveForWriting_of_endsInName hname, resolve, hpath]
          exact hfound

namespace Vacant

variable {tree : FileTree} {path : String} {name : List String}

theorem write_add (hvacant : tree.Vacant path name) (content other : Bytes) :
    (tree.add name (.file content)).write path other = .ok (tree.add name (.file other)) := by
  rw [write, (hvacant content).2]
  simp

theorem read_add (hvacant : tree.Vacant path name) (content : Bytes) :
    (tree.add name (.file content)).read path = .ok content := by
  simp [read, find, (hvacant content).1]

theorem remove_add (hvacant : tree.Vacant path name) (content : Bytes) :
    (tree.add name (.file content)).remove path = .ok tree := by
  simp [remove, find, (hvacant content).1]

end Vacant
end FileTree
end SourceIndex
