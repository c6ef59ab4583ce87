import SourceIndex.Pipeline.Index
import SourceIndex.Proofs.Parse.Preorder
import SourceIndex.Proofs.Pipeline.Unit
import SourceIndex.Proofs.Record.Extract
import SourceIndex.Proofs.Record.Tally
import SourceIndex.Proofs.Store.Slot

/-!
# Stored values agree with their trees

A stored value is coherent if it holds a record, the record holds a saved tree
whose links are sound, and extracting from that tree gives the record again.  A
value that is decodable but not coherent would stay in a cache for good, because a
file with such a value is never parsed again.

Only a parse makes records, and what it makes is coherent as long as the sizes fit
the format (`Indexer.parseStep_sound`).  So no step of a file puts anything else
into a cache (`Indexer.advanceBy_holds`, for any cache), and a store that was set
up empty holds coherent values only after any calls
(`Store.afterCalls_coherent`).

The files, the grammars, the options and the tally may change between two calls in
any way: nothing is assumed about what happens there, except to the store.
-/

namespace SourceIndex

open Wire (ShortText sizeLimit)

/-- A stored value holds a record that is what its own saved tree gives. -/
def Coherent (value : Bytes) : Prop :=
  ∃ record tree, Record.ofBytes value = .ok record ∧
    CursorTree.ofBytes record.savedTree = .ok tree ∧
    ∀ tally, ∃ after, extract tree record.path record.flags tally =
      ({ record := { record with savedTree := [] }, tally := after }, .finished)

/-- The sizes of a job fit the format: the path, each flag, and for the tree that
the file has, if any, the number of cursors, the texts and the saved form. -/
structure Job.Fits (job : Job) (grammars : Grammars) (files : FileTree) (options : ParseOptions) :
    Prop where
  file : ShortText job.file
  flags : ∀ flag ∈ job.flags, ShortText flag
  flagCount : job.flags.length < sizeLimit
  tree : ∀ tree, parseFile grammars files job.file job.flags options = .ok tree →
    tree.size < sizeLimit ∧ (∀ text ∈ tree.texts, ShortText text) ∧
      tree.toBytes.length < sizeLimit

instance (job : Job) (grammars : Grammars) (files : FileTree) (options : ParseOptions) :
    Decidable (job.Fits grammars files options) :=
  decidable_of_iff
    (ShortText job.file ∧ (∀ flag ∈ job.flags, ShortText flag) ∧ job.flags.length < sizeLimit ∧
      ∀ tree ∈ (parseFile grammars files job.file job.flags options).toOption,
        tree.size < sizeLimit ∧ (∀ text ∈ tree.texts, ShortText text) ∧
          tree.toBytes.length < sizeLimit)
    ⟨fun ⟨hfile, hflags, hcount, htree⟩ =>
        ⟨hfile, hflags, hcount, fun tree hparse => htree tree (by simp [hparse, Except.toOption])⟩,
      fun hfits => ⟨hfits.file, hfits.flags, hfits.flagCount, fun tree htree => by
        cases hparse : parseFile grammars files job.file job.flags options with
        | error fault => simp [hparse, Except.toOption] at htree
        | ok parsed =>
            have hsame : parsed = tree := by simpa [hparse, Except.toOption] using htree
            exact hfits.tree tree (hsame ▸ hparse)⟩⟩

/-! ## Records of parsed files -/

/-- Child lists of a tree in pre-order are no longer than the tree. -/
theorem CursorTree.Preordered.fits {tree : CursorTree} (hpre : tree.Preordered)
    (hlinked : tree.WellLinked) (hsize : tree.size < sizeLimit)
    (htexts : ∀ text ∈ tree.texts, ShortText text) : tree.Fits where
  texts := htexts
  size := hsize
  children := by
    intro node hnode
    -- one child list is a part of all of them, and these have no position twice
    have hsub : node.children.toList.Sublist tree.childLinks := by
      rw [CursorTree.childLinks, List.flatMap_def]
      exact List.sublist_flatten_of_mem (List.mem_map_of_mem hnode)
    have hroot : 0 < tree.size := Array.size_pos_iff.mpr hlinked.nonempty
    have hlength := hsub.length_le
    rw [(hpre.childLinks_perm hroot).length_eq, List.length_range', Array.length_toList] at hlength
    omega
  links := fun node hnode target htarget =>
    Nat.lt_trans (hlinked.targets node hnode target htarget) hsize

/-- What is stored for a parsed file is coherent. -/
theorem coherent_of_parseFile {grammars : Grammars} {files : FileTree} {job : Job}
    {options : ParseOptions} {tree : CursorTree} (hfits : job.Fits grammars files options)
    (hparse : parseFile grammars files job.file job.flags options = .ok tree)
    (tally : Option Tally) :
    Coherent ({ (extract tree job.file job.flags tally).1.record with
      savedTree := tree.toBytes } : Record).toBytes := by
  obtain ⟨hpre, hlinked⟩ := parseFile_preordered hparse
  obtain ⟨hsize, htexts, hsaved⟩ := hfits.tree tree hparse
  have hgathered := extract_gathered hpre hlinked job.file job.flags tally
  have hrecord := Record.ofBytes_toBytes_append
    (fits_extract hpre hlinked hsize htexts hfits.file hfits.flags hfits.flagCount tally hsaved) []
  have htree := CursorTree.ofBytes_toBytes_eq (hpre.fits hlinked hsize htexts) []
  rw [List.append_nil, (CursorTree.linkFault?_eq_none_iff tree).mpr hlinked] at htree
  rw [List.append_nil] at hrecord
  refine ⟨_, tree, hrecord, htree, fun later => ?_⟩
  have hagain := (extract_alike tree job.file job.flags later tally).1
  have hend : (extract tree job.file job.flags later).2 = .finished := by
    rw [extract_eq hpre hlinked]
  -- an extraction never sets the saved tree, so emptying it gives the extracted record
  generalize (extract tree job.file job.flags tally).1.record = found at hgathered hagain
  have hemptied : ({ found with savedTree := [] } : Record) = found := by
    rw [← hgathered.savedTree_eq]
  change ∃ after, extract tree found.path found.flags later =
    ({ record := { found with savedTree := [] }, tally := after }, .finished)
  rw [hemptied, hgathered.path_eq, hgathered.flags_eq, ← hagain, ← hend]
  exact ⟨_, rfl⟩

/-! ## Steps of a file -/

namespace Indexer

variable {σ : Type} {indexer : Indexer σ} {grammars : Grammars} {job : Job} {files : FileTree}

/-- How far a file has come from `files` on: before the parse nothing has touched
the files, and a record that is about to be written is coherent. -/
def Sound (files : FileTree) (state : IndexState σ) : IndexStage → Prop
  | .lookup _ | .fetch _ | .parse _ => state.files = files
  | .persist _ record => Coherent record.toBytes
  | .ended _ => True

theorem parseStep_sound (hparser : indexer.parser = .ofGrammars grammars)
    (hfits : job.Fits grammars files indexer.options.parsing) {state : IndexState σ}
    (hfiles : state.files = files) (key : CacheKey) :
    Sound files (indexer.parseStep state job key).2 (indexer.parseStep state job key).1 := by
  subst hfiles
  unfold parseStep
  dsimp only
  rw [hparser, UnitParser.ofGrammars]
  cases hparse : parseFile grammars state.files job.file job.flags indexer.options.parsing with
  | error fault => exact trivial
  | ok tree =>
      dsimp only
      obtain ⟨hpre, hlinked⟩ := parseFile_preordered hparse
      have hend : (extract tree job.file job.flags state.tally).2 = .finished := by
        rw [extract_eq hpre hlinked]
      rw [hend]
      unfold afterParse
      dsimp only
      cases hsaved : (serialize indexer.scratch state.files { tree }).1 with
      | done bytes =>
          rw [eq_toBytes_of_serialize hsaved]
          exact coherent_of_parseFile hfits hparse state.tally
      | failed fault => exact trivial
      | crashed => exact trivial

theorem lookupStep_sound {state : IndexState σ} (hfiles : state.files = files) (key : CacheKey) :
    Sound files state (indexer.lookupStep state key) := by
  unfold lookupStep
  split <;> exact hfiles

theorem fetchStep_sound {state : IndexState σ} (hfiles : state.files = files) (key : CacheKey) :
    Sound files (indexer.fetchStep state key).2 (indexer.fetchStep state key).1 := by
  unfold fetchStep
  split
  · exact hfiles
  split
  · exact hfiles
  -- a value that is a record ends the file, whether its tree can be restored or not
  dsimp only
  split <;> exact trivial

theorem firstStage_sound (state : IndexState σ) :
    Sound state.files state (indexer.firstStage state.files job) := by
  unfold firstStage
  split
  · exact trivial
  · exact rfl

theorem advance_sound (hparser : indexer.parser = .ofGrammars grammars)
    (hfits : job.Fits grammars files indexer.options.parsing) {stage : IndexStage}
    {state : IndexState σ} (hsound : Sound files state stage) :
    Sound files (indexer.advance job stage state).2 (indexer.advance job stage state).1 := by
  cases stage with
  | lookup key => exact lookupStep_sound hsound key
  | fetch key => exact fetchStep_sound hsound key
  | parse key => exact parseStep_sound hparser hfits hsound key
  | persist key record =>
      unfold advance persistStep
      dsimp only
      split <;> exact trivial
  | ended result => exact trivial

/-- A step leaves the cache alone or puts the record that is about to be written
there. -/
theorem advance_cache (indexer : Indexer σ) (job : Job) (stage : IndexStage)
    (state : IndexState σ) :
    (indexer.advance job stage state).2.cache = state.cache ∨
      ∃ key record, stage = .persist key record ∧
        indexer.cache.put state.cache key job.file record.toBytes =
          .ok (indexer.advance job stage state).2.cache := by
  cases stage with
  | lookup key => exact .inl rfl
  | fetch key =>
      refine .inl ?_
      unfold advance fetchStep
      dsimp only
      split
      · rfl
      split
      · rfl
      split <;> rfl
  | parse key =>
      refine .inl ?_
      unfold advance parseStep
      dsimp only
      split <;> rfl
  | persist key record =>
      unfold advance persistStep
      dsimp only
      cases hput : indexer.cache.put state.cache key job.file record.toBytes with
      | error fault => exact .inl rfl
      | ok cache => exact .inr ⟨key, record, rfl, hput⟩
  | ended result => exact .inl rfl

section Holds

-- what coherent values do not break in the caches of this indexer
variable {holds : σ → Prop}

theorem advanceBy_holds (hparser : indexer.parser = .ofGrammars grammars)
    (hfits : job.Fits grammars files indexer.options.parsing)
    (hput : ∀ cache after key path value, holds cache → Coherent value →
      indexer.cache.put cache key path value = .ok after → holds after)
    (steps : Nat) {stage : IndexStage} {state : IndexState σ} (hsound : Sound files state stage)
    (hholds : holds state.cache) :
    holds (indexer.advanceBy job steps stage state).2.cache := by
  induction steps generalizing stage state with
  | zero => exact hholds
  | succ steps ih =>
      have hnext : holds (indexer.advance job stage state).2.cache := by
        rcases indexer.advance_cache job stage state with hsame | ⟨key, record, rfl, hstored⟩
        · rw [hsame]
          exact hholds
        · exact hput _ _ key job.file _ hholds hsound hstored
      exact ih (advance_sound hparser hfits hsound) hnext

theorem indexFile_state (indexer : Indexer σ) (state : IndexState σ) (job : Job) :
    (indexer.indexFile state job).2 =
      (indexer.advanceBy job maxSteps (indexer.firstStage state.files job) state).2 := by
  unfold indexFile
  split
  next hended => rw [hended]
  next hother => rw [hother]

/-- Indexing a file keeps what coherent values do not break. -/
theorem indexFile_holds (hparser : indexer.parser = .ofGrammars grammars)
    {state : IndexState σ} (hfits : job.Fits grammars state.files indexer.options.parsing)
    (hput : ∀ cache after key path value, holds cache → Coherent value →
      indexer.cache.put cache key path value = .ok after → holds after)
    (hholds : holds state.cache) : holds (indexer.indexFile state job).2.cache := by
  rw [indexFile_state]
  exact advanceBy_holds hparser hfits hput maxSteps (firstStage_sound state) hholds

end Holds
end Indexer

/-! ## Calls on a store -/

/-- All that one call to index a file works with, except the store. -/
structure IndexCall where
  grammars : Grammars
  options : IndexOptions := {}
  scratch : Scratch := {}
  /-- The reading of the clock. -/
  now : Int := 0
  files : FileTree
  tally : Option Tally := none
  job : Job

namespace IndexCall

/-- The indexer of a call. -/
def indexer (call : IndexCall) : Indexer Store where
  parser := .ofGrammars call.grammars
  cache := .ofStore call.now
  options := call.options
  scratch := call.scratch

/-- The state a call starts in. -/
def start (call : IndexCall) (store : Store) : IndexState Store where
  files := call.files
  cache := store
  tally := call.tally

/-- Indexes the file of a call. -/
def perform (call : IndexCall) (store : Store) :
    Outcome IndexFault FileOutcome × IndexState Store :=
  call.indexer.indexFile (call.start store) call.job

/-- The sizes of a call fit the format. -/
def Fits (call : IndexCall) : Prop :=
  call.job.Fits call.grammars call.files call.options.parsing

instance (call : IndexCall) : Decidable call.Fits :=
  inferInstanceAs (Decidable (call.job.Fits _ _ _))

end IndexCall

namespace Store

/-- The values of a store. -/
def values (store : Store) : List Bytes :=
  (store.entries.getD []).map fun entry => entry.value

/-- The store after some calls, each of which may succeed or fail. -/
def afterCalls (store : Store) (calls : List IndexCall) : Store :=
  calls.foldl (fun store call => (call.perform store).2.cache) store

/-- All values of a store are coherent. -/
def AllCoherent (store : Store) : Prop :=
  ∀ value ∈ store.values, Coherent value

theorem allCoherent_fresh : fresh.AllCoherent := by
  intro value hvalue
  cases hvalue

theorem allCoherent_put {store after : Store} {key : CacheKey} {path : String} {value : Bytes}
    {now : Int} (hstore : store.AllCoherent) (hvalue : Coherent value)
    (hput : store.put key path value now = .ok after) : after.AllCoherent := by
  intro other hother
  obtain ⟨entry, hentry, rfl⟩ := List.mem_map.mp hother
  rcases (mem_of_put hput).2 entry hentry with hold | rfl
  · exact hstore entry.value (List.mem_map_of_mem hold)
  · exact hvalue

theorem allCoherent_perform {store : Store} (hstore : store.AllCoherent) {call : IndexCall}
    (hfits : call.Fits) : (call.perform store).2.cache.AllCoherent :=
  Indexer.indexFile_holds rfl hfits
    (fun _ _ _ _ _ hcache hvalue hput => allCoherent_put hcache hvalue hput) hstore

theorem allCoherent_afterCalls {store : Store} (hstore : store.AllCoherent)
    (calls : List IndexCall) (hfits : ∀ call ∈ calls, call.Fits) :
    (store.afterCalls calls).AllCoherent := by
  induction calls generalizing store with
  | nil => exact hstore
  | cons call rest ih =>
      refine ih (allCoherent_perform hstore (hfits call (by simp))) ?_
      exact fun later hlater => hfits later (by simp [hlater])

/-- A value that is found in a store is one of its values. -/
theorem mem_values_of_get {store : Store} {key : CacheKey} {value : Bytes}
    (hget : store.get key = .ok value) : value ∈ store.values := by
  unfold get at hget
  split at hget
  · cases hget
  next entries hentries =>
    split at hget
    · cases hget
    next entry hfound =>
      cases hget
      rw [values, hentries, Option.getD_some]
      exact List.mem_map_of_mem (List.mem_of_find?_eq_some hfound)

/-- A key that a store has can be fetched. -/
theorem exists_get_of_has {store : Store} {key : CacheKey} (hhas : store.has key = .ok true) :
    ∃ value, store.get key = .ok value := by
  unfold has at hhas
  split at hhas
  · cases hhas
  next entries hentries =>
    have hany : (entries.any fun entry => entry.key == key) = true := Except.ok.inj hhas
    have hfind : (entries.find? fun entry => entry.key == key).isSome = true := by
      rwa [List.find?_isSome, ← List.any_eq_true]
    obtain ⟨entry, hentry⟩ := Option.isSome_iff_exists.mp hfind
    exact ⟨entry.value, by simp [get, hentries, hentry]⟩

/-- In a store of coherent values, a file whose key is there is a hit, unless the
scratch file cannot be had. -/
theorem fetchStep_of_allCoherent {store : Store} (hstore : store.AllCoherent)
    {call : IndexCall} {key : CacheKey}
    (hlookup : call.indexer.lookupStep (call.start store) key = .fetch key) :
    (call.indexer.fetchStep (call.start store) key).1 = .ended (.done .cacheHit) ∨
      ∃ fault, (call.indexer.fetchStep (call.start store) key).1 =
        .ended (.failed (.codec (.scratch fault))) := by
  have hhas : store.has key = .ok true := by
    unfold Indexer.lookupStep at hlookup
    split at hlookup
    next hhas => exact hhas
    next => cases hlookup
    next => cases hlookup
  obtain ⟨value, hget⟩ := exists_get_of_has hhas
  obtain ⟨record, tree, hrecord, htree, -⟩ := hstore value (mem_values_of_get hget)
  have hcache : call.indexer.cache.get (call.start store).cache key = .ok value := hget
  rw [Indexer.fetchStep, hcache]
  simp only [hrecord]
  rcases deserialize_of_ofBytes htree call.indexer.scratch (call.start store).files with
    hrestored | ⟨fault, hrefused⟩
  · rw [hrestored]
    exact .inl rfl
  · rw [hrefused]
    exact .inr ⟨fault, rfl⟩

/-- **Stored values agree with their trees.**  Whatever files were indexed into a
new store, in whatever order and with whatever success: every value of the store
holds a record whose saved tree can be restored and gives the record again, and a
later file whose key is in the store is a hit, unless the device refuses a scratch
file. -/
theorem afterCalls_coherent (calls : List IndexCall) (hfits : ∀ call ∈ calls, call.Fits) :
    (∀ value ∈ (fresh.afterCalls calls).values, Coherent value) ∧
      ∀ (next : IndexCall) (key : CacheKey),
        next.indexer.lookupStep (next.start (fresh.afterCalls calls)) key = .fetch key →
        (next.indexer.fetchStep (next.start (fresh.afterCalls calls)) key).1 =
            .ended (.done .cacheHit) ∨
          ∃ fault, (next.indexer.fetchStep (next.start (fresh.afterCalls calls)) key).1 =
            .ended (.failed (.codec (.scratch fault))) := by
  have hall := allCoherent_afterCalls allCoherent_fresh calls hfits
  exact ⟨hall, fun next key hlookup => fetchStep_of_allCoherent hall hlookup⟩

/-- A call for a file, given its name. -/
def callSample (file : String) : IndexCall where
  grammars := ParseSample.grammars
  files := { entries := [(["tmp"], .directory), (["f.c"], .file ParseSample.content)] }
  job := { file, flags := ["-DX"] }

theorem afterCalls_coherent_callSample :
    (∀ call ∈ [callSample "f.c", callSample "missing.c"], call.Fits) ∧
      (fresh.afterCalls [callSample "f.c", callSample "missing.c"]).values.length = 1 ∧
      (∀ value ∈ (fresh.afterCalls [callSample "f.c", callSample "missing.c"]).values,
        Coherent value) ∧
      (callSample "f.c").indexer.lookupStep ((callSample "f.c").start
        (fresh.afterCalls [callSample "f.c", callSample "missing.c"])) (.ofPath "f.c") =
          .fetch (.ofPath "f.c") := by
  have hfits : ∀ call ∈ [callSample "f.c", callSample "missing.c"], call.Fits := by
    decide +kernel
  refine ⟨hfits, ?_, (afterCalls_coherent _ hfits).1, ?_⟩
  · decide +kernel
  · decide +kernel

end Store
end SourceIndex
