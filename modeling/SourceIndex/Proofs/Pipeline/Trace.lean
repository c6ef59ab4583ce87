import SourceIndex.Proofs.Pipeline.Steps

/-!
# The log and the tally

Everything that indexing counts is counted by an action of its log, so what was
done since a start (`Indexer.Traced`) fixes the tally.  The tally of two states with
the same actions, in whatever order, has the same ranking.

Each action is about a key.  States that have the same under every key have therefore
done the same since their start (`Indexer.Traced.log_perm`).
-/

namespace SourceIndex

theorem IndexStage.reverse_actions (job : Job) (stage : IndexStage) :
    (stage.actions job).reverse = stage.actions job := by
  cases stage <;> rfl

namespace Indexer

variable {σ τ : Type} {indexer : Indexer σ} {start state other : IndexState σ}
  {added others : List IndexAction} {job : Job} {stage : IndexStage}

/-- The names that an action counts. -/
def namesOf (indexer : Indexer σ) (files : FileTree) : IndexAction → List String
  | .parse job => indexer.ignoredNames files job
  | .put _ _ _ => []

theorem Advances.tally_eq {next : IndexStage} {after : IndexState σ}
    (hstep : Advances indexer job state stage next after) :
    after.tally =
      state.tally.map (·.countAll ((stage.actions job).flatMap (indexer.namesOf state.files))) := by
  cases hstep with
  | parse htally hnext =>
      rw [IndexStage.actions, List.flatMap_singleton]
      exact htally
  | _ => exact (Tally.map_countAll_nil state.tally).symm

/-- What was done since a start, the last action first: the log holds it, the tally
has counted its names, and each action is about a key. -/
structure Traced (indexer : Indexer σ) (start state : IndexState σ)
    (added : List IndexAction) : Prop where
  files : state.files = start.files
  log : state.log = added ++ start.log
  tally : state.tally =
    start.tally.map (·.countAll (added.reverse.flatMap (indexer.namesOf start.files)))
  keyed : ∀ action ∈ added, ∃ key, indexer.keyOf? start.files action = some key

namespace Traced

theorem refl (indexer : Indexer σ) (start : IndexState σ) : indexer.Traced start start [] where
  files := rfl
  log := rfl
  tally := (Tally.map_countAll_nil start.tally).symm
  keyed := by nofun

theorem advance {next : IndexStage} {after : IndexState σ}
    (htraced : indexer.Traced start state added)
    (hstep : Advances indexer job state stage next after)
    (hown : indexer.Owns start.files job stage) :
    indexer.Traced start after (stage.actions job ++ added) where
  files := hstep.files_eq.trans htraced.files
  log := by rw [hstep.log_eq, htraced.log, List.append_assoc]
  tally := by
    rw [hstep.tally_eq, htraced.files, htraced.tally, List.reverse_append,
      IndexStage.reverse_actions, List.flatMap_append, Tally.map_countAll_append]
  keyed := by
    intro action haction
    rcases List.mem_append.mp haction with hnew | hold
    · obtain ⟨key, -, habout⟩ := hown.keyOf?_actions hnew
      exact ⟨key, habout⟩
    · exact htraced.keyed action hold

theorem indexFile (htraced : indexer.Traced start state added) (job : Job) :
    ∃ added, indexer.Traced start (indexer.indexFile state job).2 added := by
  have hfirst := indexer.owns_firstStage state.files job
  have hkept := indexer.advanceBy_induct job
    (fun stage after => indexer.Owns state.files job stage ∧
      ∃ added, indexer.Traced start after added)
    (fun hstep hold => by
      obtain ⟨hown, added, hadded⟩ := hold
      rw [htraced.files] at hown
      refine ⟨?_, _, hadded.advance hstep hown⟩
      rw [htraced.files]
      exact hstep.owns hown)
    maxSteps (indexer.firstStage state.files job) state ⟨hfirst, added, htraced⟩
  rw [advanceBy_maxSteps] at hkept
  exact hkept.2

/-- What is the same under every key was done, up to the order. -/
theorem log_perm {slot : σ → CacheKey → τ} (hstate : indexer.Traced start state added)
    (hother : indexer.Traced start other others)
    (hunder : ∀ key, indexer.under slot start.files state key =
      indexer.under slot start.files other key) : state.log.Perm other.log := by
  rw [List.perm_iff_count]
  intro action
  cases habout : indexer.keyOf? start.files action with
  | some key =>
      have hown : ∀ log : List IndexAction,
          (log.filter fun action => indexer.keyOf? start.files action == some key).count action =
            log.count action :=
        fun log => List.count_filter (by rw [habout, beq_self_eq_true])
      rw [← hown state.log, ← hown other.log, (Prod.mk.inj (hunder key)).2]
  | none =>
      have hnever : ∀ {log : List IndexAction},
          (∀ action ∈ log, ∃ key, indexer.keyOf? start.files action = some key) →
          log.count action = 0 := by
        intro log hkeyed
        rw [List.count_eq_zero]
        intro hmem
        obtain ⟨key, hsome⟩ := hkeyed action hmem
        rw [habout] at hsome
        cases hsome
      rw [hstate.log, hother.log, List.count_append, List.count_append, hnever hstate.keyed,
        hnever hother.keyed]

/-- What was done, in whatever order, fixes the ranking. -/
theorem ranking_eq (hstate : indexer.Traced start state added)
    (hother : indexer.Traced start other others) (hperm : state.log.Perm other.log) :
    state.tally.map Tally.ranking = other.tally.map Tally.ranking := by
  rw [hstate.log, hother.log, List.perm_append_right_iff] at hperm
  have hnames := ((List.reverse_perm added).trans
    (hperm.trans (List.reverse_perm others).symm)).flatMap_right (indexer.namesOf start.files)
  rw [hstate.tally, hother.tally]
  cases start.tally with
  | none => rfl
  | some tally => exact congrArg some (tally.ranking_countAll hnames)

end Traced
end Indexer
end SourceIndex
