import SourceIndex.Proofs.Lowering.Parametric

/-!
# The limit on nesting

How deep a lowering goes is how many nodes it is lowering at once.  This is measured here
without the counter that the limit is tested with: the measure of a node is one more than that
of what is lowered inside it (`activation`).

* `unlimited` is the lowering without counter and test.
* `guarded` has counter and test, and the measure as well.  It is the same as `nested`
  (`runBy_guarded`), so the counter counts what it should.
* `run_eq_unlimited` and `tooDeep_run`: the limit changes nothing for a file that keeps to it,
  and every other file is refused.

A refusal is NOT confined to the node that is too deep: from then on all nodes are refused.  So
nothing is said about the tree of a file that is refused.
-/

namespace SourceIndex
namespace Lowering

/-! ## Measures -/

/-- Runs a step and measures how many steps were open at once, itself among them. -/
def activation (step : Pass PUnit) : Pass PUnit := fun state =>
  let inner := (step { state with deepest := 0 }).2
  (⟨⟩, { inner with deepest := max state.deepest (inner.deepest + 1) })

/-- Runs a step one level deeper if the limit allows it, and measures it. -/
def guarded (limit : Option Nat) (step : Pass PUnit) : Pass PUnit := fun state =>
  if state.isFull limit then (⟨⟩, state.refuse)
  else (⟨⟩, (activation step { state with depth := state.depth + 1 }).2.shallower)

/-- The state after a parse tree has been lowered with no limit on nesting. -/
def unlimited (source : Source) (tree : ParseTree) : State :=
  runBy activation source tree

theorem nested_apply (limit : Option Nat) (step : Pass PUnit) (state : State) :
    nested limit step state =
      if state.isFull limit = true then (⟨⟩, state.refuse)
      else (⟨⟩, (step state.deeper).2.shallower) := by
  change (ite (state.isFull limit = true) _ _ : Pass PUnit) state = _
  split <;> rfl

/-! ## The counter is right -/

/-- Two passes do the same, and what one reads off its counter the other one measures: the
measure rises to `rise`, and the greatest depth to `rise` above the depth. -/
def Measured {α : Type} (counted measured : Pass α) : Prop :=
  ∀ (state : State) (height : Nat), state.depth ≤ state.deepest →
    ∃ rise, measured { state with deepest := height } =
        ((counted state).1, { (counted state).2 with deepest := max height rise }) ∧
      (counted state).2.deepest = max state.deepest (state.depth + rise) ∧
      (counted state).2.depth = state.depth

/-- A pass that leaves the nesting alone does the same if the nesting is changed first. -/
theorem Quiet.apply_withNesting {α : Type} {pass : Pass α} (hquiet : Quiet pass)
    (change : Nesting → Nesting) (state : State) :
    pass (state.withNesting (change state.nesting)) =
      ((pass state).1, (pass state).2.withNesting (change (pass state).2.nesting)) := by
  rw [hquiet.nesting_eq]
  exact hquiet state (change state.nesting)

theorem Quiet.measured {α : Type} {pass : Pass α} (hquiet : Quiet pass) : Measured pass pass := by
  intro state height hdepth
  have hsame := hquiet.nesting_eq state
  refine ⟨0, ?_, ?_, congrArg Nesting.depth hsame⟩
  · rw [Nat.max_zero]
    exact hquiet.apply_withNesting (fun nesting => { nesting with deepest := height }) state
  · rw [Nat.add_zero, Nat.max_eq_left hdepth]
    exact congrArg Nesting.deepest hsame

theorem Measured.bind {α β : Type} {left right : Pass α} {next later : α → Pass β}
    (hpass : Measured left right) (hnext : ∀ value, Measured (next value) (later value)) :
    Measured (left >>= next) (right >>= later) := by
  intro state height hdepth
  obtain ⟨rise, hright, hdeepest, hback⟩ := hpass state height hdepth
  obtain ⟨more, hlater, hdeeper, hagain⟩ := hnext (left state).1 (left state).2 (max height rise)
    (by omega)
  refine ⟨max rise more, ?_, ?_, ?_⟩
  · rw [Pass.bind_apply, Pass.bind_apply, hright, hlater, Nat.max_assoc]
  · rw [Pass.bind_apply, hdeeper]
    omega
  · rw [Pass.bind_apply, hagain, hback]

theorem Measured.level {left right : Pass PUnit} (hpass : Measured left right)
    (limit : Option Nat) : Measured (nested limit left) (guarded limit right) := by
  intro state height hdepth
  have hfull : State.isFull { state with deepest := height } limit = state.isFull limit := rfl
  rw [nested_apply, guarded, hfull]
  split
  · exact ⟨0, by rw [Nat.max_zero]; rfl, (Nat.max_eq_left hdepth).symm, rfl⟩
  · -- inside, the measure starts from zero, and the greatest depth from that of the step
    obtain ⟨rise, hright, hdeepest, hback⟩ := hpass state.deeper 0 (Nat.le_max_right _ _)
    have hinner : (right { state with depth := state.depth + 1, deepest := 0 }).2 =
        { (left state.deeper).2 with deepest := max 0 rise } := congrArg Prod.snd hright
    refine ⟨rise + 1, ?_, ?_, ?_⟩
    · simp only [activation, hinner, Nat.zero_max, State.shallower]
    · have hrises : (left state.deeper).2.deepest =
          max (max state.deepest (state.depth + 1)) (state.depth + 1 + rise) := hdeepest
      simp only [State.shallower, hrises]
      omega
    · have hrestored : (left state.deeper).2.depth = state.depth + 1 := hback
      simp only [State.shallower, hrestored]
      rfl

/-- The counter and the measure agree. -/
def countedSimulation (limit : Option Nat) : Simulation (nested limit) (guarded limit) where
  related := Measured
  quiet := Quiet.measured
  bind := Measured.bind
  level := fun hpass => hpass.level limit

/-- To measure the nesting makes no difference, and the greatest depth is the measure. -/
theorem runBy_guarded (source : Source) (tree : ParseTree) :
    runBy (guarded source.limit) source tree = run source tree := by
  rw [← runBy_nested, runBy, runBy]
  have hmeasured := ((countedSimulation source.limit).meaningBy source tree).lowerContents
    CursorTree.root
  obtain ⟨rise, hright, hdeepest, -⟩ := hmeasured (State.start source.file) 0 (Nat.le_refl 0)
  have hrise : max 0 rise = ((meaningBy (nested source.limit) source tree).lowerContents
      CursorTree.root (State.start source.file)).2.deepest := by
    rw [hdeepest]
    simp [State.start]
  refine (congrArg Prod.snd hright).trans ?_
  dsimp only
  rw [hrise]

/-! ## The limit -/

/-- A pass with a limit on nesting and one without.  As long as the limit is kept, the two do
the same, and otherwise the first one refuses something. -/
structure Follows (limit : Nat) {α : Type} (bounded free : Pass α) : Prop where
  sticky : ∀ state : State, state.tooDeep = true → (bounded state).2.tooDeep = true
  rises : ∀ state : State, state.deepest ≤ (free state).2.deepest
  keeps : ∀ state : State, state.depth + state.deepest ≤ limit →
    (bounded state).2.depth = state.depth ∧ state.depth + (bounded state).2.deepest ≤ limit
  agrees : ∀ (state : State) (depth : Nat), state.tooDeep = false →
    state.depth + state.deepest ≤ limit →
      state.depth + (free { state with depth }).2.deepest ≤ limit →
        free { state with depth } = ((bounded state).1, { (bounded state).2 with depth }) ∧
          (bounded state).2.tooDeep = false
  refuses : ∀ (state : State) (depth : Nat), state.tooDeep = false →
    state.depth + state.deepest ≤ limit →
      limit < state.depth + (free { state with depth }).2.deepest →
        (bounded state).2.tooDeep = true

theorem Quiet.follows {α : Type} {pass : Pass α} (hquiet : Quiet pass) (limit : Nat) :
    Follows limit pass pass := by
  have hdepth : ∀ state, (pass state).2.depth = state.depth :=
    fun state => congrArg Nesting.depth (hquiet.nesting_eq state)
  have hdeepest : ∀ state, (pass state).2.deepest = state.deepest :=
    fun state => congrArg Nesting.deepest (hquiet.nesting_eq state)
  have htooDeep : ∀ state, (pass state).2.tooDeep = state.tooDeep :=
    fun state => congrArg Nesting.tooDeep (hquiet.nesting_eq state)
  refine ⟨fun state htoo => ?_, fun state => ?_, fun state hroom => ?_,
    fun state depth hfine _ _ => ?_, fun state depth _ hroom hover => ?_⟩
  · rw [htooDeep, htoo]
  · exact Nat.le_of_eq (hdeepest state).symm
  · rw [hdepth, hdeepest]
    exact ⟨rfl, hroom⟩
  · rw [htooDeep]
    exact ⟨hquiet.apply_withNesting (fun nesting => { nesting with depth }) state, hfine⟩
  · rw [hdeepest] at hover
    exact absurd hroom (Nat.not_le.mpr hover)

theorem Follows.bind {limit : Nat} {α β : Type} {left right : Pass α} {next later : α → Pass β}
    (hpass : Follows limit left right) (hnext : ∀ value, Follows limit (next value) (later value)) :
    Follows limit (left >>= next) (right >>= later) where
  sticky state htoo := (hnext _).sticky _ (hpass.sticky state htoo)
  rises state := Nat.le_trans (hpass.rises state) ((hnext _).rises _)
  keeps state hroom := by
    obtain ⟨hdepth, hkept⟩ := hpass.keeps state hroom
    obtain ⟨hagain, hstill⟩ := (hnext (left state).1).keeps (left state).2 (by omega)
    rw [Pass.bind_apply]
    omega
  agrees state depth hfine hroom hlast := by
    rw [Pass.bind_apply] at hlast
    have hbetween := (hnext (right { state with depth }).1).rises (right { state with depth }).2
    obtain ⟨hright, hstill⟩ := hpass.agrees state depth hfine hroom (by omega)
    obtain ⟨hdepth, hkept⟩ := hpass.keeps state hroom
    rw [hright] at hlast
    rw [Pass.bind_apply, Pass.bind_apply, hright]
    exact (hnext (left state).1).agrees (left state).2 depth hstill (by omega) (by
      rw [hdepth]
      exact hlast)
  refuses state depth hfine hroom hover := by
    rw [Pass.bind_apply] at hover ⊢
    obtain ⟨hdepth, hkept⟩ := hpass.keeps state hroom
    -- what is refused first is refused for good
    by_cases hfirst : limit < state.depth + (right { state with depth }).2.deepest
    · exact (hnext _).sticky _ (hpass.refuses state depth hfine hroom hfirst)
    · obtain ⟨hright, hstill⟩ := hpass.agrees state depth hfine hroom (by omega)
      rw [hright] at hover
      refine (hnext (left state).1).refuses (left state).2 depth hstill (by omega) ?_
      rw [hdepth]
      exact hover

/-- The state inside a node that has been started: one level deeper, with the measure at zero. -/
def State.inside (state : State) : State :=
  { state with depth := state.depth + 1, deepest := 0 }

theorem State.isFull_eq_false_iff {state : State} {limit : Nat} :
    state.isFull (some limit) = false ↔ state.tooDeep = false ∧ state.depth < limit := by
  simp [isFull, exceeds]

theorem guarded_of_room {limit : Option Nat} {state : State} (hroom : state.isFull limit = false)
    (step : Pass PUnit) :
    guarded limit step state = (⟨⟩, { (step state.inside).2 with
      depth := (step state.inside).2.depth - 1
      deepest := max state.deepest ((step state.inside).2.deepest + 1) }) := by
  rw [guarded, hroom]
  rfl

/-- A node is started if there is room for it, and then what is inside it has the rest. -/
theorem Follows.level {limit : Nat} {bounded free : Pass PUnit}
    (hpass : Follows limit bounded free) :
    Follows limit (guarded (some limit) bounded) (activation free) where
  sticky state htoo := by
    have hfull : state.isFull (some limit) = true := by rw [State.isFull, htoo, Bool.true_or]
    rw [guarded, if_pos hfull]
    rfl
  rises state := Nat.le_max_left _ _
  keeps state hroom := by
    cases hfull : state.isFull (some limit) with
    | true =>
        rw [guarded, if_pos hfull]
        exact ⟨rfl, hroom⟩
    | false =>
        obtain ⟨hdepth, hkept⟩ := hpass.keeps state.inside (State.isFull_eq_false_iff.mp hfull).2
        rw [guarded_of_room hfull]
        simp only [State.inside] at hdepth hkept ⊢
        omega
  agrees state depth hfine hroom hlast := by
    have hmeasure : state.depth + max state.deepest
        ((free { state.inside with depth }).2.deepest + 1) ≤ limit := hlast
    have hfull : state.isFull (some limit) = false :=
      State.isFull_eq_false_iff.mpr ⟨hfine, by omega⟩
    have hinside : state.inside.depth + (free { state.inside with depth }).2.deepest ≤ limit := by
      simp only [State.inside] at hmeasure ⊢
      omega
    obtain ⟨hfree, hstill⟩ := hpass.agrees state.inside depth hfine
      (State.isFull_eq_false_iff.mp hfull).2 hinside
    rw [guarded_of_room hfull]
    refine ⟨?_, hstill⟩
    have hactive : activation free { state with depth } =
        (⟨⟩, { (free { state.inside with depth }).2 with
          deepest := max state.deepest ((free { state.inside with depth }).2.deepest + 1) }) := rfl
    rw [hactive, hfree]
  refuses state depth hfine hroom hover := by
    have hmeasure : limit < state.depth + max state.deepest
        ((free { state.inside with depth }).2.deepest + 1) := hover
    cases hfull : state.isFull (some limit) with
    | true =>
        rw [guarded, if_pos hfull]
        rfl
    | false =>
        rw [guarded_of_room hfull]
        refine hpass.refuses state.inside depth hfine (State.isFull_eq_false_iff.mp hfull).2 ?_
        simp only [State.inside] at hmeasure ⊢
        omega

/-- What a limit changes. -/
def boundedSimulation (limit : Nat) : Simulation (guarded (some limit)) activation where
  related := Follows limit
  quiet := fun hquiet => hquiet.follows limit
  bind := Follows.bind
  level := Follows.level

theorem follows_lowerContents (source : Source) (tree : ParseTree) (limit : Nat) :
    Follows limit ((meaningBy (guarded (some limit)) source tree).lowerContents CursorTree.root)
      ((meaningBy activation source tree).lowerContents CursorTree.root) :=
  ((boundedSimulation limit).meaningBy source tree).lowerContents CursorTree.root

section Limit

variable {source : Source} {limit : Nat} {tree : ParseTree}

/-- A lowering never has more nodes open at once than the limit allows. -/
theorem deepest_guarded_le (hlimit : source.limit = some limit) (tree : ParseTree) :
    (runBy (guarded source.limit) source tree).deepest ≤ limit := by
  have hkept := (follows_lowerContents source tree limit).keeps (State.start source.file)
    (Nat.zero_le limit)
  rw [hlimit, runBy, ← Nat.zero_add (State.deepest _)]
  exact hkept.2

/-- A file that keeps to the limit is lowered as if there were none. -/
theorem run_eq_unlimited (hlimit : source.limit = some limit)
    (hdeepest : (unlimited source tree).deepest ≤ limit) :
    run source tree = unlimited source tree ∧ (run source tree).tooDeep = false := by
  have hfollows := follows_lowerContents source tree limit
  have hbound : 0 + (unlimited source tree).deepest ≤ limit := by rwa [Nat.zero_add]
  obtain ⟨hfree, hfine⟩ :=
    hfollows.agrees (State.start source.file) 0 rfl (Nat.zero_le limit) hbound
  have hdepth : (runBy (guarded (some limit)) source tree).depth = 0 :=
    (hfollows.keeps (State.start source.file) (Nat.zero_le limit)).1
  have hstate : unlimited source tree =
      { runBy (guarded (some limit)) source tree with depth := 0 } := congrArg Prod.snd hfree
  have hrestored : ∀ {state : State} {depth : Nat}, state.depth = depth →
      { state with depth } = state := by
    rintro state _ rfl
    rfl
  rw [hrestored hdepth] at hstate
  rw [← runBy_guarded, hlimit]
  exact ⟨hstate.symm, hfine⟩

/-- A file that does not keep to the limit is refused. -/
theorem tooDeep_run (hlimit : source.limit = some limit)
    (hdeepest : limit < (unlimited source tree).deepest) : (run source tree).tooDeep = true := by
  have hover : limit < 0 + (unlimited source tree).deepest := by rwa [Nat.zero_add]
  rw [← runBy_guarded, hlimit]
  exact (follows_lowerContents source tree limit).refuses (State.start source.file) 0 rfl
    (Nat.zero_le limit) hover

/-- The tree of a file, or none if it goes deeper than the limit. -/
theorem lowerFile?_eq_unlimited (hlimit : source.limit = some limit) (tree : ParseTree) :
    lowerFile? source tree =
      if limit < (unlimited source tree).deepest then none
      else some (unlimited source tree).finish := by
  by_cases hdeep : limit < (unlimited source tree).deepest
  · simp only [lowerFile?, tooDeep_run hlimit hdeep, hdeep, if_true]
  · obtain ⟨hsame, hfine⟩ := run_eq_unlimited hlimit (Nat.le_of_not_lt hdeep)
    rw [hsame] at hfine
    simp only [lowerFile?, hsame, hfine, hdeep, if_false]
    rfl

end Limit

end Lowering
end SourceIndex
