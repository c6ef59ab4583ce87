import SourceIndex.Path

/-!
# Normal forms of paths

The segments of a path are its pieces between slashes, and `Path.normalize` writes
them again without those that mean nothing.  This module is about what comes out:

* `Path.Settled` says of a list of steps, last one first, that nothing in it can be
  taken back: `..` stands only in front of a relative path.  Going one step further
  keeps it (`Path.Settled.resolveStep`), so the steps that a path resolves to have it
  (`Path.settled_resolved`).
* A path that is written from settled steps has these steps (`Path.steps_render`), so
  a normal form is its own normal form (`Path.normalize_normalize`).
* `Path.isAbsolute_absolutize`: what is made absolute is absolute exactly if the path
  or its base is.

The last statement is where the name `Path.absolutize` promises more than it keeps: a
relative path seen from a relative base stays relative, and can be empty.
-/

namespace SourceIndex
namespace Path

/-! ## Segments -/

theorem map_toList_splitSegments (current chars : List Char) :
    (splitSegments current chars).map String.toList =
      chars.splitOnPPrepend (· == '/') current := by
  induction chars generalizing current with
  | nil => simp [splitSegments, List.splitOnPPrepend_nil]
  | cons c rest ih =>
      by_cases hslash : c = '/'
      · subst hslash
        rw [splitSegments, List.splitOnPPrepend_cons_pos (by rfl), List.map_cons, ih,
          List.splitOnP_eq_splitOnPPrepend, String.toList_ofList]
      · rw [splitSegments, List.splitOnPPrepend_cons_neg (by simpa using hslash)]
        · exact ih (c :: current)
        · exact hslash

/-- The segments of a path are the pieces between its slashes. -/
theorem map_toList_segments (path : String) :
    (segments path).map String.toList = path.toList.splitOn '/' :=
  map_toList_splitSegments [] path.toList

theorem slash_notMem_of_mem_splitSegments {current chars : List Char} (hcurrent : '/' ∉ current)
    {segment : String} (hsegment : segment ∈ splitSegments current chars) :
    '/' ∉ segment.toList := by
  induction chars generalizing current with
  | nil =>
      rw [splitSegments, List.mem_singleton] at hsegment
      simpa [hsegment] using hcurrent
  | cons c rest ih =>
      by_cases hslash : c = '/'
      · subst hslash
        rw [splitSegments, List.mem_cons] at hsegment
        obtain rfl | hlater := hsegment
        · simpa using hcurrent
        · exact ih (by simp) hlater
      · rw [splitSegments] at hsegment
        · refine ih ?_ hsegment
          rintro (_ | ⟨_, hmem⟩)
          · exact hslash rfl
          · exact hcurrent hmem
        · exact hslash

/-- Texts without slashes are found again between the slashes that join them. -/
theorem segments_intercalate {names : List String} (hnames : ∀ name ∈ names, '/' ∉ name.toList)
    (hne : names ≠ []) : segments (String.intercalate "/" names) = names := by
  apply (List.map_inj_right fun _ _ => String.toList_inj.mp).mp
  rw [map_toList_segments, String.toList_intercalate]
  refine List.splitOn_intercalate '/' ?_ (by simpa using hne)
  simpa using hnames

/-- A slash in front of a path puts an empty segment in front of its segments. -/
theorem segments_slash_append (path : String) : segments ("/" ++ path) = "" :: segments path := by
  have hchars : ("/" ++ path).toList = '/' :: path.toList := by simp
  rw [segments, hchars, splitSegments]
  rfl

/-! ## Steps -/

/-- A text that a path can have as a step: it moves, and no slash is in it. -/
structure IsStep (segment : String) : Prop where
  moves : isVoid segment = false
  slashless : '/' ∉ segment.toList

theorem isStep_of_mem_steps {path step : String} (hstep : step ∈ steps path) : IsStep step := by
  obtain ⟨hsegment, hmoves⟩ := List.mem_filter.mp hstep
  exact ⟨by simpa using hmoves, slash_notMem_of_mem_splitSegments (by simp) hsegment⟩

theorem isStep_dotdot : IsStep ".." :=
  ⟨by decide, by decide⟩

theorem IsStep.ne_empty {step : String} (hstep : IsStep step) : step ≠ "" := by
  rintro rfl
  exact absurd hstep.moves (by decide)

theorem filter_moving {names : List String} (hnames : ∀ name ∈ names, IsStep name) :
    (names.filter fun name => !isVoid name) = names := by
  rw [List.filter_eq_self]
  intro name hname
  simp [(hnames name hname).moves]

/-- A path is written in such a way that its steps can be read again. -/
theorem steps_render (rooted : Bool) {names : List String} (hnames : ∀ name ∈ names, IsStep name) :
    steps (render rooted names) = names := by
  cases names with
  | nil => cases rooted <;> decide
  | cons name rest =>
      have hsegments : segments (String.intercalate "/" (name :: rest)) = name :: rest :=
        segments_intercalate (fun other hother => (hnames other hother).slashless) (by simp)
      cases rooted with
      | false =>
          rw [render, steps, if_neg (by simp), String.empty_append, hsegments,
            filter_moving hnames]
      | true =>
          rw [render, steps, if_pos rfl, segments_slash_append, hsegments,
            List.filter_cons_of_neg (by decide), filter_moving hnames]

/-- A path that does not start at the top is not written with a slash in front. -/
theorem isAbsolute_render (rooted : Bool) {names : List String}
    (hnames : ∀ name ∈ names, IsStep name) : isAbsolute (render rooted names) = rooted := by
  cases rooted with
  | true => simp [isAbsolute, render]
  | false =>
      cases names with
      | nil => decide
      | cons name rest =>
          have hname := hnames name (by simp)
          cases hchars : name.toList with
          | nil => exact absurd (String.toList_eq_nil_iff.mp hchars) hname.ne_empty
          | cons c chars =>
              have hslash : c ≠ '/' := by
                rintro rfl
                exact hname.slashless (by simp [hchars])
              simpa [isAbsolute, render, hchars] using hslash

/-! ## Settled steps -/

/-- In these steps, last one first, there is nothing to take back: `..` has only `..`
before it, and none after the top. -/
def Settled (rooted : Bool) : List String → Prop
  | [] => True
  | step :: before =>
      IsStep step ∧ (step = ".." → rooted = false ∧ ∀ other ∈ before, other = "..") ∧
        Settled rooted before

theorem Settled.isStep {rooted : Bool} {reached : List String} (hsettled : Settled rooted reached) :
    ∀ step ∈ reached, IsStep step := by
  induction reached with
  | nil => simp
  | cons step before ih =>
      obtain ⟨hstep, -, hbefore⟩ := hsettled
      exact List.forall_mem_cons.mpr ⟨hstep, ih hbefore⟩

/-- One more step leaves nothing to take back. -/
theorem Settled.resolveStep {rooted : Bool} {reached : List String} {step : String}
    (hsettled : Settled rooted reached) (hstep : IsStep step) :
    Settled rooted (resolveStep rooted reached step) := by
  unfold Path.resolveStep
  by_cases hup : step = ".."
  · rw [if_pos (by simpa using hup)]
    cases reached with
    | nil =>
        -- above the top there is nothing, so only a relative path keeps the step
        cases rooted <;> simp [Settled, isStep_dotdot]
    | cons last before =>
        obtain ⟨-, hlast, hbefore⟩ := id hsettled
        -- a `..` that could not be taken back is not taken back by another one
        by_cases htop : last = ".."
        · obtain ⟨hrooted, hall⟩ := hlast htop
          simp only [htop, beq_self_eq_true, if_true]
          refine ⟨isStep_dotdot, fun _ => ⟨hrooted, ?_⟩, htop ▸ hsettled⟩
          exact List.forall_mem_cons.mpr ⟨rfl, hall⟩
        · simpa [htop] using hbefore
  · rw [if_neg (by simpa using hup)]
    exact ⟨hstep, fun h => absurd h hup, hsettled⟩

theorem Settled.foldl {rooted : Bool} {names reached : List String}
    (hsettled : Settled rooted reached) (hnames : ∀ name ∈ names, IsStep name) :
    Settled rooted (names.foldl (Path.resolveStep rooted) reached) := by
  induction names generalizing reached with
  | nil => exact hsettled
  | cons name rest ih =>
      obtain ⟨hname, hrest⟩ := List.forall_mem_cons.mp hnames
      exact ih (hsettled.resolveStep hname) hrest

/-- The steps that a path resolves to are settled. -/
theorem settled_resolved (rooted : Bool) (path : String) :
    Settled rooted ((steps path).foldl (resolveStep rooted) []) :=
  Settled.foldl trivial fun _ => isStep_of_mem_steps

/-- A settled step is only added. -/
theorem Settled.resolveStep_eq {rooted : Bool} {step : String} {before : List String}
    (hsettled : Settled rooted (step :: before)) :
    Path.resolveStep rooted before step = step :: before := by
  obtain ⟨-, hup, -⟩ := hsettled
  unfold Path.resolveStep
  by_cases hstep : step = ".."
  · obtain ⟨hrooted, hall⟩ := hup hstep
    cases before with
    | nil => simp [hstep, hrooted]
    | cons last earlier => simp [hstep, hall last (by simp)]
  · simp [hstep]

/-- Settled steps resolve to themselves. -/
theorem Settled.foldl_reverse {rooted : Bool} {reached : List String}
    (hsettled : Settled rooted reached) :
    reached.reverse.foldl (Path.resolveStep rooted) [] = reached := by
  induction reached with
  | nil => rfl
  | cons step before ih =>
      rw [List.reverse_cons, List.foldl_append, ih hsettled.2.2]
      exact hsettled.resolveStep_eq

/-! ## Normal forms -/

theorem isAbsolute_normalize (path : String) : isAbsolute (normalize path) = isAbsolute path := by
  refine isAbsolute_render _ fun name hname => ?_
  exact (settled_resolved _ path).isStep name (List.mem_reverse.mp hname)

/-- A normal form has the steps that its path resolves to. -/
theorem steps_normalize (path : String) :
    steps (normalize path) =
      ((steps path).foldl (resolveStep (isAbsolute path)) []).reverse :=
  steps_render _ fun name hname =>
    (settled_resolved _ path).isStep name (List.mem_reverse.mp hname)

/-- A normal form is its own normal form. -/
theorem normalize_normalize (path : String) : normalize (normalize path) = normalize path := by
  rw [normalize, isAbsolute_normalize, steps_normalize,
    (settled_resolved (isAbsolute path) path).foldl_reverse]
  rfl

theorem isAbsolute_join (base path : String) :
    isAbsolute (join base path) = (isAbsolute base || isAbsolute path) := by
  unfold join
  split
  · simp_all
  next hpath =>
    rw [Bool.eq_false_iff.mpr hpath, Bool.or_false]
    cases hbase : base.toList with
    | nil => simpa [isAbsolute, hbase] using hpath
    | cons c chars => split <;> simp_all [isAbsolute]

/-- What is made absolute is absolute only if the path or its base is. -/
theorem isAbsolute_absolutize (base path : String) :
    isAbsolute (absolutize base path) = (isAbsolute base || isAbsolute path) := by
  rw [absolutize, isAbsolute_normalize, isAbsolute_join]

/-- An absolute path is the same from everywhere. -/
theorem absolutize_of_isAbsolute {path : String} (hpath : isAbsolute path = true) (base : String) :
    absolutize base path = normalize path := by
  rw [absolutize, join, if_pos hpath]

/-- Once made absolute, a path is the same from everywhere. -/
theorem absolutize_absolutize {base path : String}
    (habsolute : isAbsolute (absolutize base path) = true) (other : String) :
    absolutize other (absolutize base path) = absolutize base path := by
  rw [absolutize_of_isAbsolute habsolute, absolutize, normalize_normalize]

end Path
end SourceIndex
