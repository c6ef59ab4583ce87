import Mathlib.Data.List.TakeWhile
import SourceIndex.Proofs.Path

/-!
# Joined paths and their normal forms

To make a path absolute is to join it to a base and to take the normal form.  Both parts go
along with joining more: texts are joined in any order (`Path.join_assoc`), and a base can be
replaced by its normal form (`Path.normalize_join_normalize`).  So a path can be made absolute
piece by piece (`Path.absolutize_join`).  A single name goes behind the segments of the base
(`Path.exists_segments_join`).

`Path.IsNormal` says what a normal form looks like.  A normal form is NOT always absolute, and
then it can start with `..`; only what comes back down from there has names in it.
-/

namespace SourceIndex
namespace Path

/-! ## Segments of a joined path -/

/-- A slash divides the segments in front of it from those behind it. -/
theorem segments_append_slash (front back : String) :
    segments (front ++ "/" ++ back) = segments front ++ segments back := by
  apply (List.map_inj_right fun _ _ => String.toList_inj.mp).mp
  rw [List.map_append, map_toList_segments, map_toList_segments, map_toList_segments]
  have hchars : (front ++ "/" ++ back).toList = front.toList ++ '/' :: back.toList := by simp
  rw [hchars]
  exact List.splitOnP_append_cons front.toList back.toList (beq_self_eq_true '/')

theorem steps_append_slash (front back : String) :
    steps (front ++ "/" ++ back) = steps front ++ steps back := by
  rw [steps, segments_append_slash, List.filter_append]
  rfl

/-- A base as it stands in front of what is joined to it: with a slash at its end, if there is
anything in it. -/
def asDirectory (base : String) : String :=
  match base.toList.getLast? with
  | none => base
  | some '/' => base
  | some _ => base ++ "/"

theorem join_of_relative {path : String} (hpath : isAbsolute path = false) (base : String) :
    join base path = asDirectory base ++ path := by
  have hrelative : ¬isAbsolute path = true := by simp [hpath]
  rw [join, if_neg hrelative, asDirectory]
  cases hlast : base.toList.getLast? with
  | none =>
      have hempty : base = "" := by simpa using hlast
      simp [hempty]
  | some last =>
      by_cases hslash : last = '/'
      · simp [hslash]
      · simp

/-- The three forms of a base in front of what is joined to it. -/
theorem asDirectory_cases (base : String) :
    (base = "" ∧ asDirectory base = "") ∨ ∃ front, asDirectory base = front ++ "/" ∧
      (base = front ∨ base = front ++ "/") := by
  unfold asDirectory
  split
  next hlast => exact .inl ⟨by simpa using hlast, by simpa using hlast⟩
  next hlast =>
    obtain ⟨chars, hchars⟩ := List.getLast?_eq_some_iff.mp hlast
    refine .inr ⟨String.ofList chars, ?_, .inr ?_⟩ <;> simp [← String.toList_inj, hchars]
  next => exact .inr ⟨base, rfl, .inl rfl⟩

/-- A path goes on with the steps of what is joined to it. -/
theorem steps_join {path : String} (hpath : isAbsolute path = false) (base : String) :
    steps (join base path) = steps base ++ steps path := by
  rw [join_of_relative hpath]
  obtain ⟨rfl, hempty⟩ | ⟨front, hfront, rfl | rfl⟩ := asDirectory_cases base
  · rw [hempty, String.empty_append]
    rfl
  · rw [hfront, steps_append_slash]
  · -- the slash at the end of the base has no step behind it
    have hbase := steps_append_slash front ""
    rw [String.append_empty] at hbase
    rw [hfront, steps_append_slash, hbase]
    simp [steps, segments, splitSegments, isVoid]

/-! ## Names joined to a path -/

theorem segments_of_slashless {name : String} (hname : '/' ∉ name.toList) :
    segments name = [name] := by
  have hjoined : segments (String.intercalate "/" [name]) = [name] :=
    segments_intercalate (by simpa using hname) (by simp)
  simpa using hjoined

theorem isAbsolute_of_slashless {name : String} (hname : '/' ∉ name.toList) :
    isAbsolute name = false := by
  rw [isAbsolute, beq_eq_false_iff_ne]
  exact fun hhead => hname (List.mem_of_head? hhead)

theorem slash_notMem_fileName? {path name : String} (hname : fileName? path = some name) :
    '/' ∉ name.toList := by
  rw [fileName?] at hname
  split at hname
  · cases hname
  · dsimp only at hname
    split at hname <;> cases hname
    intro hslash
    rw [String.toList_ofList, List.mem_reverse] at hslash
    simpa using List.mem_takeWhile_imp hslash

/-- A name longer than `..` is its own file name. -/
theorem fileName?_of_slashless {name : String} (hname : '/' ∉ name.toList)
    (hlong : 2 < name.utf8ByteSize) : fileName? name = some name := by
  have hne : ∀ short : String, short.utf8ByteSize ≤ 2 → name.toList ≠ short.toList := by
    intro short hshort hsame
    rw [String.toList_inj.mp hsame] at hlong
    omega
  have hdot := hne "." (by decide)
  have hlead : splitLead name.toList = ([], name.toList) := by
    unfold splitLead
    split <;> simp_all
  have htrim : trimBack name.toList.reverse = name.toList.reverse := by
    unfold trimBack
    split <;> simp_all [List.reverse_eq_iff]
  have hwhole : name.toList.reverse.takeWhile (· != '/') = name.toList.reverse := by
    rw [List.takeWhile_eq_self_iff]
    grind
  rw [fileName?, hlead]
  dsimp only
  rw [htrim]
  split
  next hempty => exact absurd (List.reverse_eq_nil_iff.mp hempty) (hne "" (by decide))
  next =>
    rw [hwhole, List.reverse_reverse, String.ofList_toList, if_neg]
    exact fun hdots => hne ".." (by decide) (congrArg String.toList (beq_iff_eq.mp hdots))

/-- The segments of a path below a directory are those of the directory, but for a slash at
its end, and the name. -/
theorem exists_segments_join {name : String} (hname : '/' ∉ name.toList) (base : String) :
    ∃ way, segments (join base name) = way ++ [name] ∧
      (segments base = way ∨ segments base = way ++ [""]) := by
  rw [join_of_relative (isAbsolute_of_slashless hname)]
  obtain ⟨rfl, hempty⟩ | ⟨front, hfront, hbase⟩ := asDirectory_cases base
  · rw [hempty, String.empty_append, segments_of_slashless hname]
    exact ⟨[], rfl, .inr rfl⟩
  · rw [hfront, segments_append_slash, segments_of_slashless hname]
    refine ⟨segments front, rfl, hbase.imp (congrArg segments) fun hslashed => ?_⟩
    have hbehind := segments_append_slash front ""
    rw [String.append_empty] at hbehind
    rw [hslashed, hbehind]
    rfl

/-! ## Joining -/

theorem join_of_isAbsolute {path : String} (hpath : isAbsolute path = true) (base : String) :
    join base path = path :=
  if_pos hpath

/-- What is joined to a joined path has the end of the second one in front of it. -/
theorem asDirectory_asDirectory_append (base path : String) :
    asDirectory (asDirectory base ++ path) = asDirectory base ++ asDirectory path := by
  obtain ⟨-, hempty⟩ | ⟨front, hfront, -⟩ := asDirectory_cases base
  · rw [hempty, String.empty_append, String.empty_append]
  · have hlast : (front ++ "/" ++ path).toList.getLast? = some (path.toList.getLast?.getD '/') := by
      cases hpath : path.toList.getLast? <;> simp [List.getLast?_cons, List.getLast?_append, hpath]
    rw [hfront, asDirectory, hlast, asDirectory]
    cases path.toList.getLast? with
    | none => rfl
    | some last =>
        by_cases hslash : last = '/'
        · simp [hslash]
        · simp [String.append_assoc]

/-- Paths are joined from either end. -/
theorem join_assoc (base path next : String) :
    join (join base path) next = join base (join path next) := by
  cases hnext : isAbsolute next with
  | true =>
      rw [join_of_isAbsolute hnext, join_of_isAbsolute hnext, join_of_isAbsolute hnext]
  | false =>
      cases hpath : isAbsolute path with
      | true =>
          have hjoined : isAbsolute (join path next) = true := by
            rw [isAbsolute_join, hpath, Bool.true_or]
          rw [join_of_isAbsolute hpath, join_of_isAbsolute hjoined]
      | false =>
          have hjoined : isAbsolute (join path next) = false := by
            rw [isAbsolute_join, hpath, hnext, Bool.or_false]
          rw [join_of_relative hnext, join_of_relative hpath, join_of_relative hjoined,
            join_of_relative hnext, asDirectory_asDirectory_append, String.append_assoc]

/-- For the normal form of a joined path, only the normal form of the base matters. -/
theorem normalize_join_normalize (base path : String) :
    normalize (join (normalize base) path) = normalize (join base path) := by
  cases hpath : isAbsolute path with
  | true => rw [join_of_isAbsolute hpath, join_of_isAbsolute hpath]
  | false =>
      have hrooted : isAbsolute (join (normalize base) path) = isAbsolute (join base path) := by
        rw [isAbsolute_join, isAbsolute_join, isAbsolute_normalize]
      have hbase : isAbsolute (join base path) = isAbsolute base := by
        rw [isAbsolute_join, hpath, Bool.or_false]
      -- the steps of the base are resolved first, and what they resolve to resolves to itself
      have hsteps :
          (steps (join (normalize base) path)).foldl (resolveStep (isAbsolute base)) [] =
            (steps (join base path)).foldl (resolveStep (isAbsolute base)) [] := by
        rw [steps_join hpath, steps_join hpath, List.foldl_append, List.foldl_append,
          steps_normalize, (settled_resolved _ base).foldl_reverse]
      unfold normalize at hrooted hsteps ⊢
      simp only [hrooted, hbase, hsteps]

/-- A path is made absolute piece by piece. -/
theorem absolutize_join (base path next : String) :
    absolutize (absolutize base path) next = absolutize base (join path next) := by
  rw [absolutize, absolutize, normalize_join_normalize, join_assoc, absolutize]

/-! ## What a normal form looks like -/

/-- A path in normal form. -/
structure IsNormal (path : String) : Prop where
  /-- There are single slashes between its steps, and nothing else is in it: no empty segments
  and no `.` segments. -/
  written : render (isAbsolute path) (steps path) = path
  /-- Behind the first name there is no `..`. -/
  leading : ".." ∉ (steps path).dropWhile (· == "..")
  /-- From the top, nothing leads up. -/
  rooted : isAbsolute path = true → ".." ∉ steps path

instance (path : String) : Decidable (IsNormal path) :=
  decidable_of_iff (render (isAbsolute path) (steps path) = path ∧
      ".." ∉ (steps path).dropWhile (· == "..") ∧ (isAbsolute path = true → ".." ∉ steps path))
    ⟨fun ⟨hwritten, hleading, hrooted⟩ => ⟨hwritten, hleading, hrooted⟩,
      fun hnormal => ⟨hnormal.written, hnormal.leading, hnormal.rooted⟩⟩

/-- Settled steps have `..` only in front. -/
theorem Settled.dotdot_notMem_dropWhile {rooted : Bool} {reached : List String}
    (hsettled : Settled rooted reached) :
    ".." ∉ reached.reverse.dropWhile (· == "..") := by
  induction reached with
  | nil => simp
  | cons step before ih =>
      obtain ⟨-, hup, hbefore⟩ := hsettled
      rw [List.reverse_cons, List.dropWhile_append]
      by_cases hstep : step = ".."
      · -- only `..` stands in front of this one, so all of them are dropped
        have hdropped : before.reverse.dropWhile (· == "..") = [] := by
          simpa [List.dropWhile_eq_nil_iff] using (hup hstep).2
        simp [hdropped, hstep]
      · have hother : ".." ≠ step := Ne.symm hstep
        split
        · simpa [hstep] using hother
        · simpa [hother] using ih hbefore

/-- Settled steps from the top have no `..`. -/
theorem Settled.dotdot_notMem {reached : List String} (hsettled : Settled true reached) :
    ".." ∉ reached := by
  induction reached with
  | nil => simp
  | cons step before ih =>
      obtain ⟨-, hup, hbefore⟩ := hsettled
      rintro (_ | ⟨_, hmem⟩)
      · exact absurd (hup rfl).1 (by decide)
      · exact ih hbefore hmem

/-- Normal forms are in normal form. -/
theorem isNormal_normalize (path : String) : IsNormal (normalize path) := by
  have hsettled := settled_resolved (isAbsolute path) path
  refine ⟨?_, ?_, fun habsolute => ?_⟩
  · rw [isAbsolute_normalize, steps_normalize]
    rfl
  · rw [steps_normalize]
    exact hsettled.dotdot_notMem_dropWhile
  · rw [isAbsolute_normalize] at habsolute
    rw [habsolute] at hsettled
    rw [steps_normalize, habsolute, List.mem_reverse]
    exact hsettled.dotdot_notMem

theorem isNormal_absolutize (base path : String) : IsNormal (absolutize base path) :=
  isNormal_normalize _

/-- `Path.absolutize` gives a normal form that goes along with joining: what is joined later can
as well be joined first, the form is absolute exactly if there was something absolute to begin
with, and an absolute one is the same from everywhere. -/
theorem absolutize_lexical_normal_form (base path : String) :
    (∀ next, absolutize (absolutize base path) next = absolutize base (join path next)) ∧
      (isAbsolute (absolutize base path) = true ↔
        isAbsolute base = true ∨ isAbsolute path = true) ∧
      IsNormal (absolutize base path) ∧
      (isAbsolute (absolutize base path) = true →
        ∀ other, absolutize other (absolutize base path) = absolutize base path) := by
  refine ⟨absolutize_join base path, ?_, isNormal_absolutize base path, absolutize_absolutize⟩
  rw [isAbsolute_absolutize, Bool.or_eq_true]

theorem absolutize_lexical_normal_form_upSample :
    isAbsolute (absolutize "/p/build" "../src/./a.c") = true ∧
      ∀ other, absolutize other "/p/src/a.c" = "/p/src/a.c" := by
  have habsolute : isAbsolute (absolutize "/p/build" "../src/./a.c") = true := by decide
  have hform : absolutize "/p/build" "../src/./a.c" = "/p/src/a.c" := by decide
  obtain ⟨-, -, -, hsame⟩ := absolutize_lexical_normal_form "/p/build" "../src/./a.c"
  rw [hform] at hsame
  exact ⟨habsolute, hsame (by decide)⟩

/-- A relative normal form keeps the steps up that it cannot take back, and can be empty. -/
example : absolutize "rel/" "../..//./a/" = "../a" ∧ absolutize "rel" ".." = "" := by
  decide

end Path
end SourceIndex
