import Mathlib.Data.List.Forall2
import SourceIndex.Proofs.Cursor.Recursion
import SourceIndex.Proofs.Record.Contents
import SourceIndex.Proofs.Record.Tally

/-!
# Extractions that share a tally

Several trees are extracted at the same time and count into one tally.  `SharedRun` has the
extractions with the cursors that each of them has still to visit, and a schedule says whose
turn it is, visit by visit.  A visit counts one name at most, so every order in which names
can come to be counted is that of some schedule.

The proof follows a run from its end: what one more visit at the start adds is one cursor in
front of the listing of its tree (`Extracting.Ends.visit`), and one name somewhere among those
that are counted (`Extracting.turn?_ends`).  So the names that a whole run counts are those of
the listings, in an order that depends on the schedule (`SharedRun.ends_of_run?`), and the
order does not matter for the ranking.

Nothing is said about runs that do NOT come to an end.  On trees with sound links every run
can be brought to one (`SharedRun.Remains.exists_endsIn`).
-/

namespace SourceIndex

open CursorTree (root Listing)

/-! ## Turns -/

/-- A tree to extract, with the path and the flags of its record. -/
structure ExtractJob where
  tree : CursorTree
  path : String
  flags : List String

/-- An extraction that has come some way. -/
structure Extracting where
  job : ExtractJob
  record : Record
  /-- The cursors that are still to come, without those below them. -/
  stack : List NodeId

/-- An extraction before its first visit. -/
def ExtractJob.start (job : ExtractJob) : Extracting where
  job := job
  record := { path := job.path, flags := job.flags }
  stack := job.tree.childrenOf root

/-- Visits the next cursor, with the tally as the others have left it, and goes on below the
cursor.  There is no answer if no cursor is left, or if a link without a target would have to
be followed. -/
def Extracting.next? (part : Extracting) (tally : Option Tally) :
    Option (Extracting × Option Tally) :=
  match part.stack with
  | [] => none
  | id :: stack =>
    (part.job.tree.answer? (Extraction.visit part.job.tree) ⟨part.record, tally⟩ id).map
      fun answer =>
        ({ part with record := answer.1.record, stack := part.job.tree.childrenOf id ++ stack },
          answer.1.tally)

/-- Lets the extraction at a position visit its next cursor. -/
def Extracting.turn? (tally : Option Tally) :
    Nat → List Extracting → Option (List Extracting × Option Tally)
  | _, [] => none
  | 0, part :: rest => (part.next? tally).map fun after => (after.1 :: rest, after.2)
  | turn + 1, part :: rest => (turn? tally turn rest).map fun after => (part :: after.1, after.2)

/-- Several extractions that go on with one tally, or with none. -/
structure SharedRun where
  parts : List Extracting
  tally : Option Tally

namespace SharedRun

/-- The extractions before their first visits. -/
def start (jobs : List ExtractJob) (tally : Option Tally) : SharedRun where
  parts := jobs.map ExtractJob.start
  tally := tally

/-- Lets the extractions visit their cursors in the order of a schedule. -/
def run? : List Nat → SharedRun → Option SharedRun
  | [], run => some run
  | turn :: turns, run =>
    (Extracting.turn? run.tally turn run.parts).bind fun after => run? turns ⟨after.1, after.2⟩

/-- No extraction has a cursor left. -/
def AtRest (run : SharedRun) : Prop :=
  ∀ part ∈ run.parts, part.stack = []

/-- Some schedule leads to an end of all extractions. -/
def EndsIn (run final : SharedRun) : Prop :=
  ∃ turns, run.run? turns = some final ∧ final.AtRest

/-- The tally is shown as this list.  Its entries are read in any order before they are
ranked. -/
def Shows (run : SharedRun) (snapshot : List (String × Nat)) : Prop :=
  ∃ tally listed, run.tally = some tally ∧ listed.Perm tally ∧ snapshot = Tally.ranking listed

end SharedRun

/-! ## One visit -/

/-- A visit goes on below its cursor, counts the name that the cursor gives, and would find the
same without a tally. -/
theorem Extraction.of_answer? {tree : CursorTree} {record : Record} {tally : Option Tally}
    {id : NodeId} {after : Extraction} {next : Visit}
    (hanswer : tree.answer? (visit tree) ⟨record, tally⟩ id = some (after, next)) :
    after.tally = tally.map (·.countAll (tree.ignoredAt id)) ∧
      tree.answer? (visit tree) ⟨record, none⟩ id = some (⟨after.record, none⟩, .descend) := by
  obtain ⟨node, hnode, hvisit⟩ := Option.bind_eq_some_iff.mp hanswer
  refine ⟨tally_visit hnode hvisit, ?_⟩
  rcases alike_visit tree ⟨record, tally⟩ ⟨record, none⟩ id node hnode rfl with
    ⟨hnone, -⟩ | ⟨found, other, answer, hfound, hother, hrecord⟩
  · rw [hvisit] at hnone
    cases hnone
  · rw [hvisit, Option.some.injEq, Prod.mk.injEq] at hfound
    have htally : other.tally = none := tally_visit hnode hother
    have hnext : answer = .descend := by
      unfold visit at hother
      split at hother
      · obtain ⟨added, -, hpair⟩ := Option.map_eq_some_iff.mp hother
        exact (congrArg Prod.snd hpair).symm
      · exact (congrArg Prod.snd (Option.some.inj hother)).symm
    rw [CursorTree.answer?, hnode, Option.bind_some, hother, hnext, hfound.1, hrecord, ← htally]

section Visits

variable {part after : Extracting} {tally tallyAfter : Option Tally}

/-- All that a visit does. -/
theorem Extracting.of_next? (hnext : part.next? tally = some (after, tallyAfter)) :
    ∃ id stack, part.stack = id :: stack ∧
      after.stack = part.job.tree.childrenOf id ++ stack ∧ after.job = part.job ∧
      tallyAfter = tally.map (·.countAll (part.job.tree.ignoredAt id)) ∧
      part.job.tree.answer? (Extraction.visit part.job.tree) ⟨part.record, none⟩ id =
        some (⟨after.record, none⟩, .descend) := by
  unfold Extracting.next? at hnext
  split at hnext
  · cases hnext
  next id stack hstack =>
    obtain ⟨⟨found, next⟩, hanswer, hpair⟩ := Option.map_eq_some_iff.mp hnext
    obtain ⟨htally, halone⟩ := Extraction.of_answer? hanswer
    cases hpair
    exact ⟨id, stack, hstack, rfl, rfl, htally, halone⟩

/-- From `part` on, an extraction visits the cursors `ids` and comes to its end in `last`.  Alone
and without a tally, the walk has the same record. -/
structure Extracting.Ends (part : Extracting) (ids : List NodeId) (last : Extracting) : Prop where
  job : last.job = part.job
  listing : part.job.tree.Listing part.stack ids
  walk : ∀ bound, part.job.tree.walk (Extraction.visit part.job.tree) (bound + ids.length)
    part.stack ⟨part.record, none⟩ = (⟨last.record, none⟩, .finished)

theorem Extracting.Ends.of_atRest (hrest : part.stack = []) : part.Ends [] part where
  job := rfl
  listing := by
    rw [hrest]
    exact .nil
  walk := by
    intro bound
    rw [hrest]
    cases bound <;> rfl

/-- One more visit at the start is one more cursor in front. -/
theorem Extracting.Ends.visit {ids : List NodeId} {last : Extracting}
    (hends : after.Ends ids last) (hnext : part.next? tally = some (after, tallyAfter)) :
    ∃ id, part.Ends (id :: ids) last ∧
      tallyAfter = tally.map (·.countAll (part.job.tree.ignoredAt id)) := by
  obtain ⟨id, stack, hstack, hafter, hjob, htally, halone⟩ := Extracting.of_next? hnext
  have hlisting := hends.listing
  rw [hafter, hjob] at hlisting
  obtain ⟨below, beside, rfl, hbelow, hbeside⟩ := hlisting.of_append
  refine ⟨id, ⟨hends.job.trans hjob, ?_, fun bound => ?_⟩, htally⟩
  · rw [hstack]
    exact .cons hbelow hbeside
  · have hrest := hends.walk bound
    rw [hafter, hjob] at hrest
    rw [hstack, List.length_cons, ← Nat.add_assoc, CursorTree.walk_cons, halone]
    exact hrest

end Visits

/-! ## Whole runs -/

/-- The extractions of a run, each with the cursors it visited. -/
abbrev Courses := List (List NodeId × Extracting)

/-- The names that the visited cursors give to a tally, one extraction after the other. -/
def Courses.names (courses : Courses) : List String :=
  courses.flatMap fun course => course.1.flatMap course.2.job.tree.ignoredAt

/-- A turn is one more cursor in one of the extractions, and its name is one of those that are
counted. -/
theorem Extracting.turn?_ends {parts after : List Extracting} {tally tallyAfter : Option Tally}
    {turn : Nat} (hturn : turn? tally turn parts = some (after, tallyAfter)) {courses : Courses}
    (hcourses : List.Forall₂ (fun part course => part.Ends course.1 course.2) after courses) :
    ∃ longer : Courses, ∃ counted,
      List.Forall₂ (fun part course => part.Ends course.1 course.2) parts longer ∧
      longer.map Prod.snd = courses.map Prod.snd ∧
      tallyAfter = tally.map (·.countAll counted) ∧
      longer.names.Perm (counted ++ courses.names) := by
  induction parts generalizing turn after courses with
  | nil => simp [turn?] at hturn
  | cons part rest ih =>
      cases turn with
      | zero =>
          obtain ⟨⟨next, tallyNext⟩, hnext, hpair⟩ := Option.map_eq_some_iff.mp hturn
          cases hpair
          obtain ⟨⟨ids, last⟩, later, hends, hlater, rfl⟩ := List.forall₂_cons_left_iff.mp hcourses
          obtain ⟨id, hvisit, htally⟩ := hends.visit hnext
          refine ⟨(id :: ids, last) :: later, _, .cons hvisit hlater, rfl, htally, ?_⟩
          rw [← hvisit.job]
          simp [Courses.names]
      | succ turn =>
          obtain ⟨⟨others, tallyNext⟩, hothers, hpair⟩ := Option.map_eq_some_iff.mp hturn
          cases hpair
          obtain ⟨course, later, hends, hlater, rfl⟩ := List.forall₂_cons_left_iff.mp hcourses
          obtain ⟨longer, counted, hlonger, hlast, htally, hnames⟩ := ih hothers hlater
          refine ⟨course :: longer, counted, .cons hends hlonger, by simp [hlast], htally, ?_⟩
          -- the names of the extractions before the one whose turn it is come first
          have hmoved := (hnames.append_left (course.1.flatMap course.2.job.tree.ignoredAt)).trans
            (List.perm_append_comm_assoc _ _ _)
          simpa [Courses.names] using hmoved

namespace SharedRun

/-- What a run has counted is what the cursors in the listings give, in some order. -/
theorem ends_of_run? {run final : SharedRun} {turns : List Nat}
    (hrun : run.run? turns = some final) (hrest : final.AtRest) :
    ∃ courses : Courses, ∃ counted,
      List.Forall₂ (fun part course => part.Ends course.1 course.2) run.parts courses ∧
      final.parts = courses.map Prod.snd ∧
      final.tally = run.tally.map (·.countAll counted) ∧ courses.names.Perm counted := by
  induction turns generalizing run with
  | nil =>
      cases hrun
      refine ⟨final.parts.map fun part => ([], part), [], ?_, by simp [Function.comp_def],
        by simp, ?_⟩
      · rw [List.forall₂_map_right_iff, List.forall₂_same]
        exact fun part hpart => .of_atRest (hrest part hpart)
      · simp [Courses.names]
  | cons turn turns ih =>
      obtain ⟨⟨after, tallyAfter⟩, hturn, hlater⟩ := Option.bind_eq_some_iff.mp hrun
      obtain ⟨courses, counted, hcourses, hlast, htally, hnames⟩ := ih hlater
      obtain ⟨longer, first, hlonger, hsame, hfirst, hperm⟩ := Extracting.turn?_ends hturn hcourses
      refine ⟨longer, first ++ counted, hlonger, hlast.trans hsame.symm, ?_,
        hperm.trans (hnames.append_left first)⟩
      rw [htally, Tally.map_countAll_append, ← hfirst]

end SharedRun

/-! ## Runs come to an end -/

/-- The cursors that an extraction has still to visit, all of which can be visited. -/
structure Extracting.Lists (part : Extracting) (ids : List NodeId) : Prop where
  listing : part.job.tree.Listing part.stack ids
  answers : ∀ id ∈ ids, ∀ found,
    ∃ answer, part.job.tree.answer? (Extraction.visit part.job.tree) found id = some answer

namespace Extracting.Lists

variable {part after : Extracting} {tally tallyAfter : Option Tally} {ids : List NodeId}

/-- With each visit there is one cursor less. -/
theorem next? (hlists : part.Lists ids) (hnext : part.next? tally = some (after, tallyAfter)) :
    ∃ rest, after.Lists rest ∧ ids.length = rest.length + 1 := by
  obtain ⟨id, stack, hstack, hafter, hjob, -, -⟩ := Extracting.of_next? hnext
  obtain ⟨hlisting, hanswers⟩ := hlists
  rw [hstack] at hlisting
  cases hlisting with
  | @cons _ _ below beside hbelow hbeside =>
      refine ⟨below ++ beside, ⟨?_, fun other hother => ?_⟩, rfl⟩
      · rw [hafter, hjob]
        exact hbelow.append hbeside
      · rw [hjob]
        exact hanswers other (List.mem_cons_of_mem _ hother)

theorem exists_next? (hlists : part.Lists ids) (hleft : part.stack ≠ []) (tally : Option Tally) :
    ∃ after, part.next? tally = some after := by
  obtain ⟨hlisting, hanswers⟩ := hlists
  unfold Extracting.next?
  cases hstack : part.stack with
  | nil => exact absurd hstack hleft
  | cons id stack =>
      rw [hstack] at hlisting
      have hid : id ∈ ids := by
        cases hlisting
        exact List.mem_cons_self
      obtain ⟨answer, hanswer⟩ := hanswers id hid ⟨part.record, tally⟩
      dsimp only
      rw [hanswer]
      exact ⟨_, rfl⟩

end Extracting.Lists

theorem Extracting.turn?_lists {parts after : List Extracting} {tally tallyAfter : Option Tally}
    {turn : Nat} (hturn : turn? tally turn parts = some (after, tallyAfter))
    {listings : List (List NodeId)}
    (hlists : List.Forall₂ Extracting.Lists parts listings) :
    ∃ rest, List.Forall₂ Extracting.Lists after rest ∧
      (listings.map List.length).sum = (rest.map List.length).sum + 1 := by
  induction parts generalizing turn after listings with
  | nil => simp [turn?] at hturn
  | cons part others ih =>
      obtain ⟨ids, later, hpart, hlater, rfl⟩ := List.forall₂_cons_left_iff.mp hlists
      cases turn with
      | zero =>
          obtain ⟨⟨next, tallyNext⟩, hnext, hpair⟩ := Option.map_eq_some_iff.mp hturn
          cases hpair
          obtain ⟨rest, hrest, hlength⟩ := hpart.next? hnext
          refine ⟨rest :: later, .cons hrest hlater, ?_⟩
          simp only [List.map_cons, List.sum_cons, hlength]
          omega
      | succ turn =>
          obtain ⟨⟨moved, tallyNext⟩, hmoved, hpair⟩ := Option.map_eq_some_iff.mp hturn
          cases hpair
          obtain ⟨rest, hrest, hlength⟩ := ih hmoved hlater
          refine ⟨ids :: rest, .cons hpart hrest, ?_⟩
          simp only [List.map_cons, List.sum_cons, hlength]
          omega

/-- As long as a cursor is left somewhere, somebody can take a turn. -/
theorem Extracting.exists_turn? {parts : List Extracting} {listings : List (List NodeId)}
    (hlists : List.Forall₂ Extracting.Lists parts listings)
    (hleft : ∃ part ∈ parts, part.stack ≠ []) (tally : Option Tally) :
    ∃ turn after, turn? tally turn parts = some after := by
  induction hlists with
  | nil =>
      obtain ⟨part, hpart, -⟩ := hleft
      cases hpart
  | @cons part ids rest later hpart _ ih =>
      by_cases hnone : part.stack = []
      · have hothers : ∃ other ∈ rest, other.stack ≠ [] := by
          obtain ⟨other, hother, hsome⟩ := hleft
          rcases List.mem_cons.mp hother with rfl | hlater
          · exact absurd hnone hsome
          · exact ⟨other, hlater, hsome⟩
        obtain ⟨turn, after, hturn⟩ := ih hothers
        exact ⟨turn + 1, _, by rw [turn?, hturn]; rfl⟩
      · obtain ⟨after, hnext⟩ := hpart.exists_next? hnone tally
        exact ⟨0, _, by rw [turn?, hnext]; rfl⟩

namespace SharedRun

/-- The extractions of a run have this many visits left, all of which can be made. -/
def Remains (run : SharedRun) (left : Nat) : Prop :=
  ∃ listings : List (List NodeId),
    List.Forall₂ Extracting.Lists run.parts listings ∧ (listings.map List.length).sum = left

theorem Remains.run? {run after : SharedRun} {left : Nat} (hremains : run.Remains left)
    {turns : List Nat} (hrun : run.run? turns = some after) : ∃ fewer, after.Remains fewer := by
  induction turns generalizing run left with
  | nil =>
      cases hrun
      exact ⟨left, hremains⟩
  | cons turn turns ih =>
      obtain ⟨⟨parts, tally⟩, hturn, hlater⟩ := Option.bind_eq_some_iff.mp hrun
      obtain ⟨listings, hlists, -⟩ := hremains
      obtain ⟨rest, hrest, -⟩ := Extracting.turn?_lists hturn hlists
      exact ih ⟨rest, hrest, rfl⟩ hlater

theorem Remains.exists_endsIn {run : SharedRun} {left : Nat} (hremains : run.Remains left) :
    ∃ final, run.EndsIn final := by
  induction left using Nat.strongRecOn generalizing run with
  | _ left ih =>
      by_cases hrest : run.AtRest
      · exact ⟨run, [], rfl, hrest⟩
      · obtain ⟨listings, hlists, hsum⟩ := hremains
        have hleft : ∃ part ∈ run.parts, part.stack ≠ [] := by simpa [AtRest] using hrest
        obtain ⟨turn, ⟨parts, tally⟩, hturn⟩ := Extracting.exists_turn? hlists hleft run.tally
        obtain ⟨rest, hrest, hfewer⟩ := Extracting.turn?_lists hturn hlists
        have hafter : Remains ⟨parts, tally⟩ (rest.map List.length).sum := ⟨rest, hrest, rfl⟩
        obtain ⟨final, turns, hrun, hfinal⟩ := ih _ (by omega) hafter
        exact ⟨final, turn :: turns, by rw [SharedRun.run?, hturn]; exact hrun, hfinal⟩

/-- At the start, the cursors of trees with sound links can all be visited. -/
theorem remains_start {jobs : List ExtractJob}
    (hlinks : ∀ job ∈ jobs, job.tree.linkFault? = none) (tally : Option Tally) :
    ∃ left, (start jobs tally).Remains left := by
  have hlists : ∀ job ∈ jobs, ∃ ids, job.start.Lists ids := by
    intro job hjob
    have hlinked := (CursorTree.linkFault?_eq_none_iff job.tree).mp (hlinks job hjob)
    obtain ⟨ids, hlisting⟩ := hlinked.exists_listing
    refine ⟨ids, hlisting, fun id hid found => ?_⟩
    have hlt : id < job.tree.nodes.size :=
      (hlinked.underway_listing hlisting).lt_size hlinked (List.mem_append_left _ hid)
    have hnode : job.tree.nodes[id]? = some job.tree.nodes[id] := Array.getElem?_eq_getElem hlt
    have hanswer := Extraction.visit_eq hlinked.targeted found id _ hnode
    exact ⟨_, Option.bind_eq_some_iff.mpr ⟨_, hnode, hanswer⟩⟩
  choose! listings hlistings using hlists
  refine ⟨_, jobs.map listings, ?_, rfl⟩
  rw [start, List.forall₂_map_left_iff, List.forall₂_map_right_iff, List.forall₂_same]
  exact hlistings

end SharedRun

/-! ## What is shown in the end -/

namespace CursorTree

/-- Whether a cursor is one that a tally counts: it stands in a file, and its kind gives no
entries. -/
def isCounted (tree : CursorTree) (id : NodeId) : Bool :=
  tree.isIndexed id && tree.isUnclassified id

/-- The name of the kind of the cursor at a position. -/
def kindName (tree : CursorTree) (id : NodeId) : String :=
  (tree.nodes[id]?.map fun node => node.kind.name).getD ""

theorem ignoredAt_eq (tree : CursorTree) (id : NodeId) :
    tree.ignoredAt id = if tree.isCounted id then [tree.kindName id] else [] := by
  cases hnode : tree.nodes[id]? with
  | none => simp [ignoredAt, isCounted, isIndexed, hnode]
  | some node =>
      have hkind : tree.isUnclassified id = (node.kind.classification == .ignored) := by
        rw [isUnclassified, hnode, Option.any_some]
        cases node.kind <;> rfl
      rw [isCounted, isIndexed_of_getElem? hnode, hkind]
      simp [ignoredAt, kindName, hnode]

theorem flatMap_ignoredAt (tree : CursorTree) (ids : List NodeId) :
    ids.flatMap tree.ignoredAt = (ids.filter tree.isCounted).map tree.kindName := by
  induction ids with
  | nil => rfl
  | cons id rest ih =>
      rw [List.flatMap_cons, List.filter_cons, ih, ignoredAt_eq]
      split <;> rfl

end CursorTree

/-- The names of the kinds of all counted cursors, if each tree has the cursors that `reached`
says. -/
def countedNames (jobs : List ExtractJob) (reached : ExtractJob → List NodeId) : List String :=
  jobs.flatMap fun job => ((reached job).filter job.tree.isCounted).map job.tree.kindName

/-- An extraction that shares its tally finds what it would have found alone. -/
theorem Extracting.Ends.record_eq {job : ExtractJob} {ids : List NodeId} {last : Extracting}
    (hends : job.start.Ends ids last) (tally : Option Tally) :
    last.record = (extract job.tree job.path job.flags tally).1.record := by
  have hlisting : job.tree.Listing (job.tree.childrenOf root) ids := hends.listing
  have hwalk : job.tree.walk (Extraction.visit job.tree) job.tree.visitBound
      (job.tree.childrenOf root) ⟨{ path := job.path, flags := job.flags }, none⟩ =
        (⟨last.record, none⟩, .finished) := by
    rw [← Nat.sub_add_cancel hlisting.length_le_visitBound]
    exact hends.walk (job.tree.visitBound - ids.length)
  rw [(extract_alike job.tree job.path job.flags tally none).1, extract, CursorTree.traverse]
  cases htop : job.tree.nodes[root]? with
  | none =>
      rw [CursorTree.childrenOf, htop, CursorTree.walk] at hwalk
      exact (congrArg (fun result => result.1.record) hwalk).symm
  | some top =>
      rw [CursorTree.childrenOf_of_getElem? htop] at hwalk
      dsimp only
      rw [hwalk]

section Ends

variable {jobs : List ExtractJob} {courses : Courses}

/-- Where all extractions come to an end, the cursors of every tree can be listed. -/
theorem Courses.exists_reached
    (hcourses : List.Forall₂ (fun job course => job.start.Ends course.1 course.2) jobs courses) :
    ∀ job ∈ jobs, ∃ ids, job.tree.Listing (job.tree.childrenOf root) ids := by
  induction hcourses with
  | nil => exact fun _ hjob => nomatch hjob
  | cons hends _ ih => exact List.forall_mem_cons.mpr ⟨⟨_, hends.listing⟩, ih⟩

theorem Courses.names_eq {reached : ExtractJob → List NodeId}
    (hcourses : List.Forall₂ (fun job course => job.start.Ends course.1 course.2) jobs courses)
    (hreached : ∀ job ∈ jobs, job.tree.Listing (job.tree.childrenOf root) (reached job)) :
    courses.names = countedNames jobs reached := by
  induction hcourses with
  | nil => rfl
  | @cons job course rest later hends _ ih =>
      obtain ⟨hjob, hrest⟩ := List.forall_mem_cons.mp hreached
      have hids : course.1 = reached job := Listing.unique hends.listing hjob
      have hsame : course.2.job = job := hends.job
      have htail := ih hrest
      rw [Courses.names] at htail ⊢
      rw [List.flatMap_cons, htail, hsame, hids, CursorTree.flatMap_ignoredAt]
      rfl

theorem Courses.records_eq
    (hcourses : List.Forall₂ (fun job course => job.start.Ends course.1 course.2) jobs courses)
    (tally : Option Tally) :
    (courses.map Prod.snd).map Extracting.record =
      jobs.map fun job => (extract job.tree job.path job.flags tally).1.record := by
  induction hcourses with
  | nil => rfl
  | cons hends _ ih => rw [List.map_cons, List.map_cons, List.map_cons, ih, hends.record_eq tally]

end Ends

/-- The end of a run, as what the extractions of its jobs come to. -/
theorem SharedRun.EndsIn.exists_courses {jobs : List ExtractJob} {tally : Option Tally}
    {final : SharedRun} (hends : (start jobs tally).EndsIn final) :
    ∃ courses : Courses, ∃ counted,
      List.Forall₂ (fun job course => job.start.Ends course.1 course.2) jobs courses ∧
      final.parts = courses.map Prod.snd ∧
      final.tally = tally.map (·.countAll counted) ∧ courses.names.Perm counted := by
  obtain ⟨turns, hrun, hrest⟩ := hends
  obtain ⟨courses, counted, hcourses, hfinal⟩ := ends_of_run? hrun hrest
  exact ⟨courses, counted, List.forall₂_map_left_iff.mp hcourses, hfinal⟩

/-- The names that a run has counted do not depend on its schedule, nor on the order of the
jobs, but for their own order. -/
theorem SharedRun.EndsIn.exists_counted {jobs others : List ExtractJob} {tally : Option Tally}
    {final : SharedRun} (hends : (start others tally).EndsIn final) (hothers : others.Perm jobs)
    {reached : ExtractJob → List NodeId}
    (hreached : ∀ job ∈ jobs, job.tree.Listing (job.tree.childrenOf root) (reached job)) :
    ∃ counted, final.tally = tally.map (·.countAll counted) ∧
      counted.Perm (countedNames jobs reached) := by
  obtain ⟨courses, counted, hcourses, -, htally, hnames⟩ := hends.exists_courses
  have hsame : courses.names = countedNames others reached :=
    Courses.names_eq hcourses fun job hjob => hreached job (hothers.mem_iff.mp hjob)
  rw [hsame] at hnames
  exact ⟨counted, htally, hnames.symm.trans (hothers.flatMap_right _)⟩

/-- One list only can be shown of a tally from the start. -/
theorem SharedRun.shows_iff {final : SharedRun} {counted names : List String}
    (htally : final.tally = some (Tally.countAll [] counted)) (hcounted : counted.Perm names)
    (shown : List (String × Nat)) :
    final.Shows shown ↔ shown = (Tally.countAll [] names).ranking := by
  have hranking := Tally.ranking_countAll [] hcounted
  constructor
  · rintro ⟨tally, listed, hsome, hlisted, rfl⟩
    rw [htally, Option.some.injEq] at hsome
    rw [Tally.ranking_eq_of_perm hlisted, ← hsome, hranking]
  · rintro rfl
    exact ⟨_, _, htally, .refl _, hranking.symm⟩

/-- **What is shown does not depend on the schedule.**  On trees that pass the link check, every
run can be brought to an end.  Once some run has come to its end, let `reached` have the cursors
of each tree that are reached from the root.  Then one list is shown at the end of every run of
these extractions, in any order and by any schedule: it has the name of each kind of counted
cursors once, with how many there are, by falling numbers and then by name, and the numbers add
up to the number of counted cursors.  The records are those of extractions that run alone,
whether there is a tally or not. -/
theorem shows_of_any_schedule (jobs : List ExtractJob) :
    ((∀ job ∈ jobs, job.tree.linkFault? = none) → ∀ tally turns between,
      (SharedRun.start jobs tally).run? turns = some between → ∃ final, between.EndsIn final) ∧
    ∀ ended, (SharedRun.start jobs (some [])).EndsIn ended →
      ∃ (reached : ExtractJob → List NodeId) (snapshot : List (String × Nat)),
        (∀ job ∈ jobs,
          (∀ id, id ∈ reached job ↔ ∃ top ∈ job.tree.childrenOf root, job.tree.Under top id) ∧
          (job.tree.linkFault? = none → (reached job).Nodup)) ∧
        (∀ others final, others.Perm jobs → (SharedRun.start others (some [])).EndsIn final →
          ∀ shown, final.Shows shown ↔ shown = snapshot) ∧
        (∀ name times, (name, times) ∈ snapshot ↔
          0 < times ∧ times = (countedNames jobs reached).count name) ∧
        (snapshot.map Prod.fst).Nodup ∧
        snapshot.Pairwise (fun a b => b.2 < a.2 ∨ a.2 = b.2 ∧ a.1 < b.1) ∧
        (snapshot.map Prod.snd).sum = (countedNames jobs reached).length ∧
        ∀ collector tally final, (SharedRun.start jobs collector).EndsIn final →
          final.parts.map Extracting.record =
            jobs.map fun job => (extract job.tree job.path job.flags tally).1.record := by
  refine ⟨fun hlinks tally turns between hrun => ?_, fun ended hended => ?_⟩
  · obtain ⟨left, hremains⟩ := SharedRun.remains_start hlinks tally
    obtain ⟨fewer, hfewer⟩ := hremains.run? hrun
    exact hfewer.exists_endsIn
  obtain ⟨courses, -, hcourses, -⟩ := hended.exists_courses
  have hlistings := Courses.exists_reached hcourses
  choose! reached hreached using hlistings
  have hperm := Tally.ranking_perm (Tally.countAll [] (countedNames jobs reached))
  refine ⟨reached, (Tally.countAll [] (countedNames jobs reached)).ranking,
    fun job hjob => ⟨fun id => (hreached job hjob).mem_iff, fun hlinks => ?_⟩,
    fun others final hothers hfinal => ?_, fun name times => Tally.mem_ranking_countAll, ?_,
    Tally.strict_ranking_countAll _, ?_, fun collector tally final hfinal => ?_⟩
  · have hlinked := (CursorTree.linkFault?_eq_none_iff job.tree).mp hlinks
    exact (hlinked.underway_listing (hreached job hjob)).fresh.of_cons
  · obtain ⟨counted, htally, hcounted⟩ := hfinal.exists_counted hothers hreached
    exact SharedRun.shows_iff htally hcounted
  · exact (hperm.map Prod.fst).nodup_iff.mpr (Tally.nodup_names_countAll _)
  · rw [(hperm.map Prod.snd).sum_nat, Tally.sum_countAll, List.map_nil, List.sum_nil, Nat.zero_add]
  · obtain ⟨own, -, hown, hparts, -⟩ := hfinal.exists_courses
    rw [hparts]
    exact Courses.records_eq hown tally

/-- A block with two return statements. -/
def blockSample : CursorTree where
  spelling := "t.c"
  nodes := #[{ kind := .unit, spelling := "t.c", location := .nowhere, children := #[1] },
    { kind := .unexposed "compound_statement", spelling := "",
      location := { file := "t.c", line := 1 }, children := #[2, 3] },
    { kind := .unexposed "return_statement", spelling := "",
      location := { file := "t.c", line := 2 } },
    { kind := .unexposed "return_statement", spelling := "",
      location := { file := "t.c", line := 3 } }]

/-- A return statement that stands nowhere, with an empty statement and a variable below it. -/
def strayedSample : CursorTree where
  spelling := "u.c"
  nodes := #[{ kind := .unit, spelling := "u.c", location := .nowhere, children := #[1] },
    { kind := .unexposed "return_statement", spelling := "", location := .nowhere,
      children := #[2, 3] },
    { kind := .unexposed "asm", spelling := "", location := { file := "u.c", line := 1 } },
    { kind := .variable, spelling := "x", location := { file := "u.c", line := 2 } }]

/-- Two extractions that count into one tally. -/
def sharedSample : List ExtractJob :=
  [⟨blockSample, "t.c", []⟩, ⟨strayedSample, "u.c", []⟩]

theorem shows_of_any_schedule_sharedSample :
    (∀ job ∈ sharedSample, job.tree.linkFault? = none) ∧
      (∃ ended, (SharedRun.start sharedSample (some [])).run? [1, 0, 1, 0, 1, 0] = some ended ∧
        ended.AtRest) ∧
      (∃ final, (SharedRun.start sharedSample none).EndsIn final) ∧
      ∀ others final, others.Perm sharedSample →
        (SharedRun.start others (some [])).EndsIn final →
          final.Shows [("return_statement", 2), ("asm", 1), ("compound_statement", 1)] := by
  have hlinks : ∀ job ∈ sharedSample, job.tree.linkFault? = none := by decide
  obtain ⟨hprogress, hend⟩ := shows_of_any_schedule sharedSample
  obtain ⟨ended, hrun, hended⟩ : ∃ ended,
      (SharedRun.start sharedSample (some [])).run? [1, 0, 1, 0, 1, 0] = some ended ∧
        (ended.parts.all (fun part => part.stack.isEmpty) = true ∧
          ended.tally = some [("compound_statement", 1), ("asm", 1), ("return_statement", 2)]) :=
    ⟨_, rfl, by decide⟩
  have hrest : ended.AtRest := fun part hpart =>
    List.isEmpty_iff.mp (List.all_eq_true.mp hended.1 part hpart)
  obtain ⟨reached, snapshot, -, hshown, -⟩ := hend ended ⟨_, hrun, hrest⟩
  -- the list that this one run shows is the list that all runs show
  have hone : ended.Shows [("return_statement", 2), ("asm", 1), ("compound_statement", 1)] :=
    ⟨_, _, hended.2, .refl _, Tally.eq_ranking_of_perm (by decide) (by decide)⟩
  have hsnapshot := (hshown sharedSample ended (.refl _) ⟨_, hrun, hrest⟩ _).mp hone
  exact ⟨hlinks, ⟨ended, hrun, hrest⟩, hprogress hlinks none [] _ rfl,
    fun others final hothers hfinal => (hshown others final hothers hfinal _).mpr hsnapshot⟩

end SourceIndex
