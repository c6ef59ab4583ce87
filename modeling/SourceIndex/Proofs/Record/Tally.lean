import Mathlib.Algebra.GroupWithZero.Nat
import Mathlib.Logic.Function.Iterate
import SourceIndex.Proofs.Cursor.Walk
import SourceIndex.Record.Extract

/-!
# Tallies do not depend on the order of counting

Names that are counted in another order stand in another order in the tally, but the
entries of each name are the same (`Tally.entriesOf_countAll`), so the ranking is the
same (`Tally.ranking_countAll`).  This holds of every tally, also of one that has two
entries for a name.

What an extraction counts does not depend on the tally it goes on with, nor does
anything else that it finds: it shows the same cursors and counts the names of those
that contribute nothing (`extract_alike`).
-/

namespace SourceIndex

namespace Tally

variable {first second : Tally} {name other : String}

/-- Counts names, one after the other. -/
def countAll (tally : Tally) (names : List String) : Tally :=
  names.foldl count tally

@[simp] theorem map_countAll_nil (tally : Option Tally) : tally.map (·.countAll []) = tally := by
  cases tally <;> rfl

theorem map_countAll_append (tally : Option Tally) (names more : List String) :
    tally.map (·.countAll (names ++ more)) =
      (tally.map (·.countAll names)).map (·.countAll more) := by
  cases tally with
  | none => rfl
  | some tally => simp [countAll, List.foldl_append]

/-- The entries of a name. -/
def entriesOf (tally : Tally) (name : String) : Tally :=
  tally.filter (·.1 == name)

/-- The entries of a name after it was counted once more. -/
def raise (name : String) : Tally → Tally
  | [] => [(name, 1)]
  | (known, times) :: rest => (known, times + 1) :: rest

theorem entriesOf_count_self (tally : Tally) (name : String) :
    (tally.count name).entriesOf name = raise name (tally.entriesOf name) := by
  induction tally with
  | nil => simp [count, entriesOf, raise]
  | cons entry rest ih =>
      obtain ⟨known, times⟩ := entry
      by_cases hknown : known = name
      · simp [count, entriesOf, raise, hknown]
      · simpa [count, entriesOf, hknown] using ih

theorem entriesOf_count_of_ne (tally : Tally) (hother : other ≠ name) :
    (tally.count other).entriesOf name = tally.entriesOf name := by
  induction tally with
  | nil => simp [count, entriesOf, hother]
  | cons entry rest ih =>
      obtain ⟨known, times⟩ := entry
      by_cases hknown : known = other
      · simp [count, entriesOf, hknown, hother]
      · by_cases hname : known = name
        · simpa [count, entriesOf, hname, hother.symm] using ih
        · simpa [count, entriesOf, hknown, hname] using ih

/-- The entries of a name know how often it was counted, and nothing else. -/
theorem entriesOf_countAll (tally : Tally) (names : List String) (name : String) :
    (tally.countAll names).entriesOf name =
      (raise name)^[names.count name] (tally.entriesOf name) := by
  induction names generalizing tally with
  | nil => rfl
  | cons counted names ih =>
      rw [countAll, List.foldl_cons, ← countAll, ih]
      by_cases hname : counted = name
      · rw [hname, entriesOf_count_self, List.count_cons_self, Function.iterate_succ_apply]
      · rw [entriesOf_count_of_ne tally hname, List.count_cons_of_ne hname]

/-- Tallies with the same entries of each name have the same entries. -/
theorem perm_of_entriesOf (hentries : ∀ name, first.entriesOf name = second.entriesOf name) :
    first.Perm second := by
  rw [List.perm_iff_count]
  intro entry
  have hown : ∀ tally : Tally,
      List.count entry (tally.entriesOf entry.1) = List.count entry tally :=
    fun tally => List.count_filter (beq_self_eq_true entry.1)
  rw [← hown first, ← hown second, hentries]

theorem precedes_iff {a b : String × Nat} :
    precedes a b = true ↔ b.2 < a.2 ∨ a.2 = b.2 ∧ a.1 ≤ b.1 := by
  rw [precedes, Bool.or_eq_true, Bool.and_eq_true, decide_eq_true_eq, beq_iff_eq,
    Bool.not_eq_true', decide_eq_false_iff_not, String.not_lt]

theorem pairwise_ranking (tally : Tally) :
    tally.ranking.Pairwise fun a b => precedes a b = true := by
  refine List.pairwise_mergeSort ?_ ?_ tally
  · intro a b c hab hbc
    rw [precedes_iff] at hab hbc ⊢
    rcases hab with hab | ⟨hab, hnames⟩
    · exact .inl (by omega)
    rcases hbc with hbc | ⟨hbc, hlater⟩
    · exact .inl (by omega)
    · exact .inr ⟨hab.trans hbc, String.le_trans hnames hlater⟩
  · intro a b
    rw [Bool.or_eq_true, precedes_iff, precedes_iff]
    rcases Nat.lt_trichotomy a.2 b.2 with hless | hsame | hmore
    · exact .inr (.inl hless)
    · rcases String.le_total a.1 b.1 with hname | hname
      · exact .inl (.inr ⟨hsame, hname⟩)
      · exact .inr (.inr ⟨hsame.symm, hname⟩)
    · exact .inl (.inl hmore)

theorem ranking_perm (tally : Tally) : tally.ranking.Perm tally :=
  List.mergeSort_perm tally _

/-- A ranking has one order only. -/
theorem eq_ranking_of_perm {listed : List (String × Nat)} (hperm : listed.Perm first)
    (horder : listed.Pairwise fun a b => precedes a b = true) : listed = first.ranking := by
  refine List.Perm.eq_of_pairwise ?_ horder (pairwise_ranking first)
    (hperm.trans (ranking_perm first).symm)
  intro a b _ _ hab hba
  rw [precedes_iff] at hab hba
  rcases hab with hab | ⟨hab, hname⟩
  · omega
  rcases hba with hba | ⟨hba, hback⟩
  · omega
  · exact Prod.ext (String.le_antisymm hname hback) hab

theorem ranking_eq_of_perm (hperm : first.Perm second) : first.ranking = second.ranking :=
  eq_ranking_of_perm ((ranking_perm first).trans hperm) (pairwise_ranking first)

/-- The order in which names are counted does not matter. -/
theorem ranking_countAll (tally : Tally) {names others : List String}
    (hperm : names.Perm others) :
    (tally.countAll names).ranking = (tally.countAll others).ranking := by
  refine ranking_eq_of_perm (perm_of_entriesOf fun name => ?_)
  rw [entriesOf_countAll, entriesOf_countAll, hperm.count_eq]

theorem iterate_raise (name : String) (times : Nat) :
    (raise name)^[times + 1] [] = [(name, times + 1)] := by
  induction times with
  | zero => rfl
  | succ times ih =>
      rw [Function.iterate_succ_apply', ih]
      rfl

/-- A ranking from the start has each name that was counted, with how often it was. -/
theorem mem_ranking_countAll {names : List String} {name : String} {times : Nat} :
    (name, times) ∈ (countAll [] names).ranking ↔ 0 < times ∧ times = names.count name := by
  have hown : (name, times) ∈ countAll [] names ↔
      (name, times) ∈ (countAll [] names).entriesOf name := by
    simp [entriesOf]
  rw [(ranking_perm _).mem_iff, hown, entriesOf_countAll]
  cases hcount : names.count name with
  | zero =>
      simp only [Function.iterate_zero, id_eq, entriesOf, List.filter_nil, List.not_mem_nil,
        false_iff]
      omega
  | succ more =>
      rw [entriesOf, List.filter_nil, iterate_raise, List.mem_singleton, Prod.mk.injEq,
        eq_self, true_and]
      omega

/-- A tally from the start has one entry for each name. -/
theorem nodup_names_countAll (names : List String) :
    ((countAll [] names).map Prod.fst).Nodup := by
  refine List.nodup_iff_count.mpr fun name => ?_
  have hentries : List.count name ((countAll [] names).map Prod.fst) =
      ((countAll [] names).entriesOf name).length := by
    rw [List.count, List.countP_map, List.countP_eq_length_filter]
    rfl
  rw [hentries, entriesOf_countAll]
  cases names.count name with
  | zero => exact Nat.zero_le _
  | succ more =>
      rw [entriesOf, List.filter_nil, iterate_raise]
      exact Nat.le_refl _

theorem sum_count (tally : Tally) (name : String) :
    ((tally.count name).map Prod.snd).sum = (tally.map Prod.snd).sum + 1 := by
  induction tally with
  | nil => rfl
  | cons entry rest ih =>
      obtain ⟨known, times⟩ := entry
      by_cases hknown : known = name
      · simp only [count, hknown, beq_self_eq_true, if_true, List.map_cons, List.sum_cons]
        omega
      · simp only [count, beq_eq_false_iff_ne.mpr hknown, Bool.false_eq_true, if_false,
          List.map_cons, List.sum_cons, ih]
        omega

/-- Every counting adds one to the sum of all numbers. -/
theorem sum_countAll (tally : Tally) (names : List String) :
    ((tally.countAll names).map Prod.snd).sum = (tally.map Prod.snd).sum + names.length := by
  induction names generalizing tally with
  | nil => rfl
  | cons name names ih =>
      rw [countAll, List.foldl_cons, ← countAll, ih, sum_count, List.length_cons]
      omega

/-- A ranking from the start is in strict order: no two entries can change places. -/
theorem strict_ranking_countAll (names : List String) :
    (countAll [] names).ranking.Pairwise fun a b => b.2 < a.2 ∨ a.2 = b.2 ∧ a.1 < b.1 := by
  have hnames : ((countAll [] names).ranking.map Prod.fst).Nodup :=
    (((ranking_perm _).map Prod.fst).nodup_iff).mpr (nodup_names_countAll names)
  have hapart := List.pairwise_map.mp hnames
  refine ((pairwise_ranking _).and hapart).imp fun {a b} hboth => ?_
  rcases precedes_iff.mp hboth.1 with hmore | ⟨hsame, hname⟩
  · exact .inl hmore
  · exact .inr ⟨hsame, Std.lt_of_le_of_ne hname hboth.2⟩

end Tally

/-! ## What an extraction counts -/

/-- The names that a cursor gives to a tally: the one of its kind, if the cursor is
looked at and contributes nothing. -/
def CursorTree.ignoredAt (tree : CursorTree) (id : NodeId) : List String :=
  match tree.nodes[id]? with
  | none => []
  | some node =>
    if node.location.isIndexable && node.kind.classification == .ignored then [node.kind.name]
    else []

namespace Extraction

/-- What a cursor adds to a record does not depend on the tally, nor does whether it
adds anything at all. -/
theorem addCursor?_record {found other : Extraction} (hsame : found.record = other.record)
    (tree : CursorTree) (id : NodeId) (node : Node) :
    (addCursor? tree found id node).map Extraction.record =
      (addCursor? tree other id node).map Extraction.record := by
  cases hclass : node.kind.classification with
  | declared =>
      cases hdefinition : node.definition with
      | none => simp [addCursor?, hclass, hdefinition, withRecord, hsame]
      | some target =>
          by_cases hself : target = id
          · simp [addCursor?, hclass, hdefinition, hself, withRecord, hsame]
          · cases hlinked : tree.nodes[target]? with
            | none => simp [addCursor?, hclass, hdefinition, hself, hlinked]
            | some linked =>
                simp [addCursor?, hclass, hdefinition, hself, hlinked, withRecord, hsame]
  | parameter =>
      by_cases hname : node.spelling = ""
      · simp [addCursor?, hclass, hname, hsame]
      · simp [addCursor?, hclass, hname, withRecord, hsame]
  | reference isCall =>
      cases hreferenced : node.referenced with
      | none => simp [addCursor?, hclass, hreferenced, withRecord, hsame]
      | some target =>
          cases hlinked : tree.nodes[target]? with
          | none => simp [addCursor?, hclass, hreferenced, hlinked]
          | some linked => simp [addCursor?, hclass, hreferenced, hlinked, withRecord, hsame]
  | _ => simp [addCursor?, hclass, withRecord, hsame]

/-- Visits with different tallies answer alike and find the same. -/
theorem alike_visit (tree : CursorTree) :
    tree.Alike (fun found other => found.record = other.record) (visit tree) (visit tree) := by
  intro found other id node _ hsame
  unfold visit
  split
  · have hboth := addCursor?_record hsame tree id node
    cases hfound : addCursor? tree found id node with
    | none =>
        rw [hfound, Option.map_none, eq_comm, Option.map_eq_none_iff] at hboth
        exact .inl ⟨rfl, by rw [hboth]; rfl⟩
    | some after =>
        rw [hfound, Option.map_some, eq_comm, Option.map_eq_some_iff] at hboth
        obtain ⟨otherAfter, hother, hrecords⟩ := hboth
        exact .inr ⟨after, otherAfter, .descend, rfl, by rw [hother]; rfl, hrecords.symm⟩
  · exact .inr ⟨found, other, .descend, rfl, rfl, hsame⟩

theorem tally_addCursor? {tree : CursorTree} {found after : Extraction} {id : NodeId}
    {node : Node} (hadd : addCursor? tree found id node = some after) :
    after.tally = found.tally.map
      (·.countAll (if node.kind.classification == .ignored then [node.kind.name] else [])) := by
  cases hclass : node.kind.classification with
  | ignored =>
      simp only [addCursor?, hclass, Option.some.injEq] at hadd
      subst hadd
      rfl
  | _ =>
      refine Eq.trans ?_ (Tally.map_countAll_nil found.tally).symm
      grind [addCursor?, withRecord]

theorem tally_visit {tree : CursorTree} {found after : Extraction} {id : NodeId} {node : Node}
    (hnode : tree.nodes[id]? = some node) {answer : Visit}
    (hvisit : visit tree found id node = some (after, answer)) :
    after.tally = found.tally.map (·.countAll (tree.ignoredAt id)) := by
  unfold visit at hvisit
  simp only [CursorTree.ignoredAt, hnode]
  split at hvisit
  next hindexed =>
    obtain ⟨added, hadd, hpair⟩ := Option.map_eq_some_iff.mp hvisit
    cases hpair
    rw [hindexed, Bool.true_and]
    exact tally_addCursor? hadd
  next hpassed =>
    cases hvisit
    rw [Bool.eq_false_iff.mpr hpassed, Bool.false_and]
    exact (Tally.map_countAll_nil found.tally).symm

/-- The tally is what the cursors that were shown make of it. -/
theorem alike_counting (tree : CursorTree) (tally : Option Tally) :
    tree.Alike
      (fun found noted => found.record = noted.1.record ∧
        found.tally = tally.map (·.countAll (noted.2.flatMap tree.ignoredAt)))
      (visit tree) (visit tree).noting := by
  rintro found noted id node hnode ⟨hrecord, htally⟩
  rcases alike_visit tree found noted.1 id node hnode hrecord with
    ⟨hnone, hother⟩ | ⟨after, otherAfter, answer, hvisit, hother, hrecords⟩
  · exact .inl ⟨hnone, by rw [Visitor.noting, hother]; rfl⟩
  · refine .inr ⟨after, (otherAfter, noted.2 ++ [id]), answer, hvisit,
      by rw [Visitor.noting, hother]; rfl, hrecords, ?_⟩
    rw [tally_visit hnode hvisit, htally, List.flatMap_append, List.flatMap_singleton,
      Tally.map_countAll_append]

end Extraction

/-- The names that an extraction counts, in order. -/
def CursorTree.ignoredNames (tree : CursorTree) (path : String) (flags : List String) :
    List String :=
  (tree.traverse (Extraction.visit tree).noting ({ record := { path, flags } }, [])).1.2.flatMap
    tree.ignoredAt

/-- The record of a tree, whatever its links are, and the end of the walk do not
depend on the tally. -/
theorem extract_alike (tree : CursorTree) (path : String) (flags : List String)
    (tally other : Option Tally) :
    (extract tree path flags tally).1.record = (extract tree path flags other).1.record ∧
      (extract tree path flags tally).2 = (extract tree path flags other).2 := by
  have hstart : ({ record := { path, flags }, tally } : Extraction).record =
      ({ record := { path, flags }, tally := other } : Extraction).record := rfl
  exact (Extraction.alike_visit tree).traverse hstart

theorem tally_extract (tree : CursorTree) (path : String) (flags : List String)
    (tally : Option Tally) :
    (extract tree path flags tally).1.tally =
      tally.map (·.countAll (tree.ignoredNames path flags)) := by
  refine ((Extraction.alike_counting tree tally).traverse ?_).1.2
  exact ⟨rfl, (Tally.map_countAll_nil tally).symm⟩

end SourceIndex
