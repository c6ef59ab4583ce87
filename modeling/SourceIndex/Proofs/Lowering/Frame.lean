import SourceIndex.Proofs.Lowering.References
import SourceIndex.Proofs.Lowering.Rules

/-!
# What a lowering leaves alone

A piece of a file is lowered below a cursor.  `Framed parent before after` says all that this
can do to the scopes, the depth and the cursors it finds:

* the depth and the number of open scopes are what they were, and so are all scopes but the
  innermost one;
* the innermost scope, or the table of the file outside of all scopes, gains names of
  variables and parameters that were added meanwhile;
* cursors stay as they are, but for new children of `parent`.

`meaning_framed` is about every parse tree and every state, so `parent` need NOT be a cursor of
the tree.  Nor does it matter whether the limit on nesting is hit on the way: a level that is
refused changes nothing of the above.
-/

namespace SourceIndex
namespace Lowering

/-- The names given in the innermost scope or, outside of all scopes, in the file; the last
one first. -/
def State.innermost (state : State) : LastTable :=
  match state.scopes with
  | scope :: _ => scope
  | [] => state.names.globals.toList.reverse

/-- All that a piece of a file can change when it is lowered below `parent`. -/
structure Framed (parent : NodeId) (before after : State) : Prop where
  depth : after.depth = before.depth
  length_scopes : after.scopes.length = before.scopes.length
  outer : after.scopes.tail = before.scopes.tail
  /-- Names are only added, and for new variables and parameters of that spelling. -/
  gained : ∃ given : LastTable, after.innermost = given ++ before.innermost ∧
    ∀ value ∈ given, before.tree.size ≤ value.2 ∧ after.tree.Named valueKinds value.1 value.2
  /-- In a scope, the table of the file is left alone. -/
  globals : before.scopes ≠ [] → after.names.globals = before.names.globals
  /-- In the table of the file, the first declaration of a name counts. -/
  first : ∀ name id, before.names.globals.find? name = some id →
    after.names.globals.find? name = some id
  size_le : before.tree.size ≤ after.tree.size
  others : ∀ id < before.tree.size, id ≠ parent →
    after.tree.nodes[id]? = before.tree.nodes[id]?
  /-- New cursors come last among the children. -/
  children : ∃ added : Array NodeId,
    (∀ child ∈ added, before.tree.size ≤ child ∧ child < after.tree.size) ∧
      ∀ node, before.tree.nodes[parent]? = some node →
        after.tree.nodes[parent]? = some { node with children := node.children ++ added }

/-! ## Names -/

section Names

variable {state : State} {name : String} {id : NodeId}

theorem State.innermost_eq {before after : State} (hscopes : after.scopes = before.scopes)
    (hglobals : after.names.globals = before.names.globals) :
    after.innermost = before.innermost := by
  rw [State.innermost, State.innermost, hscopes, hglobals]

theorem State.innermost_declare :
    (state.declare name id).innermost = (name, id) :: state.innermost := by
  obtain ⟨tree, scopes, names, pending, depth, deepest, tooDeep⟩ := state
  cases scopes with
  | nil => simp [State.declare, State.innermost]
  | cons scope outer => rfl

theorem State.length_scopes_declare :
    (state.declare name id).scopes.length = state.scopes.length := by
  unfold State.declare
  split
  next hscopes => simp [hscopes]
  next => rfl

theorem State.tail_scopes_declare :
    (state.declare name id).scopes.tail = state.scopes.tail := by
  unfold State.declare
  split
  next hscopes => simp [hscopes]
  next => rfl

theorem State.globals_declare (hopen : state.scopes ≠ []) :
    (state.declare name id).names.globals = state.names.globals := by
  unfold State.declare
  split
  next => rfl
  next hscopes => exact absurd hscopes hopen

theorem State.depth_declare : (state.declare name id).depth = state.depth := by
  unfold State.declare
  split <;> rfl

theorem State.find?_globals_declare {sought : String} {found : NodeId}
    (hfound : state.names.globals.find? sought = some found) :
    (state.declare name id).names.globals.find? sought = some found := by
  unfold State.declare
  split
  next => exact hfound
  next =>
    obtain ⟨entry, hentry, hid⟩ := Option.map_eq_some_iff.mp hfound
    rw [FirstTable.find?, Array.find?_push, hentry]
    exact congrArg some hid

end Names

/-! ## Steps -/

namespace Framed

variable {source : Source} {parent owner : NodeId} {before between after : State}

/-- Cursors that are there keep their kinds and spellings. -/
theorem named (hframed : Framed parent before after) {kinds : List CursorKind} {name : String}
    {id : NodeId} (hnamed : before.tree.Named kinds name id) : after.tree.Named kinds name id := by
  obtain ⟨node, hnode, hcalled⟩ := hnamed
  by_cases hid : id = parent
  · obtain ⟨added, -, habove⟩ := hframed.children
    rw [hid] at hnode ⊢
    exact ⟨_, habove node hnode, hcalled⟩
  · have hlt : id < before.tree.size := (Array.getElem?_eq_some_iff.mp hnode).1
    exact ⟨node, (hframed.others id hlt hid).trans hnode, hcalled⟩

/-- A step that leaves the depth and the names alone. -/
theorem of_same_names (hdepth : after.depth = before.depth) (hscopes : after.scopes = before.scopes)
    (hglobals : after.names.globals = before.names.globals)
    (hsize : before.tree.size ≤ after.tree.size)
    (hothers : ∀ id < before.tree.size, id ≠ parent →
      after.tree.nodes[id]? = before.tree.nodes[id]?)
    (hchildren : ∃ added : Array NodeId,
      (∀ child ∈ added, before.tree.size ≤ child ∧ child < after.tree.size) ∧
        ∀ node, before.tree.nodes[parent]? = some node →
          after.tree.nodes[parent]? = some { node with children := node.children ++ added }) :
    Framed parent before after where
  depth := hdepth
  length_scopes := by rw [hscopes]
  outer := by rw [hscopes]
  gained := ⟨[], State.innermost_eq hscopes hglobals, fun _ hvalue => nomatch hvalue⟩
  globals := fun _ => hglobals
  first := fun _ _ hfound => by rw [hglobals, hfound]
  size_le := hsize
  others := hothers
  children := hchildren

/-- Neither names nor cursors: the greatest depth and the mark of the limit may change. -/
theorem same (hdepth : after.depth = before.depth) (hscopes : after.scopes = before.scopes)
    (hglobals : after.names.globals = before.names.globals) (htree : after.tree = before.tree) :
    Framed parent before after := by
  refine of_same_names hdepth hscopes hglobals (Nat.le_of_eq (by rw [htree])) ?_ ?_
  · intro id _ _
    rw [htree]
  · refine ⟨#[], fun _ hchild => absurd hchild (Array.not_mem_empty _), fun node hnode => ?_⟩
    rw [htree, hnode, Array.append_empty]

/-- One piece after the other, the second one below the same cursor or below a new one. -/
theorem trans (hfirst : Framed parent before between) (hthen : Framed owner between after)
    (howner : owner = parent ∨ before.tree.size ≤ owner) : Framed parent before after where
  depth := hthen.depth.trans hfirst.depth
  length_scopes := hthen.length_scopes.trans hfirst.length_scopes
  outer := hthen.outer.trans hfirst.outer
  gained := by
    obtain ⟨early, hearly, hearlyNew⟩ := hfirst.gained
    obtain ⟨late, hlate, hlateNew⟩ := hthen.gained
    refine ⟨late ++ early, by rw [hlate, hearly, List.append_assoc], fun value hvalue => ?_⟩
    rcases List.mem_append.mp hvalue with hlater | hearlier
    · obtain ⟨hnew, hnamed⟩ := hlateNew value hlater
      exact ⟨Nat.le_trans hfirst.size_le hnew, hnamed⟩
    · obtain ⟨hnew, hnamed⟩ := hearlyNew value hearlier
      exact ⟨hnew, hthen.named hnamed⟩
  globals := by
    intro hopen
    have hstill : between.scopes ≠ [] := by
      rw [← List.length_pos_iff, hfirst.length_scopes]
      exact List.length_pos_iff.mpr hopen
    exact (hthen.globals hstill).trans (hfirst.globals hopen)
  first := fun name id hfound => hthen.first name id (hfirst.first name id hfound)
  size_le := Nat.le_trans hfirst.size_le hthen.size_le
  others := by
    intro id hid hother
    have hne : id ≠ owner := by
      rcases howner with rfl | hnew
      · exact hother
      · exact Nat.ne_of_lt (Nat.lt_of_lt_of_le hid hnew)
    rw [hthen.others id (Nat.lt_of_lt_of_le hid hfirst.size_le) hne, hfirst.others id hid hother]
  children := by
    obtain ⟨early, hearlyNew, hearly⟩ := hfirst.children
    have hwider : ∀ child ∈ early, before.tree.size ≤ child ∧ child < after.tree.size :=
      fun child hchild => (hearlyNew child hchild).imp_right
        fun hlt => Nat.lt_of_lt_of_le hlt hthen.size_le
    by_cases hsame : owner = parent
    · subst hsame
      obtain ⟨late, hlateNew, hlate⟩ := hthen.children
      refine ⟨early ++ late, fun child hchild => ?_, fun node hnode => ?_⟩
      · rcases Array.mem_append.mp hchild with hearlier | hlater
        · exact hwider child hearlier
        · exact (hlateNew child hlater).imp_left (Nat.le_trans hfirst.size_le)
      · rw [hlate _ (hearly node hnode), Array.append_assoc]
    · refine ⟨early, hwider, fun node hnode => ?_⟩
      have hlt : parent < between.tree.size :=
        Nat.lt_of_lt_of_le (Array.getElem?_eq_some_iff.mp hnode).1 hfirst.size_le
      rw [hthen.others parent hlt (Ne.symm hsame), hearly node hnode]

/-- A name for a new variable or parameter. -/
theorem declare (hframed : Framed parent before after) {name : String} {id : NodeId}
    (hnew : before.tree.size ≤ id) (hnamed : after.tree.Named valueKinds name id) :
    Framed parent before (after.declare name id) where
  depth := State.depth_declare.trans hframed.depth
  length_scopes := State.length_scopes_declare.trans hframed.length_scopes
  outer := State.tail_scopes_declare.trans hframed.outer
  gained := by
    obtain ⟨given, hgiven, hvalues⟩ := hframed.gained
    refine ⟨(name, id) :: given, by rw [State.innermost_declare, hgiven]; rfl, ?_⟩
    rw [State.tree_declare]
    intro value hvalue
    rcases List.mem_cons.mp hvalue with rfl | hold
    · exact ⟨hnew, hnamed⟩
    · exact hvalues value hold
  globals := by
    intro hopen
    have hstill : after.scopes ≠ [] := by
      rw [← List.length_pos_iff, hframed.length_scopes]
      exact List.length_pos_iff.mpr hopen
    rw [State.globals_declare hstill, hframed.globals hopen]
  first := fun sought found hfound =>
    State.find?_globals_declare (hframed.first sought found hfound)
  size_le := by
    rw [State.tree_declare]
    exact hframed.size_le
  others := by
    rw [State.tree_declare]
    exact hframed.others
  children := by
    rw [State.tree_declare]
    exact hframed.children

/-- A new cursor, and no name yet. -/
theorem push {node : Node} (hdepth : after.depth = before.depth)
    (hscopes : after.scopes = before.scopes)
    (hglobals : after.names.globals = before.names.globals)
    (htree : after.tree = before.tree.push parent node) : Framed parent before after := by
  have hsize : after.tree.size = before.tree.size + 1 := by rw [htree, CursorTree.size_push]
  refine of_same_names hdepth hscopes hglobals ?_ ?_ ?_
  · rw [hsize]
    exact Nat.le_succ _
  · intro id hid hother
    rw [htree, CursorTree.getElem?_push_of_any, if_neg hother, if_neg (Nat.ne_of_lt hid)]
  · refine ⟨#[before.tree.size], fun child hchild => ?_, fun above habove => ?_⟩
    · rw [Array.mem_singleton.mp hchild, hsize]
      exact ⟨Nat.le_refl _, Nat.lt_succ_self _⟩
    · have hlt : parent < before.tree.size := (Array.getElem?_eq_some_iff.mp habove).1
      rw [htree, CursorTree.getElem?_push_of_any, if_pos rfl, if_neg (Nat.ne_of_lt hlt), habove,
        Option.map_some, Array.push_eq_append]

/-- A new cursor, with the name it gives to itself. -/
theorem enter (place : Label) (entry : Entry) :
    Framed parent before (entry.enter source place parent before) := by
  have hnode : (before.tree.push parent (entry.node source before place)).card? before.tree.size =
      some (entry.node source before place).card := by
    rw [CursorTree.card?, CursorTree.getElem?_push_of_any, if_pos rfl]
    split <;> rfl
  have hpushed : ∀ pending, Framed parent before { before with
      tree := before.tree.push parent (entry.node source before place)
      names := entry.addTo before.tree.size before.names
      pending } :=
    fun _ => push rfl rfl (Entry.globals_addTo _ _ entry) rfl
  unfold Entry.enter
  cases hdeclared : entry.declared? with
  | none => exact hpushed _
  | some name =>
      obtain ⟨hkind, hspelling⟩ := Entry.kind_of_declared? hdeclared
      exact (hpushed _).declare (Nat.le_refl _)
        (CursorTree.named_iff_card?.mpr ⟨_, hnode, hkind, hspelling⟩)

/-- A scope of its own: no name that was given in it remains. -/
theorem closeScope (hinside : Framed parent before.openScope after) :
    Framed parent before after.closeScope :=
  of_same_names hinside.depth hinside.outer (hinside.globals (List.cons_ne_nil _ _))
    hinside.size_le hinside.others hinside.children

theorem shallower (hinside : Framed parent before.deeper after) :
    Framed parent before after.shallower :=
  { hinside with
    depth := by rw [State.shallower, hinside.depth, State.deeper, Nat.add_sub_cancel] }

end Framed

/-! ## Whole pieces -/

theorem Builds.framed {source : Source} {origin : Entry → Label → Prop} {parent : NodeId}
    {state after : State} (hbuilds : Builds source origin parent state after) :
    Framed parent state after := by
  induction hbuilds with
  | nothing => exact .same rfl rfl rfl rfl
  | andThen _ _ ihfirst ihthen => exact ihfirst.trans ihthen (.inl rfl)
  | cursor _ _ _ ih => exact (Framed.enter _ _).trans ih (.inr (Nat.le_refl _))
  | scope _ ih => exact ih.closeScope
  | level _ _ ih => exact ih.shallower
  | refusal => exact .same rfl rfl rfl rfl

/-- Whatever a parse tree is and wherever it stands, lowering it, or only the declarator that
it is, leaves alone all but what `Framed` lists. -/
theorem meaning_framed (source : Source) (tree : ParseTree) (parent : NodeId) (state : State) :
    (∀ place, Framed parent state ((meaning source tree).lower place parent state).2) ∧
      Framed parent state ((meaning source tree).lowerDeclarator parent state).2 := by
  -- nothing has to be known of where the cursors come from
  have hcovers : Origin.Covers ⟨fun _ _ => True, fun _ _ => True⟩ source tree :=
    ⟨fun _ => trivial, fun _ => trivial⟩
  have hsound := meaning_sound hcovers
  exact ⟨fun place => ((hsound place).lower parent state).builds.framed,
    ((hsound ⟨false, false⟩).lowerDeclarator parent state).builds.framed⟩

end Lowering
end SourceIndex
