import SourceIndex.Proofs.Cursor.Preorder
import SourceIndex.Proofs.Lowering.Rules

/-!
# Lowered trees are numbered in pre-order

Two properties of derivations carry the result.

* `Grows`: what is built below a cursor are new last children of that cursor, and
  the new positions number them and everything below them in pre-order.  No other
  older cursor gets a child.
* `State.Linked`: the links of all cursors, and all positions in the scopes and
  tables of names, lead to cursors that are already in the tree.  The positions of
  waiting references are NOT part of it: they are changed, never followed.

The end of the file only sets definitions and referenced entities
(`State.finish_induct`), so both carry over to the finished tree.
-/

namespace SourceIndex
namespace Lowering

open CursorTree (root Numbered)

/-! ## Growth -/

/-- The tree `after` is `before` with new cursors below `parent`. -/
structure Grows (parent : NodeId) (before after : CursorTree) : Prop where
  numbered : ∃ tops, after.childrenOf parent = before.childrenOf parent ++ tops ∧
    Numbered after tops before.size after.size
  kept : ∀ id : Nat, id < before.size → id ≠ parent → after.childrenOf id = before.childrenOf id

theorem Grows.refl (parent : NodeId) (tree : CursorTree) : Grows parent tree tree where
  numbered := ⟨[], by simp, .nil _⟩
  kept := fun _ _ _ => rfl

theorem Grows.trans {parent : Nat} {before between after : CursorTree}
    (hfirst : Grows parent before between) (hthen : Grows parent between after)
    (hparent : parent < before.size) : Grows parent before after := by
  obtain ⟨tops, hchildren, hnum⟩ := hfirst.numbered
  obtain ⟨later, hlater, hnum'⟩ := hthen.numbered
  have hle := hnum.first_le_last
  -- later cursors come below `parent`, which is older than all of `tops`
  have hearlier : Numbered after tops before.size between.size :=
    hnum.congr fun id hid hid' => hthen.kept id hid' (by omega)
  refine ⟨⟨tops ++ later, ?_, hearlier.append hnum'⟩, fun id hid hne => ?_⟩
  · rw [hlater, hchildren, List.append_assoc]
  · rw [hthen.kept id (by omega) hne, hfirst.kept id hid hne]

/-- A new cursor, and then everything below it. -/
theorem Grows.push {parent : Nat} {before after : CursorTree} {node : Node}
    (hnode : node.children = #[]) (hparent : parent < before.size)
    (hbelow : Grows before.size (before.push parent node) after) : Grows parent before after := by
  obtain ⟨tops, hchildren, hnum⟩ := hbelow.numbered
  rw [CursorTree.childrenOf_push_new hparent, hnode, List.nil_append] at hchildren
  rw [CursorTree.size_push] at hnum
  have hsize : parent ≠ before.size := Nat.ne_of_lt hparent
  -- what is built below the new cursor does not touch an older one
  have holder : ∀ id : Nat, id < before.size → after.childrenOf id =
      (before.push parent node).childrenOf id := by
    intro id hid
    refine hbelow.kept id ?_ (Nat.ne_of_lt hid)
    rw [CursorTree.size_push]
    omega
  refine ⟨⟨[before.size], ?_, ?_⟩, fun id hid hne => ?_⟩
  · rw [holder parent hparent, CursorTree.childrenOf_push_parent hparent]
  · refine .cons ?_ (.nil _)
    rw [hchildren]
    exact hnum
  · rw [holder id hid, CursorTree.childrenOf_push_of_ne hparent node (Nat.ne_of_lt hid) hne]

theorem Builds.grows {source : Source} {origin : Entry → Label → Prop} {parent : NodeId}
    {state after : State} (hbuilds : Builds source origin parent state after)
    (hparent : parent < state.tree.size) :
    Grows parent state.tree after.tree := by
  induction hbuilds with
  | nothing parent state => exact .refl parent state.tree
  | andThen hfirst _ ihfirst ihthen =>
      exact (ihfirst hparent).trans (ihthen (Nat.lt_of_lt_of_le hparent hfirst.size_le)) hparent
  | cursor _ _ _ ih =>
      rw [Entry.tree_enter] at ih
      refine .push rfl hparent (ih ?_)
      rw [CursorTree.size_push]
      exact Nat.lt_succ_self _
  | scope _ ih => exact ih hparent
  | level _ _ ih => exact ih hparent
  | refusal => exact .refl _ _

/-! ## Known positions -/

/-- The entries of all tables of a file. -/
def FileNames.entries (names : FileNames) : List (String × NodeId) :=
  names.functionDecls.toList ++ names.functionDefs.toList ++ names.tagDecls.toList ++
    names.tagDefs.toList ++ names.typedefs.toList ++ names.enumerators.toList ++
    names.fields.toList ++ names.globals.toList ++ names.macros

/-- The entries of all tables and scopes. -/
def State.entries (state : State) : List (String × NodeId) :=
  state.names.entries ++ state.scopes.flatten

theorem FirstTable.mem_of_find? {table : FirstTable} {name : String} {target : NodeId}
    (hfind : table.find? name = some target) : (name, target) ∈ table.toList := by
  obtain ⟨entry, hentry, rfl⟩ := Option.map_eq_some_iff.mp hfind
  have hname : entry.1 = name := by simpa using Array.find?_some hentry
  rw [← hname]
  exact Array.mem_toList_iff.mpr (Array.mem_of_find?_eq_some hentry)

theorem LastTable.mem_of_lookup {table : LastTable} {name : String} {target : NodeId}
    (hlookup : table.lookup name = some target) : (name, target) ∈ table := by
  obtain ⟨before, after, hsplit, -⟩ := List.lookup_eq_some_iff.mp hlookup
  rw [hsplit]
  simp

/-- Whatever a name means in a file is entered in one of its tables. -/
theorem FileNames.mem_entries_of_lookup {names : FileNames} {space : Space} {name : String}
    {target : NodeId} (hlookup : names.lookup space name = some target) :
    (name, target) ∈ names.entries := by
  have hfind : ∀ table : FirstTable, table.find? name = some target →
      (name, target) ∈ table.toList := fun table => FirstTable.mem_of_find?
  simp only [FileNames.entries, List.mem_append]
  cases space <;>
    simp only [FileNames.lookup, FileNames.function?, FileNames.tag?, Option.or_eq_some_iff] at hlookup <;>
    grind

theorem State.mem_entries_of_answer? {state : State} {space : Space} {name : String}
    {target : NodeId} (hanswer : state.answer? space name = some target) :
    (name, target) ∈ state.entries := by
  rw [State.answer?] at hanswer
  split at hanswer
  · obtain ⟨scope, hscope, hlookup⟩ := List.exists_of_findSome?_eq_some hanswer
    exact List.mem_append_right _
      (List.mem_flatten.mpr ⟨scope, hscope, LastTable.mem_of_lookup hlookup⟩)
  · cases hanswer

/-- A cursor adds entries for itself only. -/
theorem Entry.mem_entries_addTo {id : NodeId} {names : FileNames} {entry : Entry}
    {known : String × NodeId} (hknown : known ∈ (entry.addTo id names).entries) :
    known.2 = id ∨ known ∈ names.entries := by
  cases entry <;> simp only [Entry.addTo] at hknown <;> try split at hknown
  all_goals simp only [FileNames.entries, List.mem_append, Array.toList_push,
    List.mem_cons] at hknown ⊢
  all_goals grind

theorem State.mem_entries_declare {state : State} {name : String} {id : NodeId}
    {known : String × NodeId} (hknown : known ∈ (state.declare name id).entries) :
    known.2 = id ∨ known ∈ state.entries := by
  obtain ⟨tree, scopes, names, pending, depth, deepest, tooDeep⟩ := state
  cases scopes with
  | nil =>
      simp only [State.declare, State.entries, FileNames.entries, List.mem_append,
        Array.toList_push, List.mem_cons] at hknown ⊢
      grind
  | cons scope outer =>
      simp only [State.declare, State.entries, List.mem_append, List.flatten_cons,
        List.mem_cons, List.cons_append] at hknown ⊢
      grind

theorem Entry.mem_entries_enter {source : Source} {place : Label} {parent : NodeId}
    {state : State} {entry : Entry} {known : String × NodeId}
    (hknown : known ∈ (entry.enter source place parent state).entries) :
    known.2 = state.tree.size ∨ known ∈ state.entries := by
  have hentered : ∀ known ∈ (entry.addTo state.tree.size state.names).entries ++
      state.scopes.flatten, known.2 = state.tree.size ∨ known ∈ state.entries := by
    intro known hknown
    rcases List.mem_append.mp hknown with hname | hscope
    · exact (Entry.mem_entries_addTo hname).imp_right (List.mem_append_left _)
    · exact .inr (List.mem_append_right _ hscope)
  unfold Entry.enter at hknown
  split at hknown
  · exact hentered known hknown
  · exact (State.mem_entries_declare hknown).elim .inl (hentered known)

/-- Every position that the lowering may still follow is that of a cursor. -/
structure State.Linked (state : State) : Prop where
  targeted : state.tree.Targeted
  entries : ∀ entry ∈ state.entries, entry.2 < state.tree.size

theorem State.Linked.start (file : String) : (State.start file).Linked where
  targeted := by
    intro id node hnode target htarget
    have hid : id = 0 := by
      have hlt : id < 1 := (Array.getElem?_eq_some_iff.mp hnode).1
      exact Nat.lt_one_iff.mp hlt
    subst hid
    cases hnode
    cases htarget
  entries := by
    intro entry hentry
    cases hentry

/-- A new cursor is linked to itself or to something that was entered before. -/
theorem Entry.entities_node {source : Source} {place : Label} {state : State} {entry : Entry}
    (hallowed : entry.Allowed source state) {target : NodeId}
    (htarget : target ∈ (entry.node source state place).entities) :
    target = state.tree.size ∨ ∃ name, (name, target) ∈ state.entries := by
  simp only [Node.entities, Entry.node, List.mem_append, Option.mem_toList] at htarget
  rcases htarget with hdefinition | hreferenced
  · split at hdefinition
    · exact .inl (Option.some.inj hdefinition).symm
    · cases hdefinition
  · refine .inr ?_
    -- only the use of a macro is linked without its name being looked up
    by_cases hexpansion : ∃ name id, entry = .expansion name id
    · obtain ⟨name, id, rfl⟩ := hexpansion
      obtain rfl : id = target := Option.some.inj hreferenced
      exact ⟨name, List.mem_append_left _ (List.mem_append_right _
        (LastTable.mem_of_lookup hallowed.2))⟩
    · have hsought : entry.target? state =
          entry.sought?.bind fun sought => state.answer? sought.1 sought.2 := by
        cases entry <;> first | rfl | exact absurd ⟨_, _, rfl⟩ hexpansion
      rw [hsought] at hreferenced
      obtain ⟨sought, -, hanswer⟩ := Option.bind_eq_some_iff.mp hreferenced
      exact ⟨sought.2, State.mem_entries_of_answer? hanswer⟩

theorem State.Linked.enter {source : Source} {place : Label} {parent : Nat} {state : State}
    {entry : Entry} (hlinked : state.Linked) (hallowed : entry.Allowed source state)
    (hparent : parent < state.tree.size) : (entry.enter source place parent state).Linked where
  targeted := by
    rw [Entry.tree_enter]
    refine hlinked.targeted.push hparent fun target htarget => ?_
    rcases Entry.entities_node hallowed htarget with hself | ⟨name, hknown⟩
    · rw [hself]
      exact Nat.lt_succ_self _
    · exact Nat.lt_succ_of_lt (hlinked.entries _ hknown)
  entries := by
    intro known hknown
    rw [Entry.size_enter]
    rcases Entry.mem_entries_enter hknown with hself | hold
    · rw [hself]
      exact Nat.lt_succ_self _
    · exact Nat.lt_succ_of_lt (hlinked.entries _ hold)

theorem State.entries_closeScope_subset (state : State) {known : String × NodeId}
    (hknown : known ∈ state.closeScope.entries) : known ∈ state.entries := by
  obtain ⟨tree, scopes, names, pending, depth, deepest, tooDeep⟩ := state
  cases scopes with
  | nil => exact hknown
  | cons scope outer =>
      simp only [State.entries, State.closeScope, List.tail_cons, List.flatten_cons,
        List.mem_append] at hknown ⊢
      exact hknown.imp_right .inr

theorem Builds.linked {source : Source} {origin : Entry → Label → Prop} {parent : NodeId}
    {state after : State} (hbuilds : Builds source origin parent state after)
    (hparent : parent < state.tree.size)
    (hlinked : state.Linked) : after.Linked := by
  induction hbuilds with
  | nothing => exact hlinked
  | andThen hfirst _ ihfirst ihthen =>
      exact ihthen (Nat.lt_of_lt_of_le hparent hfirst.size_le) (ihfirst hparent hlinked)
  | cursor _ hallowed _ ih =>
      refine ih ?_ (hlinked.enter hallowed hparent)
      rw [Entry.size_enter]
      exact Nat.lt_succ_self _
  | @scope parent state after _ ih =>
      have hinside := ih hparent ⟨hlinked.targeted, hlinked.entries⟩
      exact ⟨hinside.targeted, fun known hknown =>
        hinside.entries known (after.entries_closeScope_subset hknown)⟩
  | level _ _ ih =>
      have hinside := ih hparent ⟨hlinked.targeted, hlinked.entries⟩
      exact ⟨hinside.targeted, hinside.entries⟩
  | refusal => exact ⟨hlinked.targeted, hlinked.entries⟩

/-! ## The end of the file -/

section Finish

variable {motive : CursorTree → Prop} {tree : CursorTree}

theorem resolvePending_induct {names : FileNames} {pending : List Pending} (htree : motive tree)
    (hset : ∀ tree id name target, motive tree → (name, target) ∈ names.entries →
      motive (tree.setReferenced id target)) :
    motive (resolvePending names pending tree) := by
  induction pending with
  | nil => exact htree
  | cons waiting rest ih =>
      rw [resolvePending, List.foldr_cons]
      cases hlookup : names.lookup waiting.space waiting.name with
      | none => exact ih
      | some target => exact hset _ _ _ target ih (FileNames.mem_entries_of_lookup hlookup)

theorem linkDeclarations_induct {decls defs : FirstTable} (htree : motive tree)
    (hset : ∀ tree id name target, motive tree → (name, target) ∈ defs.toList →
      motive (tree.setDefinition id target)) :
    motive (linkDeclarations decls defs tree) := by
  rw [linkDeclarations, ← Array.foldl_toList]
  generalize decls.toList = entries
  induction entries generalizing tree with
  | nil => exact htree
  | cons entry rest ih =>
      rw [List.foldl_cons]
      refine ih ?_
      cases hfind : FirstTable.find? defs entry.1 with
      | none => exact htree
      | some target => exact hset _ _ _ target htree (FirstTable.mem_of_find? hfind)

/-- What the finished tree keeps: whatever no link to an entered cursor can break. -/
theorem State.finish_induct {state : State} (htree : motive state.tree)
    (hreferenced : ∀ tree id name target, motive tree → (name, target) ∈ state.names.entries →
      motive (tree.setReferenced id target))
    (hdefinition : ∀ tree id name target, motive tree → (name, target) ∈ state.names.entries →
      motive (tree.setDefinition id target)) :
    motive state.finish := by
  -- references first, then functions, then tags
  refine linkDeclarations_induct (linkDeclarations_induct
    (resolvePending_induct htree hreferenced) ?_) ?_
  · intro tree id name target hmotive hmem
    exact hdefinition tree id name target hmotive (by simp [FileNames.entries, Array.mem_toList_iff.mp hmem])
  · intro tree id name target hmotive hmem
    exact hdefinition tree id name target hmotive (by simp [FileNames.entries, Array.mem_toList_iff.mp hmem])

end Finish

/-- The end of the file changes neither cursors nor children, and its links have
targets. -/
theorem State.Linked.finish {state : State} (hlinked : state.Linked) :
    state.finish.size = state.tree.size ∧
      (∀ id, state.finish.childrenOf id = state.tree.childrenOf id) ∧ state.finish.Targeted := by
  have hknown : ∀ name target, (name, target) ∈ state.names.entries →
      target < state.tree.size := fun name target hmem =>
    hlinked.entries (name, target) (List.mem_append_left _ hmem)
  refine State.finish_induct (motive := fun tree => tree.size = state.tree.size ∧
    (∀ id, tree.childrenOf id = state.tree.childrenOf id) ∧ tree.Targeted)
    ⟨rfl, fun _ => rfl, hlinked.targeted⟩ ?_ ?_
  · rintro tree id name target ⟨hsize, hchildren, htargeted⟩ hmem
    refine ⟨by simpa using hsize, by simpa using hchildren, htargeted.setReferenced id ?_⟩
    rw [hsize]
    exact hknown name target hmem
  · rintro tree id name target ⟨hsize, hchildren, htargeted⟩ hmem
    refine ⟨by simpa using hsize, by simpa using hchildren, htargeted.setDefinition id ?_⟩
    rw [hsize]
    exact hknown name target hmem

theorem finish_of_lowerFile? {source : Source} {tree : ParseTree} {lowered : CursorTree}
    (hlowered : lowerFile? source tree = some lowered) : (run source tree).finish = lowered := by
  rw [lowerFile?] at hlowered
  split at hlowered
  · cases hlowered
  · exact Option.some.inj hlowered

/-- **A lowered tree is numbered in pre-order, and its links are sound.** -/
theorem lowerFile?_preordered {source : Source} {tree : ParseTree} {lowered : CursorTree}
    (hlowered : lowerFile? source tree = some lowered) :
    lowered.Preordered ∧ lowered.WellLinked := by
  have hbuilds := builds_run source tree
  have hlinked := hbuilds.linked Nat.zero_lt_one (.start source.file)
  obtain ⟨tops, hchildren, hnum⟩ := (hbuilds.grows Nat.zero_lt_one).numbered
  obtain ⟨hsize, hsame, htargeted⟩ := hlinked.finish
  rw [finish_of_lowerFile? hlowered] at hsize hsame htargeted
  -- the root had no children at the start, so all its children are new
  have hpre : lowered.Preordered := by
    have htops : lowered.childrenOf root = tops := (hsame root).trans hchildren
    rw [CursorTree.Preordered, htops, hsize]
    exact hnum.congr fun id _ _ => hsame id
  have hpos : 0 < lowered.size := by
    rw [hsize]
    exact Nat.lt_of_lt_of_le Nat.zero_lt_one hbuilds.size_le
  exact ⟨hpre, hpre.wellLinked hpos htargeted⟩

end Lowering
end SourceIndex
