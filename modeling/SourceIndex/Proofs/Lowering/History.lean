import SourceIndex.Proofs.Lowering.Definitions

/-!
# How a cursor came to be

Every cursor of a lowered file was entered at some moment, in the state that the
lowering had reached then.  After that, little happens to it: an older cursor keeps its
card and its reference, and no more references of it are put off to the end of the file
(`State.Extends`).  So whatever the state at that moment had to satisfy is a fact about
the cursor in the finished tree (`Builds.exists_moment`), and all states of a lowering
satisfy what each step keeps (`Keeps`).

The main statement is `Entered.referenced?_finish`: in the finished tree a cursor refers
to what it was given at once or, failing that, to what its name means in the tables of
the whole file.  It does NOT say which cursors those are.
-/

namespace SourceIndex
namespace Lowering

open CursorTree (root)

/-! ## Invariants -/

/-- A property of states that no step of a lowering breaks. -/
structure Keeps (source : Source) (origin : Entry → Label → Prop) (holds : State → Prop) :
    Prop where
  enter : ∀ {state : State} {entry : Entry} {place : Label} {parent : Nat}, holds state →
    origin entry place → entry.Allowed source state → parent < state.tree.size →
    holds (entry.enter source place parent state)
  openScope : ∀ {state : State}, holds state → holds state.openScope
  closeScope : ∀ {state : State}, holds state → holds state.closeScope
  level : ∀ {state : State} (depth deepest : Nat) (tooDeep : Bool), holds state →
    holds { state with depth, deepest, tooDeep }

section Invariants

variable {source : Source} {origin : Entry → Label → Prop} {holds also : State → Prop}

theorem Keeps.and (hkeeps : Keeps source origin holds) (halso : Keeps source origin also) :
    Keeps source origin fun state => holds state ∧ also state where
  enter := fun hstate horigin hallowed hparent =>
    ⟨hkeeps.enter hstate.1 horigin hallowed hparent,
      halso.enter hstate.2 horigin hallowed hparent⟩
  openScope := fun hstate => ⟨hkeeps.openScope hstate.1, halso.openScope hstate.2⟩
  closeScope := fun hstate => ⟨hkeeps.closeScope hstate.1, halso.closeScope hstate.2⟩
  level := fun depth deepest tooDeep hstate =>
    ⟨hkeeps.level depth deepest tooDeep hstate.1, halso.level depth deepest tooDeep hstate.2⟩

/-- What each step keeps, a derivation keeps. -/
theorem Builds.keeps (hkeeps : Keeps source origin holds) {parent : NodeId} {state after : State}
    (hbuilds : Builds source origin parent state after) (hparent : parent < state.tree.size)
    (hstate : holds state) : holds after := by
  induction hbuilds with
  | nothing => exact hstate
  | andThen hfirst _ ihfirst ihthen =>
      exact ihthen (Nat.lt_of_lt_of_le hparent hfirst.size_le) (ihfirst hparent hstate)
  | cursor horigin hallowed _ ih =>
      exact ih (Entry.lt_size_enter _ _ _ _ _) (hkeeps.enter hstate horigin hallowed hparent)
  | scope _ ih => exact hkeeps.closeScope (ih hparent (hkeeps.openScope hstate))
  | level _ _ ih => exact hkeeps.level _ _ _ (ih hparent (hkeeps.level _ _ _ hstate))
  | refusal => exact hkeeps.level _ _ _ hstate

end Invariants

/-! ## References that wait -/

/-- The references of a cursor that wait for the end of the file. -/
def State.waiting (state : State) (id : NodeId) : List Pending :=
  state.pending.filter fun waiting => waiting.id == id

/-- Only cursors of the tree wait. -/
def State.WaitsInside (state : State) : Prop :=
  ∀ waiting ∈ state.pending, waiting.id < state.tree.size

/-- The reference of a new cursor that has to wait: that of a name without an answer. -/
def Entry.waiting (state : State) (entry : Entry) : List Pending :=
  match entry.sought? with
  | none => []
  | some (space, name) =>
    if (state.answer? space name).isSome then [] else [{ id := state.tree.size, space, name }]

section Waiting

variable {source : Source} {place : Label} {parent : Nat} {state : State} {entry : Entry}

theorem Entry.pending_enter :
    (entry.enter source place parent state).pending = entry.waiting state ++ state.pending := by
  have hpending : entry.pending state = entry.waiting state ++ state.pending := by
    unfold Entry.pending Entry.waiting
    cases entry.sought? with
    | none => rfl
    | some sought =>
        dsimp only
        cases state.answer? sought.1 sought.2 <;> rfl
  rw [← hpending]
  unfold Entry.enter
  cases entry.declared? with
  | none => rfl
  | some name =>
      dsimp only
      unfold State.declare
      split <;> rfl

theorem Entry.id_of_mem_waiting {waiting : Pending} (hwaiting : waiting ∈ entry.waiting state) :
    waiting.id = state.tree.size := by
  unfold Entry.waiting at hwaiting
  split at hwaiting
  · cases hwaiting
  · split at hwaiting
    · cases hwaiting
    · rw [List.mem_singleton.mp hwaiting]

theorem keeps_waitsInside (source : Source) (origin : Entry → Label → Prop) :
    Keeps source origin State.WaitsInside where
  enter := by
    intro state entry place parent hinside _ _ _ waiting hwaiting
    rw [Entry.size_enter]
    rw [Entry.pending_enter, List.mem_append] at hwaiting
    rcases hwaiting with hnew | hold
    · rw [Entry.id_of_mem_waiting hnew]
      exact Nat.lt_succ_self _
    · exact Nat.lt_succ_of_lt (hinside waiting hold)
  openScope := fun hinside => hinside
  closeScope := fun hinside => hinside
  level := fun _ _ _ hinside => hinside

/-- What the references of a new cursor that wait are. -/
theorem Entry.waiting_enter_new (hinside : state.WaitsInside) :
    (entry.enter source place parent state).waiting state.tree.size = entry.waiting state := by
  have hnew : (entry.waiting state).filter (fun waiting => waiting.id == state.tree.size) =
      entry.waiting state := by
    refine List.filter_eq_self.mpr fun waiting hwaiting => ?_
    rw [Entry.id_of_mem_waiting hwaiting]
    exact beq_self_eq_true _
  have hold : state.pending.filter (fun waiting => waiting.id == state.tree.size) = [] := by
    refine List.filter_eq_nil_iff.mpr fun waiting hwaiting => ?_
    simpa using Nat.ne_of_lt (hinside waiting hwaiting)
  rw [State.waiting, Entry.pending_enter, List.filter_append, hnew, hold, List.append_nil]

theorem Entry.waiting_enter_old {id : Nat} (hid : id < state.tree.size) :
    (entry.enter source place parent state).waiting id = state.waiting id := by
  have hnew : (entry.waiting state).filter (fun waiting => waiting.id == id) = [] := by
    refine List.filter_eq_nil_iff.mpr fun waiting hwaiting => ?_
    rw [Entry.id_of_mem_waiting hwaiting]
    simpa using Nat.ne_of_gt hid
  rw [State.waiting, Entry.pending_enter, List.filter_append, hnew, List.nil_append]
  rfl

end Waiting

/-! ## What later steps leave alone -/

/-- A later state: older cursors keep their cards and references, and those of their
references that wait. -/
structure State.Extends (before after : State) : Prop where
  size_le : before.tree.size ≤ after.tree.size
  card? : ∀ id : Nat, id < before.tree.size → after.tree.card? id = before.tree.card? id
  referenced? : ∀ id : Nat, id < before.tree.size →
    after.tree.referenced? id = before.tree.referenced? id
  waiting : ∀ id : Nat, id < before.tree.size → after.waiting id = before.waiting id

namespace State.Extends

variable {before between after : State}

/-- Scopes and levels do not matter. -/
theorem same (htree : after.tree = before.tree) (hpending : after.pending = before.pending) :
    before.Extends after where
  size_le := Nat.le_of_eq (by rw [htree])
  card? := fun _ _ => by rw [htree]
  referenced? := fun _ _ => by rw [htree]
  waiting := fun _ _ => by rw [State.waiting, hpending, State.waiting]

theorem trans (hfirst : before.Extends between) (hthen : between.Extends after) :
    before.Extends after where
  size_le := Nat.le_trans hfirst.size_le hthen.size_le
  card? := fun id hid => by
    rw [hthen.card? id (Nat.lt_of_lt_of_le hid hfirst.size_le), hfirst.card? id hid]
  referenced? := fun id hid => by
    rw [hthen.referenced? id (Nat.lt_of_lt_of_le hid hfirst.size_le), hfirst.referenced? id hid]
  waiting := fun id hid => by
    rw [hthen.waiting id (Nat.lt_of_lt_of_le hid hfirst.size_le), hfirst.waiting id hid]

theorem enter {source : Source} {place : Label} {parent : Nat} {state : State}
    (hparent : parent < state.tree.size) (entry : Entry) :
    state.Extends (entry.enter source place parent state) where
  size_le := by
    rw [Entry.size_enter]
    exact Nat.le_succ _
  card? := fun id hid => by
    rw [Entry.tree_enter, CursorTree.card?_push hparent, if_neg (Nat.ne_of_lt hid)]
  referenced? := fun id hid => by
    rw [Entry.tree_enter, CursorTree.referenced?_push hparent, if_neg (Nat.ne_of_lt hid)]
  waiting := fun _ hid => Entry.waiting_enter_old hid

end State.Extends

theorem keeps_extends (source : Source) (origin : Entry → Label → Prop) (before : State) :
    Keeps source origin before.Extends where
  enter := fun hextends _ _ hparent => hextends.trans (.enter hparent _)
  openScope := fun hextends => hextends.trans (.same rfl rfl)
  closeScope := fun hextends => hextends.trans (.same rfl rfl)
  level := fun _ _ _ hextends => hextends.trans (.same rfl rfl)

theorem Builds.extends {source : Source} {origin : Entry → Label → Prop} {parent : NodeId}
    {state after : State} (hbuilds : Builds source origin parent state after)
    (hparent : parent < state.tree.size) : state.Extends after :=
  hbuilds.keeps (keeps_extends source origin state) hparent (.same rfl rfl)

/-! ## The moment of a cursor -/

/-- In the state `before`, a cursor was entered for `entry`, and `after` came later. -/
structure Entered (source : Source) (origin : Entry → Label → Prop) (before : State)
    (entry : Entry) (place : Label) (after : State) : Prop where
  origin : origin entry place
  allowed : entry.Allowed source before
  older : before.Extends after
  card? : after.tree.card? before.tree.size = some (entry.card source place before.tree.size)
  referenced? : after.tree.referenced? before.tree.size = entry.target? before
  waiting : after.waiting before.tree.size = entry.waiting before

section Moments

variable {source : Source} {origin : Entry → Label → Prop}

theorem Entered.later {before between after : State} {entry : Entry} {place : Label}
    (hentered : Entered source origin before entry place between)
    (hlater : between.Extends after) : Entered source origin before entry place after := by
  have hnew : before.tree.size < between.tree.size :=
    CursorTree.lt_size_of_card? hentered.card?
  exact ⟨hentered.origin, hentered.allowed, hentered.older.trans hlater,
    (hlater.card? _ hnew).trans hentered.card?,
    (hlater.referenced? _ hnew).trans hentered.referenced?,
    (hlater.waiting _ hnew).trans hentered.waiting⟩

theorem Entered.enter {state : State} {entry : Entry} {place : Label} {parent : Nat}
    (hinside : state.WaitsInside) (horigin : origin entry place)
    (hallowed : entry.Allowed source state) (hparent : parent < state.tree.size) :
    Entered source origin state entry place (entry.enter source place parent state) where
  origin := horigin
  allowed := hallowed
  older := .enter hparent entry
  card? := by
    rw [Entry.tree_enter, CursorTree.card?_push hparent, if_pos rfl]
    rfl
  referenced? := by
    rw [Entry.tree_enter, CursorTree.referenced?_push hparent, if_pos rfl]
    rfl
  waiting := Entry.waiting_enter_new hinside

/-- Each cursor that a derivation adds was entered at some moment, and what steps keep
held then. -/
theorem Builds.exists_moment {holds : State → Prop} (hkeeps : Keeps source origin holds)
    {parent : NodeId} {state after : State} (hbuilds : Builds source origin parent state after)
    (hparent : parent < state.tree.size) (hstate : holds state) (hinside : state.WaitsInside)
    {id : Nat} (hold : state.tree.size ≤ id) (hnew : id < after.tree.size) :
    ∃ before entry place, before.tree.size = id ∧ holds before ∧
      Entered source origin before entry place after := by
  have hboth := hkeeps.and (keeps_waitsInside source origin)
  induction hbuilds with
  | nothing => exact absurd hold (Nat.not_le_of_lt hnew)
  | @andThen parent state between after hfirst hthen ihfirst ihthen =>
      have hbetween : parent < between.tree.size := Nat.lt_of_lt_of_le hparent hfirst.size_le
      by_cases hid : id < between.tree.size
      · obtain ⟨before, entry, place, hsize, hbefore, hentered⟩ :=
          ihfirst hparent hstate hinside hold hid
        exact ⟨before, entry, place, hsize, hbefore, hentered.later (hthen.extends hbetween)⟩
      · obtain ⟨hheld, hwaits⟩ := hfirst.keeps hboth hparent ⟨hstate, hinside⟩
        exact ihthen hbetween hheld hwaits (Nat.le_of_not_lt hid) hnew
  | @cursor parent state after entry place horigin hallowed hbelow ih =>
      have htop := Entry.lt_size_enter source place parent state entry
      have hentered := Entered.enter hinside horigin hallowed hparent
      rcases Nat.eq_or_lt_of_le hold with hid | hlt
      · exact ⟨state, entry, place, hid, hstate, hentered.later (hbelow.extends htop)⟩
      · obtain ⟨hheld, hwaits⟩ := hboth.enter ⟨hstate, hinside⟩ horigin hallowed hparent
        refine ih htop hheld hwaits ?_ hnew
        rw [Entry.size_enter]
        exact hlt
  | scope _ ih =>
      obtain ⟨before, entry, place, hsize, hbefore, hentered⟩ :=
        ih hparent (hkeeps.openScope hstate) hinside hold hnew
      exact ⟨before, entry, place, hsize, hbefore, hentered.later (.same rfl rfl)⟩
  | level _ _ ih =>
      obtain ⟨before, entry, place, hsize, hbefore, hentered⟩ :=
        ih hparent (hkeeps.level _ _ _ hstate) hinside hold hnew
      exact ⟨before, entry, place, hsize, hbefore, hentered.later (.same rfl rfl)⟩
  | refusal => exact absurd hold (Nat.not_le_of_lt hnew)

end Moments

/-! ## The end of the file -/

theorem size_resolvePending (names : FileNames) (pending : List Pending) (tree : CursorTree) :
    (resolvePending names pending tree).size = tree.size := by
  refine resolvePending_induct (motive := fun after => after.size = tree.size) rfl ?_
  intro after id name target hafter _
  rw [CursorTree.size_setReferenced, hafter]

/-- Of the references of a cursor that wait, the last one with an answer counts. -/
theorem referenced?_resolvePending (names : FileNames) (pending : List Pending)
    {tree : CursorTree} {id : Nat} (hid : id < tree.size) :
    (resolvePending names pending tree).referenced? id =
      ((pending.filter fun waiting => waiting.id == id).findSome? fun waiting =>
        names.lookup waiting.space waiting.name).or (tree.referenced? id) := by
  induction pending with
  | nil => rfl
  | cons waiting rest ih =>
      have hsize : id < (resolvePending names rest tree).size := by
        rw [size_resolvePending]
        exact hid
      have hset := @CursorTree.referenced?_setReferenced _ waiting.id _ hsize
      rw [resolvePending, List.foldr_cons]
      by_cases hwaiting : waiting.id = id
      · rw [List.filter_cons_of_pos (by simpa using hwaiting), List.findSome?_cons]
        cases names.lookup waiting.space waiting.name with
        | none => exact ih
        | some target => exact (hset target).trans (if_pos hwaiting)
      · rw [List.filter_cons_of_neg (by simpa using hwaiting)]
        cases names.lookup waiting.space waiting.name with
        | none => exact ih
        | some target => exact ((hset target).trans (if_neg hwaiting)).trans ih

theorem referenced?_linkDeclarations (decls defs : FirstTable) (tree : CursorTree) (id : NodeId) :
    (linkDeclarations decls defs tree).referenced? id = tree.referenced? id := by
  refine linkDeclarations_induct
    (motive := fun after => after.referenced? id = tree.referenced? id) rfl ?_
  intro after other name target hafter _
  rw [CursorTree.referenced?_setDefinition, hafter]

/-- What a cursor of the finished tree refers to. -/
theorem State.referenced?_finish {state : State} {id : Nat} (hid : id < state.tree.size) :
    state.finish.referenced? id =
      ((state.waiting id).findSome? fun waiting =>
        state.names.lookup waiting.space waiting.name).or (state.tree.referenced? id) := by
  rw [State.finish, referenced?_linkDeclarations, referenced?_linkDeclarations,
    referenced?_resolvePending _ _ hid]
  rfl

/-- A cursor whose name is looked up refers at once to what an open scope has for it. -/
theorem Entry.target?_of_sought? {entry : Entry} {sought : Space × String}
    (hsought : entry.sought? = some sought) (state : State) :
    entry.target? state = state.answer? sought.1 sought.2 := by
  cases entry with
  | expansion => cases hsought
  | _ => simp only [Entry.target?, hsought, Option.bind_some]

/-- In the finished tree, a cursor refers to what it was given at once or, failing that,
to what its name means in the whole file. -/
theorem Entered.referenced?_finish {source : Source} {origin : Entry → Label → Prop}
    {before after : State} {entry : Entry} {place : Label}
    (hentered : Entered source origin before entry place after) :
    after.finish.referenced? before.tree.size =
      (entry.target? before).or
        (entry.sought?.bind fun sought => after.names.lookup sought.1 sought.2) := by
  have hid : before.tree.size < after.tree.size := CursorTree.lt_size_of_card? hentered.card?
  rw [State.referenced?_finish hid, hentered.waiting, hentered.referenced?, Entry.waiting]
  cases hsought : entry.sought? with
  | none =>
      dsimp only [List.findSome?_nil, Option.bind_none]
      rw [Option.none_or, Option.or_none]
  | some sought =>
      rw [Entry.target?_of_sought? hsought, Option.bind_some]
      -- a reference that was answered at once does not wait
      dsimp only
      cases before.answer? sought.1 sought.2 <;> simp

/-- What was entered is a cursor of the lowered file. -/
theorem Entered.exists_node {source : Source} {file : ParseTree} {lowered : CursorTree}
    (hlowered : lowerFile? source file = some lowered) {before : State} {entry : Entry}
    {place : Label}
    (hentered : Entered source (Arises source file) before entry place (run source file)) :
    ∃ node, lowered.nodes[before.tree.size]? = some node ∧ node.kind = entry.kind ∧
      node.spelling = entry.spelling ∧ node.location = source.location place ∧
      node.referenced = (entry.target? before).or
        (entry.sought?.bind fun sought => (run source file).names.lookup sought.1 sought.2) := by
  obtain rfl := finish_of_lowerFile? hlowered
  have hfinished := (catalogued_run source file).card?_finish before.tree.size
  rw [hentered.card?, Option.map_some] at hfinished
  obtain ⟨node, hnode, hcard⟩ := Option.map_eq_some_iff.mp hfinished
  rw [finishedCard_eq] at hcard
  refine ⟨node, hnode, congrArg Card.kind hcard, congrArg Card.spelling hcard,
    congrArg Card.location hcard, ?_⟩
  rw [← CursorTree.referenced?_of_getElem? hnode, hentered.referenced?_finish]

/-- Every cursor of a lowered file but the root was entered at some moment, and is what
it was entered as. -/
theorem exists_entered {source : Source} {file : ParseTree} {lowered : CursorTree}
    {holds : State → Prop} (hlowered : lowerFile? source file = some lowered)
    (hkeeps : Keeps source (Arises source file) holds) (hstart : holds (State.start source.file))
    {id : NodeId} {node : Node} (hnode : lowered.nodes[id]? = some node) (hroot : id ≠ root) :
    ∃ before entry place, before.tree.size = id ∧ holds before ∧
      Entered source (Arises source file) before entry place (run source file) ∧
      node.kind = entry.kind ∧ node.spelling = entry.spelling ∧
      node.location = source.location place ∧
      node.referenced = (entry.target? before).or
        (entry.sought?.bind fun sought => (run source file).names.lookup sought.1 sought.2) := by
  have hid : id < (run source file).tree.size := by
    rw [← State.size_finish, finish_of_lowerFile? hlowered]
    exact (Array.getElem?_eq_some_iff.mp hnode).1
  have hinside : (State.start source.file).WaitsInside := fun _ hwaiting => nomatch hwaiting
  obtain ⟨before, entry, place, rfl, hbefore, hentered⟩ :=
    (builds_run source file).exists_moment hkeeps Nat.zero_lt_one hstart hinside
      (Nat.pos_of_ne_zero hroot) hid
  obtain ⟨found, hfound, hsame⟩ := hentered.exists_node hlowered
  obtain rfl : found = node := Option.some.inj (hfound.symm.trans hnode)
  exact ⟨before, entry, place, rfl, hbefore, hentered, hsame⟩

/-- Nothing is looked up for the root, which refers to nothing. -/
theorem unit_of_root {source : Source} {file : ParseTree} {lowered : CursorTree} {node : Node}
    (hlowered : lowerFile? source file = some lowered) (hnode : lowered.nodes[root]? = some node) :
    node.kind = .unit ∧ node.referenced = none := by
  obtain rfl := finish_of_lowerFile? hlowered
  have hpos : root < (State.start source.file).tree.size := Nat.zero_lt_one
  have hextends := (builds_run source file).extends hpos
  have hunit := (catalogued_run source file).top_finish (CursorTree.card?_of_getElem? hnode)
  refine ⟨hunit.1, ?_⟩
  rw [← CursorTree.referenced?_of_getElem? hnode,
    State.referenced?_finish (Nat.lt_of_lt_of_le hpos hextends.size_le),
    hextends.waiting root hpos, hextends.referenced? root hpos]
  rfl

end Lowering
end SourceIndex
