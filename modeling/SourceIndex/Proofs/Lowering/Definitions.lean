import SourceIndex.Proofs.Lowering.Linking

/-!
# Definitions of a lowered file

A cursor is entered either as its own definition or without a definition.  At the
end of the file, the functions and tags without one are linked to the first
definition of their name, wherever it stands.

While a file is lowered, `Catalogued` holds: every cursor but the root has the card
of a sort of cursors that arises from the file, and the four tables that are linked
in the end list the cursors they are meant for.  Two facts carry the rest.  A cursor
that is its own definition is in no table of declarations, so the end of the file
leaves it alone; and a cursor that is linked then is NOT linked to itself, so the end
of the file makes no new definitions.
-/

namespace SourceIndex

open CursorTree (root)

/-- The first cursor of a family with this spelling that is its own definition. -/
def CursorTree.firstDefined? (tree : CursorTree) (family : Family) (name : String) :
    Option NodeId :=
  (List.range tree.size).find? fun id =>
    tree.nodes[id]?.any fun node =>
      node.kind.family? == some family && node.spelling == name && node.definition == some id

/-- Whether a cursor is entered among the definitions of a family. -/
def Card.defines (family : Family) (card : Card) : Bool :=
  card.kind.family? == some family && card.definition.isSome && card.spelling != ""

/-- Whether a cursor is entered among the declarations of a family.  Tags need a name
for it, functions do not. -/
def Card.declares (family : Family) (card : Card) : Bool :=
  card.kind.family? == some family && card.definition.isNone &&
    (family == .functions || card.spelling != "")

namespace Lowering

/-- The definition of a cursor in a finished tree: itself if it is entered as a
definition, and else the first definition of its family and spelling, provided that it
has a family and a name. -/
def Entry.definitionIn (tree : CursorTree) (id : NodeId) (entry : Entry) : Option NodeId :=
  if entry.isDefinition then some id
  else if entry.spelling = "" then none
  else entry.kind.family?.bind fun family => tree.firstDefined? family entry.spelling

/-- The card with which a cursor is entered. -/
def Entry.card (source : Source) (place : Label) (id : NodeId) (entry : Entry) : Card where
  kind := entry.kind
  spelling := entry.spelling
  location := source.location place
  definition := if entry.isDefinition then some id else none

/-! ## While a file is lowered -/

/-- The cursors arise from the file, and the tables list the cursors of the families. -/
structure Catalogued (source : Source) (origin : Entry → Label → Prop) (tree : CursorTree)
    (names : FileNames) : Prop where
  top : ∀ card, tree.card? root = some card → card.kind = .unit ∧ card.definition = none
  entered : ∀ id card, tree.card? id = some card → id ≠ root →
    ∃ entry place, origin entry place ∧ card = entry.card source place id
  defs : ∀ family, (names.defs family).Lists tree (Card.defines family)
  decls : ∀ family, (names.decls family).Lists tree (Card.declares family)

section Entering

variable {source : Source} {origin : Entry → Label → Prop} {state : State} {entry : Entry}

theorem family?_of_tag {kind : CursorKind} (hkind : kind = .record ∨ kind = .enumeration) :
    kind.family? = some .tags := by
  rcases hkind with rfl | rfl <;> rfl

/-- A cursor is entered in the tables that its card belongs to. -/
theorem Entry.toList_addTo (hallowed : entry.Allowed source state) (place : Label)
    (id : NodeId) (names : FileNames) (family : Family) :
    ((entry.addTo id names).defs family).toList = (names.defs family).toList ++
        (if (entry.card source place id).defines family then [(entry.spelling, id)] else []) ∧
      ((entry.addTo id names).decls family).toList = (names.decls family).toList ++
        (if (entry.card source place id).declares family then [(entry.spelling, id)] else []) := by
  -- the name decides only where a cursor without a name is left out
  cases entry with
  | functionDefinition name | prototype name =>
      by_cases hname : name = "" <;> cases family <;>
        simp [Entry.addTo, FileNames.defs, FileNames.decls, Entry.card, Card.defines,
          Card.declares, Entry.kind, Entry.spelling, Entry.isDefinition, CursorKind.family?, hname]
  | tagDefinition kind name | tagDeclaration kind name =>
      have hfamily := family?_of_tag hallowed
      by_cases hname : name = "" <;> cases family <;>
        simp [Entry.addTo, FileNames.defs, FileNames.decls, Entry.card, Card.defines,
          Card.declares, Entry.kind, Entry.spelling, Entry.isDefinition, hfamily, hname]
  | _ =>
      cases family <;>
        simp [Entry.addTo, FileNames.defs, FileNames.decls, Entry.card, Card.defines,
          Card.declares, Entry.kind, CursorKind.family?]

theorem tables_declare (state : State) (name : String) (id : NodeId) (family : Family) :
    (state.declare name id).names.defs family = state.names.defs family ∧
      (state.declare name id).names.decls family = state.names.decls family := by
  unfold State.declare
  split <;> cases family <;> exact ⟨rfl, rfl⟩

theorem Entry.tables_enter (source : Source) (place : Label) (parent : NodeId) (state : State)
    (entry : Entry) (family : Family) :
    (entry.enter source place parent state).names.defs family =
        (entry.addTo state.tree.size state.names).defs family ∧
      (entry.enter source place parent state).names.decls family =
        (entry.addTo state.tree.size state.names).decls family := by
  unfold Entry.enter
  cases entry.declared? with
  | none => exact ⟨rfl, rfl⟩
  | some name => exact tables_declare _ name _ family

theorem Catalogued.enter {place : Label} {parent : Nat}
    (hcatalogued : Catalogued source origin state.tree state.names)
    (horigin : origin entry place) (hallowed : entry.Allowed source state)
    (hparent : parent < state.tree.size) :
    Catalogued source origin (entry.enter source place parent state).tree
      (entry.enter source place parent state).names := by
  have hadded := Entry.toList_addTo hallowed place state.tree.size state.names
  have htables := Entry.tables_enter source place parent state entry
  rw [Entry.tree_enter]
  refine ⟨?_, ?_, fun family => ?_, fun family => ?_⟩
  · intro card hcard
    have hroot : root ≠ state.tree.size := Nat.ne_of_lt (Nat.zero_lt_of_lt hparent)
    rw [CursorTree.card?_push hparent, if_neg hroot] at hcard
    exact hcatalogued.top card hcard
  · intro id card hcard hid
    rw [CursorTree.card?_push hparent] at hcard
    split at hcard
    next hnew =>
      subst hnew
      exact ⟨entry, place, horigin, (Option.some.inj hcard).symm⟩
    next => exact hcatalogued.entered id card hcard hid
  · refine (hcatalogued.defs family).push hparent ?_
    rw [(htables family).1]
    exact (hadded family).1
  · refine (hcatalogued.decls family).push hparent ?_
    rw [(htables family).2]
    exact (hadded family).2

end Entering

theorem card?_ofFile {file : String} {id : NodeId} {card : Card}
    (hcard : (CursorTree.ofFile file).card? id = some card) :
    id = root ∧ card.kind = .unit ∧ card.definition = none := by
  have hlt : id < 1 := CursorTree.lt_size_of_card? hcard
  obtain rfl : id = root := Nat.lt_one_iff.mp hlt
  cases hcard
  exact ⟨rfl, rfl, rfl⟩

theorem Catalogued.start (source : Source) (origin : Entry → Label → Prop) :
    Catalogued source origin (State.start source.file).tree (State.start source.file).names where
  top := fun card hcard => (card?_ofFile hcard).2
  entered := fun id card hcard hid => absurd (card?_ofFile hcard).1 hid
  defs := by
    intro family
    have hempty : (State.start source.file).names.defs family = #[] := by cases family <;> rfl
    rw [hempty]
    refine .empty fun id card hcard => ?_
    simp [Card.defines, (card?_ofFile hcard).2.1, CursorKind.family?]
  decls := by
    intro family
    have hempty : (State.start source.file).names.decls family = #[] := by cases family <;> rfl
    rw [hempty]
    refine .empty fun id card hcard => ?_
    simp [Card.declares, (card?_ofFile hcard).2.1, CursorKind.family?]

theorem Builds.catalogued {source : Source} {origin : Entry → Label → Prop} {parent : NodeId}
    {state after : State} (hbuilds : Builds source origin parent state after)
    (hparent : parent < state.tree.size)
    (hcatalogued : Catalogued source origin state.tree state.names) :
    Catalogued source origin after.tree after.names := by
  induction hbuilds with
  | nothing => exact hcatalogued
  | andThen hfirst _ ihfirst ihthen =>
      exact ihthen (Nat.lt_of_lt_of_le hparent hfirst.size_le) (ihfirst hparent hcatalogued)
  | cursor horigin hallowed _ ih =>
      refine ih ?_ (hcatalogued.enter horigin hallowed hparent)
      rw [Entry.size_enter]
      exact Nat.lt_succ_self _
  | scope _ ih => exact ih hparent hcatalogued
  | level _ _ ih => exact ih hparent hcatalogued
  | refusal => exact hcatalogued

/-! ## The end of the file -/

/-- The finished tree if the declarations are linked in these orders. -/
def State.finishBy (order : Family → FirstTable) (state : State) : CursorTree :=
  let tree := resolvePending state.names state.pending state.tree
  let tree := linkDeclarations (order .functions) (state.names.defs .functions) tree
  linkDeclarations (order .tags) (state.names.defs .tags) tree

theorem State.finishBy_decls (state : State) : state.finishBy state.names.decls = state.finish :=
  rfl

theorem card?_resolvePending (names : FileNames) (pending : List Pending) (tree : CursorTree)
    (id : NodeId) : (resolvePending names pending tree).card? id = tree.card? id := by
  refine resolvePending_induct (motive := fun after => after.card? id = tree.card? id) rfl ?_
  intro after other name target hafter _
  rw [CursorTree.card?_setReferenced, hafter]

theorem State.size_finish (state : State) : state.finish.size = state.tree.size := by
  refine State.finish_induct (motive := fun tree => tree.size = state.tree.size) rfl ?_ ?_
  · intro tree id name target hsize _
    rw [CursorTree.size_setReferenced, hsize]
  · intro tree id name target hsize _
    rw [CursorTree.size_setDefinition, hsize]

/-- The card of a cursor in the finished tree. -/
def finishedCard (names : FileNames) (card : Card) : Card :=
  match card.kind.family? with
  | none => card
  | some family => if card.declares family then linkedCard (names.defs family) card else card

theorem finishedCard_eq (names : FileNames) (card : Card) :
    finishedCard names card = { card with definition := (finishedCard names card).definition } := by
  unfold finishedCard
  split
  · rfl
  · split <;> rfl

namespace Catalogued

variable {source : Source} {origin : Entry → Label → Prop} {state : State}

theorem card?_finish (hcatalogued : Catalogued source origin state.tree state.names)
    (id : NodeId) :
    state.finish.card? id = (state.tree.card? id).map (finishedCard state.names) := by
  have hnamed : ∀ family, ∀ entry ∈ (state.names.decls family).toList, ∀ card,
      state.tree.card? entry.2 = some card → card.spelling = entry.1 :=
    fun family entry hentry card hcard => ((hcatalogued.decls family).of_mem hentry hcard).1
  -- functions first; no spelling changes, so the table of tags still fits
  have hfunctions := @card?_linkDeclarations (state.names.defs .functions)
    (resolvePending state.names state.pending state.tree) (state.names.decls .functions) (by
      simpa only [card?_resolvePending] using hnamed .functions)
  have htags := @card?_linkDeclarations (state.names.defs .tags)
    (linkDeclarations (state.names.decls .functions) (state.names.defs .functions)
      (resolvePending state.names state.pending state.tree)) (state.names.decls .tags) (by
      intro entry hentry card hcard
      rw [hfunctions, card?_resolvePending] at hcard
      obtain ⟨before, hbefore, rfl⟩ := Option.map_eq_some_iff.mp hcard
      rw [← hnamed .tags entry hentry before hbefore]
      split <;> rfl)
  rw [← State.finishBy_decls, State.finishBy, htags, hfunctions, card?_resolvePending]
  cases hcard : state.tree.card? id with
  | none => rfl
  | some card =>
      simp only [Option.map_some, (hcatalogued.decls _).mem_ids_iff hcard]
      -- a cursor is of one family at most, so at most one of the two links is made
      cases hfamily : card.kind.family? with
      | none => simp [finishedCard, Card.declares, hfamily]
      | some family => cases family <;> simp [finishedCard, Card.declares, hfamily]

/-- A cursor with a definition is its own, and the end of the file leaves it alone. -/
theorem self_of_definition (hcatalogued : Catalogued source origin state.tree state.names)
    {id target : NodeId} {card : Card} (hcard : state.tree.card? id = some card)
    (htarget : card.definition = some target) :
    target = id ∧ finishedCard state.names card = card := by
  refine ⟨?_, ?_⟩
  · by_cases hid : id = root
    · subst hid
      rw [(hcatalogued.top card hcard).2] at htarget
      cases htarget
    · obtain ⟨entry, place, -, rfl⟩ := hcatalogued.entered id card hcard hid
      rw [Entry.card] at htarget
      split at htarget
      · exact (Option.some.inj htarget).symm
      · cases htarget
  · unfold finishedCard
    split
    · rfl
    · simp [Card.declares, htarget]

/-- A cursor without a definition is linked to a cursor that is its own. -/
theorem definition_finishedCard (hcatalogued : Catalogued source origin state.tree state.names)
    {card : Card} (hnone : card.definition = none) {target : NodeId}
    (htarget : (finishedCard state.names card).definition = some target) :
    ∃ found, state.tree.card? target = some found ∧ found.definition = some target := by
  unfold finishedCard at htarget
  split at htarget
  · rw [hnone] at htarget
    cases htarget
  next family _ =>
    split at htarget
    · rw [linkedCard, hnone, Option.or_none] at htarget
      obtain ⟨found, hfound, -, hdefines⟩ := (hcatalogued.defs family).card?_of_find? htarget
      have hsome : found.definition.isSome = true := by simp_all [Card.defines]
      obtain ⟨own, hown⟩ := Option.isSome_iff_exists.mp hsome
      rw [(hcatalogued.self_of_definition hfound hown).1] at hown
      exact ⟨found, hfound, hown⟩
    · rw [hnone] at htarget
      cases htarget

/-- The cursors of the finished tree that are their own definitions are those that the
tables list. -/
theorem firstDefined?_finish (hcatalogued : Catalogued source origin state.tree state.names)
    (family : Family) {name : String} (hname : name ≠ "") :
    state.finish.firstDefined? family name = (state.names.defs family).find? name := by
  rw [(hcatalogued.defs family).find?_eq, CursorTree.firstDefined?, State.size_finish]
  congr 1
  funext id
  have hview : (state.finish.nodes[id]?.any fun node =>
      node.kind.family? == some family && node.spelling == name && node.definition == some id) =
      (state.finish.card? id).any fun card =>
        card.kind.family? == some family && card.spelling == name &&
          card.definition == some id := by
    rw [CursorTree.card?, Option.any_map]
    rfl
  rw [hview, hcatalogued.card?_finish, Option.any_map]
  cases hcard : state.tree.card? id with
  | none => rfl
  | some card =>
      simp only [Option.any_some]
      cases hdefinition : card.definition with
      | some target =>
          obtain ⟨rfl, hsame⟩ := hcatalogued.self_of_definition hcard hdefinition
          rw [hsame]
          by_cases hspelling : card.spelling = name
          · simp [Card.defines, hdefinition, hspelling, hname]
          · have hbeq : (card.spelling == name) = false := by simpa using hspelling
            simp [hbeq]
      | none =>
          -- linked at the end, but then not to itself
          have hother : (finishedCard state.names card).definition ≠ some id := by
            intro hself
            obtain ⟨found, hfound, hown⟩ := hcatalogued.definition_finishedCard hdefinition hself
            rw [hcard, Option.some.injEq] at hfound
            rw [← hfound, hdefinition] at hown
            cases hown
          simp [Card.defines, hdefinition, hother]

theorem find?_empty (hcatalogued : Catalogued source origin state.tree state.names)
    (family : Family) : (state.names.defs family).find? "" = none := by
  cases hfind : (state.names.defs family).find? "" with
  | none => rfl
  | some id =>
      obtain ⟨card, -, hspelling, hdefines⟩ := (hcatalogued.defs family).card?_of_find? hfind
      simp [Card.defines, hspelling] at hdefines

/-- The definition of a cursor in the finished tree. -/
theorem definition_finish (hcatalogued : Catalogued source origin state.tree state.names)
    (entry : Entry) (place : Label) (id : NodeId) :
    (finishedCard state.names (entry.card source place id)).definition =
      entry.definitionIn state.finish id := by
  have hkind : (entry.card source place id).kind = entry.kind := rfl
  have hname : (entry.card source place id).spelling = entry.spelling := rfl
  rw [finishedCard, Entry.definitionIn, hkind]
  cases hself : entry.isDefinition with
  | true =>
      have hown : (entry.card source place id).definition = some id := by simp [Entry.card, hself]
      split <;> simp [Card.declares, hown]
  | false =>
      have hnone : (entry.card source place id).definition = none := by simp [Entry.card, hself]
      cases hfamily : entry.kind.family? with
      | none => simp [hnone]
      | some family =>
          by_cases hspelling : entry.spelling = ""
          · -- without a name there is nothing to be found, declared or not
            have hlost := hcatalogued.find?_empty family
            rw [if_neg Bool.false_ne_true, if_pos hspelling]
            dsimp only
            split <;> simp [linkedCard, hname, hspelling, hlost, hnone]
          · have hdeclares : (entry.card source place id).declares family = true := by
              simp [Card.declares, hkind, hname, hfamily, hnone, hspelling]
            rw [if_neg Bool.false_ne_true, if_neg hspelling, Option.bind_some,
              hcatalogued.firstDefined?_finish family hspelling]
            simp [hdeclares, linkedCard, hname, hnone]

/-- The root of the finished tree has no definition. -/
theorem top_finish (hcatalogued : Catalogued source origin state.tree state.names) {card : Card}
    (hcard : state.finish.card? root = some card) : card.kind = .unit ∧ card.definition = none := by
  rw [hcatalogued.card?_finish] at hcard
  obtain ⟨before, hbefore, rfl⟩ := Option.map_eq_some_iff.mp hcard
  obtain ⟨hunit, hnone⟩ := hcatalogued.top before hbefore
  rw [finishedCard, hunit]
  exact ⟨hunit, hnone⟩

/-- Every other cursor of the finished tree has the card with which it was entered, but
for its definition. -/
theorem entered_finish (hcatalogued : Catalogued source origin state.tree state.names)
    {id : NodeId} {card : Card} (hcard : state.finish.card? id = some card) (hid : id ≠ root) :
    ∃ entry place, origin entry place ∧
      card = { entry.card source place id with
        definition := entry.definitionIn state.finish id } := by
  rw [hcatalogued.card?_finish] at hcard
  obtain ⟨before, hbefore, rfl⟩ := Option.map_eq_some_iff.mp hcard
  obtain ⟨entry, place, horigin, rfl⟩ := hcatalogued.entered id before hbefore hid
  refine ⟨entry, place, horigin, ?_⟩
  rw [finishedCard_eq, hcatalogued.definition_finish]

/-- The declarations may be linked in any order. -/
theorem finishBy_eq (hcatalogued : Catalogued source origin state.tree state.names)
    {order : Family → FirstTable}
    (horder : ∀ family, (order family).toList.Perm (state.names.decls family).toList) :
    state.finishBy order = state.finish := by
  rw [← State.finishBy_decls, State.finishBy, State.finishBy,
    linkDeclarations_perm (hcatalogued.decls .functions) (horder .functions),
    linkDeclarations_perm (hcatalogued.decls .tags) (horder .tags)]

/-- Following a definition twice is following it once. -/
theorem definition_idem (hcatalogued : Catalogued source origin state.tree state.names)
    {id target : NodeId} {card : Card} (hcard : state.finish.card? id = some card)
    (htarget : card.definition = some target) :
    ∃ found, state.finish.card? target = some found ∧ found.definition = some target := by
  rw [hcatalogued.card?_finish] at hcard
  obtain ⟨before, hbefore, rfl⟩ := Option.map_eq_some_iff.mp hcard
  -- the cursor that is its own definition was so before the end of the file
  have hown : ∃ found, state.tree.card? target = some found ∧ found.definition = some target := by
    cases hdefinition : before.definition with
    | none => exact hcatalogued.definition_finishedCard hdefinition htarget
    | some own =>
        obtain ⟨rfl, hsame⟩ := hcatalogued.self_of_definition hbefore hdefinition
        rw [hsame, hdefinition, Option.some.injEq] at htarget
        subst htarget
        exact ⟨before, hbefore, hdefinition⟩
  obtain ⟨found, hfound, hself⟩ := hown
  refine ⟨found, ?_, hself⟩
  rw [hcatalogued.card?_finish, hfound, Option.map_some,
    (hcatalogued.self_of_definition hfound hself).2]

end Catalogued

theorem catalogued_run (source : Source) (file : ParseTree) :
    Catalogued source (Arises source file) (run source file).tree (run source file).names :=
  (builds_run source file).catalogued Nat.zero_lt_one (.start source _)

/-- **Definitions are exact.**  Each cursor of a lowered file but the root stands for
a construct that arises from the file, and its definition is what the construct calls
for: itself, for all that is defined where it stands; the first cursor of the family
and spelling that is its own definition, for a function or tag that is only declared
and has a name; and none for all others.  In particular, fields, type definitions,
enumerators and macros are their own definitions, following a definition twice is
following it once, and the tree does not depend on the order in which the
declarations are linked. -/
theorem lowerFile?_definitions {source : Source} {file : ParseTree} {lowered : CursorTree}
    (hlowered : lowerFile? source file = some lowered) :
    (∀ (id : NodeId) (node : Node), lowered.nodes[id]? = some node → id ≠ root →
      ∃ entry place, Arises source file entry place ∧ node.kind = entry.kind ∧
        node.spelling = entry.spelling ∧ node.location = source.location place ∧
        node.definition = entry.definitionIn lowered id) ∧
    (∀ node : Node, lowered.nodes[root]? = some node → node.definition = none) ∧
    (∀ (id : NodeId) (node : Node), lowered.nodes[id]? = some node →
      node.kind ∈ [CursorKind.field, .typedef, .enumerator, .macroDefinition] →
      node.definition = some id) ∧
    (∀ (id target : NodeId) (node : Node), lowered.nodes[id]? = some node →
      node.definition = some target →
      ∃ found, lowered.nodes[target]? = some found ∧ found.definition = some target) ∧
    ∀ order : Family → FirstTable,
      (∀ family, (order family).toList.Perm ((run source file).names.decls family).toList) →
      (run source file).finishBy order = lowered := by
  have hcatalogued := catalogued_run source file
  obtain rfl := finish_of_lowerFile? hlowered
  have hstands : ∀ (id : NodeId) (node : Node), (run source file).finish.nodes[id]? = some node →
      id ≠ root → ∃ entry place, Arises source file entry place ∧ node.kind = entry.kind ∧
        node.spelling = entry.spelling ∧ node.location = source.location place ∧
        node.definition = entry.definitionIn (run source file).finish id := by
    intro id node hnode hid
    obtain ⟨entry, place, harises, hcard⟩ :=
      hcatalogued.entered_finish (CursorTree.card?_of_getElem? hnode) hid
    exact ⟨entry, place, harises, congrArg Card.kind hcard, congrArg Card.spelling hcard,
      congrArg Card.location hcard, congrArg Card.definition hcard⟩
  refine ⟨hstands, ?_, ?_, ?_, fun order horder => hcatalogued.finishBy_eq horder⟩
  · intro node hnode
    exact (hcatalogued.top_finish (CursorTree.card?_of_getElem? hnode)).2
  · intro id node hnode hkind
    by_cases hid : id = root
    · subst hid
      have hunit : node.kind = .unit := (hcatalogued.top_finish (CursorTree.card?_of_getElem? hnode)).1
      simp [hunit] at hkind
    · obtain ⟨entry, place, ⟨label, children, -, hmade⟩, hsame, -, -, hdefinition⟩ :=
        hstands id node hnode hid
      rw [hsame] at hkind
      rw [hdefinition, Entry.definitionIn, if_pos (hmade.isDefinition hkind)]
  · intro id target node hnode htarget
    obtain ⟨card, hcard, hself⟩ :=
      hcatalogued.definition_idem (CursorTree.card?_of_getElem? hnode) htarget
    obtain ⟨found, hfound, rfl⟩ := Option.map_eq_some_iff.mp hcard
    exact ⟨found, hfound, hself⟩

namespace DeclarationSample

/-- A function that is declared, defined and declared again, and a tag that is declared
and defined. -/
def source : Source where
  file := "s.c"
  bytes := "int f();\nstruct s;\nint f() {}\nstruct s { int x; };\nint f();\n".toUTF8
  lineEnds := [8, 18, 29, 50, 59]
  options := {}
  limit := some 512
  includeTarget := fun _ _ => none

/-- The parse tree of the file, without the types. -/
def file : ParseTree :=
  let node (kind : String) (field : Option String) (start stop : Nat)
      (children : List ParseTree) : ParseTree :=
    .node { kind, named := true, field, start, stop } children
  let function (kind : String) (start stop : Nat) : ParseTree :=
    node kind none start stop
      [node "function_declarator" (some "declarator") (start + 4) (start + 7)
        [node "identifier" (some "declarator") (start + 4) (start + 5) []]]
  let tag (start stop : Nat) (body : List ParseTree) : ParseTree :=
    node "struct_specifier" none start stop
      (node "type_identifier" (some "name") (start + 7) (start + 8) [] :: body)
  node "translation_unit" none 0 60
    [function "declaration" 0 8,
      tag 9 17 [],
      function "function_definition" 19 29,
      tag 30 49
        [node "field_declaration_list" (some "body") 39 49
          [node "field_declaration" none 41 47
            [node "field_identifier" (some "declarator") 45 46 []]]],
      function "declaration" 51 59]

end DeclarationSample

theorem lowerFile?_definitions_declarationSample :
    ∃ lowered, lowerFile? DeclarationSample.source DeclarationSample.file = some lowered ∧
      lowered.nodes.toList.map (fun node => (node.spelling, node.definition)) =
        [("s.c", none), ("f", some 3), ("s", some 4), ("f", some 3), ("s", some 4), ("x", some 5),
          ("f", some 3)] ∧
      ∀ order : Family → FirstTable,
        (∀ family, (order family).toList.Perm ((run DeclarationSample.source
          DeclarationSample.file).names.decls family).toList) →
        (run DeclarationSample.source DeclarationSample.file).finishBy order = lowered := by
  have hdefinitions : (lowerFile? DeclarationSample.source DeclarationSample.file).map
      (fun lowered => lowered.nodes.toList.map fun node => (node.spelling, node.definition)) =
        some [("s.c", none), ("f", some 3), ("s", some 4), ("f", some 3), ("s", some 4),
          ("x", some 5), ("f", some 3)] := by
    decide +kernel
  obtain ⟨lowered, hlowered, hlinks⟩ := Option.map_eq_some_iff.mp hdefinitions
  obtain ⟨-, -, -, -, horder⟩ := lowerFile?_definitions hlowered
  exact ⟨lowered, hlowered, hlinks, horder⟩

end Lowering
end SourceIndex
