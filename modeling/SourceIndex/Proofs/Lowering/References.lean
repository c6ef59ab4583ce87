import SourceIndex.Proofs.Lowering.Macros

/-!
# References of a lowered file

What a cursor refers to is found by name, at once in the open scopes or at the end of
the file in the tables.  That it is a cursor of a fitting kind and of the right spelling,
and that nothing is missed, rests on what the tables hold:

* a scope, and the table of the names outside of all scopes, holds variables and
  parameters under their spellings (`State.ValuesKnown`);
* the tables of type definitions, enumerators and fields list all cursors of their kind
  (`Rosters`), and those of functions and tags all cursors of their family
  (`Catalogued`).

Variables and parameters are the only cursors that can be missed: a scope is forgotten
when it is closed, so a name that is looked up at the end of the file does NOT find the
variables that were declared in it.
-/

namespace SourceIndex

open CursorTree (root)

namespace CursorTree

/-- The first cursor of this kind with this spelling. -/
def firstNamed? (tree : CursorTree) (kind : CursorKind) (name : String) : Option NodeId :=
  (List.range tree.size).find? (tree.isNamed kind name)

/-- The first cursor of a family with this spelling that is not its own definition. -/
def firstDeclared? (tree : CursorTree) (family : Family) (name : String) : Option NodeId :=
  (List.range tree.size).find? fun id =>
    tree.nodes[id]?.any fun node =>
      node.kind.family? == some family && node.spelling == name && node.definition != some id

/-- The tag of this name: its first definition, or else its first declaration. -/
def firstTag? (tree : CursorTree) (name : String) : Option NodeId :=
  (tree.firstDefined? .tags name).or (tree.firstDeclared? .tags name)

/-- A cursor is of one of these kinds and has this spelling. -/
def Named (tree : CursorTree) (kinds : List CursorKind) (name : String) (id : NodeId) : Prop :=
  ∃ node, tree.nodes[id]? = some node ∧ node.kind ∈ kinds ∧ node.spelling = name

variable {tree : CursorTree} {kinds : List CursorKind} {kind : CursorKind} {name : String}
  {id : NodeId}

theorem named_iff_card? : tree.Named kinds name id ↔
    ∃ card, tree.card? id = some card ∧ card.kind ∈ kinds ∧ card.spelling = name := by
  constructor
  · rintro ⟨node, hnode, hkind, hspelling⟩
    exact ⟨node.card, card?_of_getElem? hnode, hkind, hspelling⟩
  · rintro ⟨card, hcard, hkind, hspelling⟩
    obtain ⟨node, hnode, rfl⟩ := Option.map_eq_some_iff.mp hcard
    exact ⟨node, hnode, hkind, hspelling⟩

theorem Named.mono {more : List CursorKind} (hnamed : tree.Named kinds name id)
    (hmore : kinds ⊆ more) : tree.Named more name id := by
  obtain ⟨node, hnode, hkind, hspelling⟩ := hnamed
  exact ⟨node, hnode, hmore hkind, hspelling⟩

theorem named_of_isNamed (hnamed : tree.isNamed kind name id = true) :
    tree.Named [kind] name id := by
  obtain ⟨node, hnode, hsame⟩ := (Option.any_eq_true _ _).mp hnamed
  obtain ⟨hkind, hspelling⟩ : node.kind = kind ∧ node.spelling = name := by simpa using hsame
  exact ⟨node, hnode, by simp [hkind], hspelling⟩

theorem named_of_lastNamed? {before : Nat} (hlast : tree.lastNamed? kind name before = some id) :
    tree.Named [kind] name id :=
  named_of_isNamed (List.mem_filter.mp (List.mem_of_getLast? hlast)).2

theorem named_of_firstNamed? (hfirst : tree.firstNamed? kind name = some id) :
    tree.Named [kind] name id :=
  named_of_isNamed (List.find?_some hfirst)

end CursorTree

namespace Lowering

/-! ## Variables and parameters -/

/-- The kinds of cursors that are named in scopes. -/
def valueKinds : List CursorKind :=
  [.variable, .parameter]

/-- The names of variables and parameters that can be meant, inside and outside of
scopes. -/
def State.values (state : State) : List (String × NodeId) :=
  state.names.globals.toList ++ state.scopes.flatten

/-- Only variables and parameters are among them, under their spellings. -/
def State.ValuesKnown (state : State) : Prop :=
  ∀ value ∈ state.values, state.tree.Named valueKinds value.1 value.2

theorem State.Extends.named {before after : State} (hextends : before.Extends after)
    {kinds : List CursorKind} {name : String} {id : NodeId}
    (hnamed : before.tree.Named kinds name id) : after.tree.Named kinds name id := by
  obtain ⟨card, hcard, hcalled⟩ := CursorTree.named_iff_card?.mp hnamed
  have hid := CursorTree.lt_size_of_card? hcard
  exact CursorTree.named_iff_card?.mpr ⟨card, (hextends.card? id hid).trans hcard, hcalled⟩

section Values

variable {source : Source} {place : Label} {parent : Nat} {state : State} {entry : Entry}

theorem State.mem_values_declare {name : String} {id : NodeId} {value : String × NodeId} :
    value ∈ (state.declare name id).values ↔ value = (name, id) ∨ value ∈ state.values := by
  obtain ⟨tree, scopes, names, pending, depth, deepest, tooDeep⟩ := state
  cases scopes with
  | nil =>
      simp only [State.declare, State.values, Array.toList_push, List.flatten_nil, List.append_nil,
        List.mem_append, List.mem_singleton]
      exact or_comm
  | cons scope outer =>
      simp only [State.declare, State.values, List.mem_append, List.flatten_cons, List.mem_cons,
        List.cons_append]
      exact or_left_comm

theorem Entry.globals_addTo (id : NodeId) (names : FileNames) (entry : Entry) :
    (entry.addTo id names).globals = names.globals := by
  cases entry <;> simp only [Entry.addTo] <;> split <;> rfl

/-- A new cursor adds the name it declares and no other. -/
theorem Entry.mem_values_enter {value : String × NodeId} :
    value ∈ (entry.enter source place parent state).values ↔
      (entry.declared? = some value.1 ∧ value.2 = state.tree.size) ∨ value ∈ state.values := by
  have hentered : ∀ tree pending, value ∈ State.values
      { state with tree, names := entry.addTo state.tree.size state.names, pending } ↔
        value ∈ state.values := by
    intro tree pending
    rw [State.values, Entry.globals_addTo]
    rfl
  unfold Entry.enter
  cases hdeclared : entry.declared? with
  | none => simp [hentered]
  | some name =>
      dsimp only
      rw [State.mem_values_declare, hentered, Prod.ext_iff]
      simp [eq_comm]

/-- Closing a scope only takes names away. -/
theorem State.mem_values_of_closeScope {value : String × NodeId}
    (hvalue : value ∈ state.closeScope.values) : value ∈ state.values := by
  obtain ⟨tree, scopes, names, pending, depth, deepest, tooDeep⟩ := state
  cases scopes with
  | nil => exact hvalue
  | cons scope outer =>
      simp only [State.values, State.closeScope, List.tail_cons, List.flatten_cons,
        List.mem_append] at hvalue ⊢
      exact hvalue.imp_right .inr

theorem State.mem_scopes_of_answer? {space : Space} {name : String} {target : NodeId}
    (hanswer : state.answer? space name = some target) :
    (name, target) ∈ state.scopes.flatten := by
  rw [State.answer?] at hanswer
  split at hanswer
  · obtain ⟨scope, hscope, hlookup⟩ := List.exists_of_findSome?_eq_some hanswer
    exact List.mem_flatten.mpr ⟨scope, hscope, LastTable.mem_of_lookup hlookup⟩
  · cases hanswer

theorem State.mem_values_of_answer? {space : Space} {name : String} {target : NodeId}
    (hanswer : state.answer? space name = some target) : (name, target) ∈ state.values :=
  List.mem_append_right _ (State.mem_scopes_of_answer? hanswer)

theorem Entry.kind_of_declared? {name : String} (hdeclared : entry.declared? = some name) :
    entry.kind ∈ valueKinds ∧ entry.spelling = name := by
  cases entry <;> simp_all [Entry.declared?, Entry.kind, Entry.spelling, valueKinds]

theorem State.ValuesKnown.enter (hknown : state.ValuesKnown) (hparent : parent < state.tree.size) :
    (entry.enter source place parent state).ValuesKnown := by
  rintro ⟨name, id⟩ hvalue
  rcases Entry.mem_values_enter.mp hvalue with ⟨hdeclared, hnew⟩ | hold
  · obtain ⟨hkind, hspelling⟩ := Entry.kind_of_declared? hdeclared
    refine CursorTree.named_iff_card?.mpr
      ⟨(entry.node source state place).card, ?_, hkind, hspelling⟩
    rw [Entry.tree_enter, CursorTree.card?_push hparent, if_pos hnew]
  · exact (State.Extends.enter hparent entry).named (hknown _ hold)

end Values

theorem keeps_valuesKnown (source : Source) (origin : Entry → Label → Prop) :
    Keeps source origin State.ValuesKnown where
  enter := fun hknown _ _ hparent => hknown.enter hparent
  openScope := fun hknown => hknown
  closeScope := fun hknown value hvalue => hknown value (State.mem_values_of_closeScope hvalue)
  level := fun _ _ _ hknown => hknown

theorem valuesKnown_start (file : String) : (State.start file).ValuesKnown :=
  fun _ hvalue => nomatch hvalue

/-! ## Tables of one kind -/

/-- The kinds that have a table of their own. -/
def rosterKinds : List CursorKind :=
  [.typedef, .enumerator, .field]

/-- The table of a kind. -/
def FileNames.roster (names : FileNames) : CursorKind → FirstTable
  | .typedef => names.typedefs
  | .enumerator => names.enumerators
  | .field => names.fields
  | _ => #[]

/-- The tables of one kind list all cursors of that kind. -/
def Rosters (state : State) : Prop :=
  ∀ kind ∈ rosterKinds,
    (state.names.roster kind).Lists state.tree fun card => card.kind == kind

theorem Entry.toList_roster {source : Source} {state : State} {entry : Entry}
    (hallowed : entry.Allowed source state) {kind : CursorKind} (hkind : kind ∈ rosterKinds)
    (id : NodeId) (names : FileNames) :
    ((entry.addTo id names).roster kind).toList = (names.roster kind).toList ++
      if entry.kind == kind then [(entry.spelling, id)] else [] := by
  have hthree : kind = .typedef ∨ kind = .enumerator ∨ kind = .field := by
    simpa [rosterKinds] using hkind
  cases entry with
  | tagDefinition tag name | tagDeclaration tag name =>
      rcases hallowed with rfl | rfl <;> rcases hthree with rfl | rfl | rfl <;>
        by_cases hname : name = "" <;> simp [Entry.addTo, FileNames.roster, Entry.kind, hname]
  | functionDefinition name =>
      rcases hthree with rfl | rfl | rfl <;>
        by_cases hname : name = "" <;> simp [Entry.addTo, FileNames.roster, Entry.kind, hname]
  | _ =>
      rcases hthree with rfl | rfl | rfl <;>
        simp [Entry.addTo, FileNames.roster, Entry.kind, Entry.spelling]

theorem roster_declare (state : State) (name : String) (id : NodeId) (kind : CursorKind) :
    (state.declare name id).names.roster kind = state.names.roster kind := by
  unfold State.declare
  split <;> cases kind <;> rfl

theorem keeps_rosters (source : Source) (origin : Entry → Label → Prop) :
    Keeps source origin Rosters where
  enter := by
    intro state entry place parent hrosters _ hallowed hparent kind hkind
    have htable : (entry.enter source place parent state).names.roster kind =
        (entry.addTo state.tree.size state.names).roster kind := by
      unfold Entry.enter
      cases entry.declared? with
      | none => rfl
      | some name => exact roster_declare _ name _ kind
    rw [Entry.tree_enter, htable]
    exact (hrosters kind hkind).push hparent (Entry.toList_roster hallowed hkind _ _)
  openScope := fun hrosters => hrosters
  closeScope := fun hrosters => hrosters
  level := fun _ _ _ hrosters => hrosters

theorem rosters_start (file : String) : Rosters (State.start file) := by
  intro kind hkind
  have hempty : (State.start file).names.roster kind = #[] := by cases kind <;> rfl
  rw [hempty]
  refine .empty fun id card hcard => ?_
  rw [(card?_ofFile hcard).2.1]
  simp only [rosterKinds, List.mem_cons, List.not_mem_nil, or_false] at hkind
  rcases hkind with rfl | rfl | rfl <;> rfl

/-- A table of one kind finds the first cursor of that kind in the finished tree. -/
theorem Rosters.find?_eq {source : Source} {origin : Entry → Label → Prop} {state : State}
    (hrosters : Rosters state) (hcatalogued : Catalogued source origin state.tree state.names)
    (kind : CursorKind) (hkind : kind ∈ rosterKinds) (name : String) :
    (state.names.roster kind).find? name = state.finish.firstNamed? kind name := by
  rw [(hrosters kind hkind).find?_eq, CursorTree.firstNamed?, State.size_finish]
  congr 1
  funext id
  rw [hcatalogued.isNamed_finish, CursorTree.isNamed_eq_card?]
  congr 1
  funext card
  exact Bool.and_comm _ _

/-! ## Families -/

/-- What a table does not find is not listed. -/
theorem FirstTable.Lists.not_listed {table : FirstTable} {tree : CursorTree} {listed : Card → Bool}
    (hlists : table.Lists tree listed) {id : NodeId} {card : Card}
    (hcard : tree.card? id = some card) (hnone : table.find? card.spelling = none) :
    listed card = false := by
  rw [hlists.find?_eq] at hnone
  have hid := List.mem_range.mpr (CursorTree.lt_size_of_card? hcard)
  simpa [hcard] using List.find?_eq_none.mp hnone id hid

namespace Catalogued

variable {source : Source} {origin : Entry → Label → Prop} {state : State}

/-- The cursors that are their own definitions in the finished tree are those that were
entered as definitions. -/
theorem definition_self (hcatalogued : Catalogued source origin state.tree state.names)
    {id : NodeId} {card : Card} (hcard : state.tree.card? id = some card) :
    ((finishedCard state.names card).definition == some id) = card.definition.isSome := by
  cases hdefinition : card.definition with
  | some own =>
      obtain ⟨rfl, hsame⟩ := hcatalogued.self_of_definition hcard hdefinition
      simp [hsame, hdefinition]
  | none =>
      have hother : (finishedCard state.names card).definition ≠ some id := by
        intro hself
        obtain ⟨found, hfound, hown⟩ := hcatalogued.definition_finishedCard hdefinition hself
        rw [hcard, Option.some.injEq] at hfound
        rw [← hfound, hdefinition] at hown
        cases hown
      simpa using hother

theorem firstDeclared?_finish (hcatalogued : Catalogued source origin state.tree state.names)
    (family : Family) {name : String} (hname : name ≠ "") :
    state.finish.firstDeclared? family name = (state.names.decls family).find? name := by
  rw [(hcatalogued.decls family).find?_eq, CursorTree.firstDeclared?, State.size_finish]
  congr 1
  funext id
  have hview : (state.finish.nodes[id]?.any fun node =>
      node.kind.family? == some family && node.spelling == name && node.definition != some id) =
      (state.finish.card? id).any fun card =>
        card.kind.family? == some family && card.spelling == name &&
          card.definition != some id := by
    rw [CursorTree.card?, Option.any_map]
    rfl
  rw [hview, hcatalogued.card?_finish, Option.any_map]
  cases hcard : state.tree.card? id with
  | none => rfl
  | some card =>
      have hself := hcatalogued.definition_self hcard
      simp only [Option.any_some, bne, hself, Card.declares,
        Option.not_isSome]
      rw [finishedCard_eq]
      by_cases hspelling : card.spelling = name
      · simp [hspelling, hname]
      · have hbeq : (card.spelling == name) = false := by simpa using hspelling
        simp [hbeq]

/-- The tables of a family find its first definition or else its first declaration. -/
theorem tag?_eq (hcatalogued : Catalogued source origin state.tree state.names) {name : String}
    (hname : name ≠ "") : state.names.tag? name = state.finish.firstTag? name := by
  rw [CursorTree.firstTag?, hcatalogued.firstDefined?_finish .tags hname,
    hcatalogued.firstDeclared?_finish .tags hname]
  rfl

/-- A tag without a name is in no table. -/
theorem tag?_empty (hcatalogued : Catalogued source origin state.tree state.names) :
    state.names.tag? "" = none := by
  have hdefs : state.names.tagDefs.find? "" = none := hcatalogued.find?_empty .tags
  rw [FileNames.tag?, hdefs, Option.none_or]
  cases hfind : state.names.tagDecls.find? "" with
  | none => rfl
  | some id =>
      obtain ⟨card, -, hspelling, hdeclares⟩ := (hcatalogued.decls .tags).card?_of_find? hfind
      simp [Card.declares, hspelling] at hdeclares

theorem named_finish (hcatalogued : Catalogued source origin state.tree state.names)
    {kinds : List CursorKind} {name : String} {id : NodeId}
    (hnamed : state.tree.Named kinds name id) : state.finish.Named kinds name id := by
  obtain ⟨card, hcard, hkind, hspelling⟩ := CursorTree.named_iff_card?.mp hnamed
  refine CursorTree.named_iff_card?.mpr ⟨finishedCard state.names card, ?_, ?_, ?_⟩
  · rw [hcatalogued.card?_finish, hcard, Option.map_some]
  · rw [finishedCard_eq]
    exact hkind
  · rw [finishedCard_eq]
    exact hspelling

/-- What the tables of a family find is of the family. -/
theorem card?_of_family (hcatalogued : Catalogued source origin state.tree state.names)
    (family : Family) {name : String} {target : NodeId}
    (hfind : ((state.names.defs family).find? name).or ((state.names.decls family).find? name) =
      some target) :
    ∃ card, state.tree.card? target = some card ∧ card.spelling = name ∧
      card.kind.family? = some family := by
  rcases Option.or_eq_some_iff.mp hfind with hdefs | ⟨-, hdecls⟩
  · obtain ⟨card, hcard, hspelling, hdefines⟩ := (hcatalogued.defs family).card?_of_find? hdefs
    exact ⟨card, hcard, hspelling, by simp_all [Card.defines]⟩
  · obtain ⟨card, hcard, hspelling, hdeclares⟩ := (hcatalogued.decls family).card?_of_find? hdecls
    exact ⟨card, hcard, hspelling, by simp_all [Card.declares]⟩

theorem named_of_function? (hcatalogued : Catalogued source origin state.tree state.names)
    {name : String} {target : NodeId} (hfunction : state.names.function? name = some target) :
    state.finish.Named [.function] name target := by
  obtain ⟨card, hcard, hspelling, hfamily⟩ := hcatalogued.card?_of_family .functions hfunction
  have hkind : card.kind = .function := by
    cases hkind : card.kind <;> simp [hkind, CursorKind.family?] at hfamily ⊢
  exact hcatalogued.named_finish
    (CursorTree.named_iff_card?.mpr ⟨card, hcard, by simp [hkind], hspelling⟩)

/-- A function with a name is in one of its tables. -/
theorem firstNamed?_of_function? (hcatalogued : Catalogued source origin state.tree state.names)
    {name : String} (hname : name ≠ "") (hnone : state.names.function? name = none) :
    state.finish.firstNamed? .function name = none := by
  obtain ⟨hdefs, hdecls⟩ := Option.or_eq_none_iff.mp hnone
  refine List.find?_eq_none.mpr fun id hid hnamed => ?_
  rw [hcatalogued.isNamed_finish, CursorTree.isNamed_eq_card?] at hnamed
  obtain ⟨card, hcard, hsame⟩ := (Option.any_eq_true _ _).mp hnamed
  obtain ⟨hkind, rfl⟩ : card.kind = .function ∧ card.spelling = name := by simpa using hsame
  -- it was entered with a definition or without one
  have hdefined := (hcatalogued.defs .functions).not_listed hcard hdefs
  have hdeclared := (hcatalogued.decls .functions).not_listed hcard hdecls
  cases hdefinition : card.definition with
  | none => simp [Card.declares, hkind, CursorKind.family?, hdefinition] at hdeclared
  | some own => simp [Card.defines, hkind, CursorKind.family?, hdefinition, hname] at hdefined

end Catalogued

/-! ## References -/

/-- What is known once the whole file has been seen. -/
structure Surveyed (source : Source) (origin : Entry → Label → Prop) (state : State) : Prop where
  catalogued : Catalogued source origin state.tree state.names
  rosters : Rosters state
  values : state.ValuesKnown

theorem surveyed_run (source : Source) (file : ParseTree) :
    Surveyed source (Arises source file) (run source file) where
  catalogued := catalogued_run source file
  rosters := (builds_run source file).keeps (keeps_rosters source _) Nat.zero_lt_one
    (rosters_start source.file)
  values := (builds_run source file).keeps (keeps_valuesKnown source _) Nat.zero_lt_one
    (valuesKnown_start source.file)

namespace Surveyed

variable {source : Source} {origin : Entry → Label → Prop} {state : State}

theorem lookup_field (hsurveyed : Surveyed source origin state) (name : String) :
    state.names.lookup .field name = state.finish.firstNamed? .field name :=
  hsurveyed.rosters.find?_eq hsurveyed.catalogued .field (by simp [rosterKinds]) name

theorem lookup_tag (hsurveyed : Surveyed source origin state) (name : String) :
    state.names.lookup .tag name = if name = "" then none else state.finish.firstTag? name := by
  split
  next hname =>
    subst hname
    exact hsurveyed.catalogued.tag?_empty
  next hname => exact hsurveyed.catalogued.tag?_eq hname

theorem lookup_type (hsurveyed : Surveyed source origin state) {name : String} (hname : name ≠ "") :
    state.names.lookup .type name =
      (state.finish.firstNamed? .typedef name).or (state.finish.firstTag? name) := by
  have htypedef : state.names.typedefs.find? name = state.finish.firstNamed? .typedef name :=
    hsurveyed.rosters.find?_eq hsurveyed.catalogued .typedef (by simp [rosterKinds]) name
  rw [FileNames.lookup, htypedef, hsurveyed.catalogued.tag?_eq hname]

theorem named_of_globals (hsurveyed : Surveyed source origin state) {name : String}
    {target : NodeId} (hfind : state.names.globals.find? name = some target) :
    state.finish.Named valueKinds name target :=
  hsurveyed.catalogued.named_finish
    (hsurveyed.values (name, target) (List.mem_append_left _ (FirstTable.mem_of_find? hfind)))

theorem lookup_call (hsurveyed : Surveyed source origin state) {name : String} (hname : name ≠ "") :
    (∀ target, state.names.lookup .call name = some target →
      state.finish.Named [.function, .variable, .parameter] name target) ∧
    (state.names.lookup .call name = none → state.finish.firstNamed? .function name = none) := by
  refine ⟨fun target hlookup => ?_, fun hnone => ?_⟩
  · rcases Option.or_eq_some_iff.mp hlookup with hfunction | ⟨-, hglobal⟩
    · exact (hsurveyed.catalogued.named_of_function? hfunction).mono (by simp)
    · exact (hsurveyed.named_of_globals hglobal).mono (by simp [valueKinds])
  · exact hsurveyed.catalogued.firstNamed?_of_function? hname (Option.or_eq_none_iff.mp hnone).1

theorem lookup_value (hsurveyed : Surveyed source origin state) {name : String}
    (hname : name ≠ "") :
    (∀ target, state.names.lookup .value name = some target →
      state.finish.Named [.variable, .parameter, .enumerator, .function] name target) ∧
    (state.names.lookup .value name = none →
      state.finish.firstNamed? .enumerator name = none ∧
        state.finish.firstNamed? .function name = none) := by
  have henumerator : state.names.enumerators.find? name =
      state.finish.firstNamed? .enumerator name :=
    hsurveyed.rosters.find?_eq hsurveyed.catalogued .enumerator (by simp [rosterKinds]) name
  refine ⟨fun target hlookup => ?_, fun hnone => ?_⟩
  · rcases Option.or_eq_some_iff.mp hlookup with hvalue | ⟨-, hfunction⟩
    · rcases Option.or_eq_some_iff.mp hvalue with hglobal | ⟨-, hfind⟩
      · exact (hsurveyed.named_of_globals hglobal).mono (by simp [valueKinds])
      · rw [henumerator] at hfind
        exact (CursorTree.named_of_firstNamed? hfind).mono (by simp)
    · exact (hsurveyed.catalogued.named_of_function? hfunction).mono (by simp)
  · obtain ⟨hvalue, hfunction⟩ := Option.or_eq_none_iff.mp hnone
    rw [← henumerator]
    exact ⟨(Option.or_eq_none_iff.mp hvalue).2,
      hsurveyed.catalogued.firstNamed?_of_function? hname hfunction⟩

end Surveyed

section References

variable {source : Source} {file : ParseTree} {lowered : CursorTree} {id : NodeId} {node : Node}

/-- The keyword of a tag that names a type. -/
theorem keyword_of_arises {keyword name : String} {place : Label}
    (harises : Arises source file (.tagRef keyword name) place) :
    keyword ∈ ["struct", "union", "class", "enum"] := by
  obtain ⟨label, children, -, hmade⟩ := harises
  cases hmade with
  | tagRef hform =>
      unfold Form.ofKind at hform
      split at hform <;> simp_all [Form.tagKind?, specifierKeyword]

/-- What an open scope has for a name is a variable or parameter, so a name that is looked
up in scopes and tables means what it means in the tables, or one of these. -/
theorem Entered.named_of_or {origin : Entry → Label → Prop} {before after : State}
    {entry : Entry} {place : Label} (hentered : Entered source origin before entry place after)
    (hcatalogued : Catalogued source origin after.tree after.names) (hknown : before.ValuesKnown)
    {space : Space} {name : String} {kinds : List CursorKind}
    (hvalues : valueKinds ⊆ kinds)
    (hlookup : ∀ target, after.names.lookup space name = some target →
      after.finish.Named kinds name target) {target : NodeId}
    (htarget : (before.answer? space name).or (after.names.lookup space name) = some target) :
    after.finish.Named kinds name target := by
  rcases Option.or_eq_some_iff.mp htarget with hanswer | ⟨-, hfound⟩
  · have hvalue := hknown _ (State.mem_values_of_answer? hanswer)
    exact (hcatalogued.named_finish (hentered.older.named hvalue)).mono hvalues
  · exact hlookup target hfound

/-- The moment at which a cursor that is not the root was entered, and what it refers to:
the name it looks up, or what it was given. -/
theorem exists_entered_values (hlowered : lowerFile? source file = some lowered)
    (hnode : lowered.nodes[id]? = some node) (hroot : id ≠ root) :
    ∃ before entry place, before.ValuesKnown ∧
      Entered source (Arises source file) before entry place (run source file) ∧
      node.kind = entry.kind ∧ node.spelling = entry.spelling ∧
      node.location = source.location place ∧
      (∀ space name, entry.sought? = some (space, name) →
        node.referenced = (before.answer? space name).or
          ((run source file).names.lookup space name)) ∧
      (entry.sought? = none → node.referenced = entry.target? before) := by
  obtain ⟨before, entry, place, rfl, hknown, hentered, hsame, hspelling, hlocation, hreferenced⟩ :=
    exists_entered hlowered (keeps_valuesKnown source (Arises source file))
      (valuesKnown_start source.file) hnode hroot
  refine ⟨before, entry, place, hknown, hentered, hsame, hspelling, hlocation, ?_, ?_⟩
  · intro space name hsought
    rw [hreferenced, hsought, Option.bind_some, Entry.target?_of_sought? hsought]
  · intro hnone
    rw [hreferenced, hnone, Option.bind_none, Option.or_none]

theorem referenced_of_memberRef (hlowered : lowerFile? source file = some lowered)
    (hnode : lowered.nodes[id]? = some node) (hname : node.spelling ≠ "")
    (hkind : node.kind = .memberRef) :
    node.referenced = lowered.firstNamed? .field node.spelling := by
  obtain ⟨before, entry, place, -, hentered, hsame, hspelling, -, hreferenced, -⟩ :=
    exists_entered_values hlowered hnode (ne_root_of_kind hlowered hnode (by simp [hkind]))
  obtain rfl := finish_of_lowerFile? hlowered
  have hform := Entry.of_kind hentered.allowed
  rw [← hsame, hkind] at hform
  obtain ⟨name, rfl⟩ := hform
  rw [hspelling] at hname ⊢
  have hsought : (Entry.member name).sought? = some (.field, name) :=
    if_neg (by simpa [Entry.spelling] using hname)
  -- no scope is asked for a member
  rw [hreferenced .field name hsought]
  exact (surveyed_run source file).lookup_field name

theorem referenced_of_typeRef (hlowered : lowerFile? source file = some lowered)
    (hnode : lowered.nodes[id]? = some node) (hname : node.spelling ≠ "")
    (hkind : node.kind = .typeRef) :
    (∃ place, Arises source file (.typeName node.spelling) place ∧
      node.location = source.location place ∧
      node.referenced =
        (lowered.firstNamed? .typedef node.spelling).or (lowered.firstTag? node.spelling)) ∨
    ∃ keyword name place, Arises source file (.tagRef keyword name) place ∧
      keyword ∈ ["struct", "union", "class", "enum"] ∧
      node.spelling = keyword ++ " " ++ name ∧ node.location = source.location place ∧
      node.referenced = if name = "" then none else lowered.firstTag? name := by
  obtain ⟨before, entry, place, -, hentered, hsame, hspelling, hlocation, hreferenced, -⟩ :=
    exists_entered_values hlowered hnode (ne_root_of_kind hlowered hnode (by simp [hkind]))
  obtain rfl := finish_of_lowerFile? hlowered
  have hform := Entry.of_kind hentered.allowed
  rw [← hsame, hkind] at hform
  -- nor is a scope asked for a type
  rcases hform with ⟨name, rfl⟩ | ⟨keyword, name, rfl⟩
  · rw [hspelling] at hname ⊢
    refine .inl ⟨place, hentered.origin, hlocation, ?_⟩
    rw [hreferenced .type name rfl]
    exact (surveyed_run source file).lookup_type hname
  · refine .inr ⟨keyword, name, place, hentered.origin, keyword_of_arises hentered.origin,
      hspelling, hlocation, ?_⟩
    rw [hreferenced .tag name rfl]
    exact (surveyed_run source file).lookup_tag name

theorem referenced_of_call (hlowered : lowerFile? source file = some lowered)
    (hnode : lowered.nodes[id]? = some node) (hname : node.spelling ≠ "")
    (hkind : node.kind = .call) :
    (∀ target, node.referenced = some target →
      lowered.Named [.function, .variable, .parameter] node.spelling target) ∧
    (node.referenced = none → lowered.firstNamed? .function node.spelling = none) := by
  obtain ⟨before, entry, place, hknown, hentered, hsame, hspelling, -, hreferenced, -⟩ :=
    exists_entered_values hlowered hnode (ne_root_of_kind hlowered hnode (by simp [hkind]))
  obtain rfl := finish_of_lowerFile? hlowered
  have hform := Entry.of_kind hentered.allowed
  rw [← hsame, hkind] at hform
  obtain ⟨callee, name, rfl⟩ := hform
  rw [hspelling] at hname ⊢
  have hsought : (Entry.call callee name).sought? = some (.call, name) :=
    if_neg (by simpa [Entry.spelling] using hname)
  obtain ⟨hsound, hcomplete⟩ := (surveyed_run source file).lookup_call hname
  rw [hreferenced .call name hsought]
  refine ⟨fun target => ?_, fun hnone => hcomplete (Option.or_eq_none_iff.mp hnone).2⟩
  exact hentered.named_of_or (catalogued_run source file) hknown (by simp [valueKinds]) hsound

theorem referenced_of_valueRef (hlowered : lowerFile? source file = some lowered)
    (hnode : lowered.nodes[id]? = some node) (hname : node.spelling ≠ "")
    (hkind : node.kind = .valueRef) :
    (∀ target, node.referenced = some target →
      lowered.Named [.variable, .parameter, .enumerator, .function] node.spelling target) ∧
    (node.referenced = none →
      lowered.firstNamed? .enumerator node.spelling = none ∧
        lowered.firstNamed? .function node.spelling = none) := by
  obtain ⟨before, entry, place, hknown, hentered, hsame, hspelling, -, hreferenced, -⟩ :=
    exists_entered_values hlowered hnode (ne_root_of_kind hlowered hnode (by simp [hkind]))
  obtain rfl := finish_of_lowerFile? hlowered
  have hform := Entry.of_kind hentered.allowed
  rw [← hsame, hkind] at hform
  obtain ⟨name, rfl⟩ := hform
  rw [hspelling] at hname ⊢
  obtain ⟨hsound, hcomplete⟩ := (surveyed_run source file).lookup_value hname
  rw [hreferenced .value name rfl]
  refine ⟨fun target => ?_, fun hnone => hcomplete (Option.or_eq_none_iff.mp hnone).2⟩
  exact hentered.named_of_or (catalogued_run source file) hknown (by simp [valueKinds]) hsound

/-- The kinds of cursors that can refer to something. -/
def referringKinds : List CursorKind :=
  [.memberRef, .typeRef, .call, .valueRef, .macroExpansion]

theorem referenced_of_other (hlowered : lowerFile? source file = some lowered)
    (hnode : lowered.nodes[id]? = some node) (hkind : node.kind ∉ referringKinds) :
    node.referenced = none := by
  by_cases hroot : id = root
  · subst hroot
    exact (unit_of_root hlowered hnode).2
  · obtain ⟨before, entry, place, -, hentered, hsame, -, -, -, hreferenced⟩ :=
      exists_entered_values hlowered hnode hroot
    have hform := Entry.of_kind hentered.allowed
    rw [← hsame] at hform
    simp only [referringKinds, List.mem_cons, List.not_mem_nil, or_false, not_or] at hkind
    split at hform
    · simp_all
    · simp_all
    · simp_all
    · simp_all
    · simp_all
    · rw [hreferenced hform.1, hform.2]

end References

/-- **References are well typed and complete.**  A cursor of a lowered file refers to what its
kind and its spelling say, if it has a spelling.

* The member of a record refers to the first field of its name, if there is one.
* A type name refers to the first type definition of its name, or else to the tag of its
  name: its first definition, or else its first declaration.  Behind `struct`, `union`,
  `class` or `enum` a name means the tag only; without a name, nothing is meant.
* A call refers to nothing but a function, variable or parameter of its name, and misses no
  function.
* A plain name refers to nothing but a variable, parameter, enumerator or function of its
  name, and misses neither enumerators nor functions.

The use of a macro refers to a definition of its name, and cursors of other kinds refer to
nothing, with a spelling or without. -/
theorem lowerFile?_references {source : Source} {file : ParseTree} {lowered : CursorTree}
    (hlowered : lowerFile? source file = some lowered) {id : NodeId} {node : Node}
    (hnode : lowered.nodes[id]? = some node) :
    match node.kind with
    | .memberRef =>
      node.spelling ≠ "" → node.referenced = lowered.firstNamed? .field node.spelling
    | .typeRef =>
      node.spelling ≠ "" →
        (∃ place, Arises source file (.typeName node.spelling) place ∧
          node.location = source.location place ∧
          node.referenced =
            (lowered.firstNamed? .typedef node.spelling).or (lowered.firstTag? node.spelling)) ∨
        ∃ keyword name place, Arises source file (.tagRef keyword name) place ∧
          keyword ∈ ["struct", "union", "class", "enum"] ∧
          node.spelling = keyword ++ " " ++ name ∧ node.location = source.location place ∧
          node.referenced = if name = "" then none else lowered.firstTag? name
    | .call =>
      node.spelling ≠ "" →
        (∀ target, node.referenced = some target →
          lowered.Named [.function, .variable, .parameter] node.spelling target) ∧
        (node.referenced = none → lowered.firstNamed? .function node.spelling = none)
    | .valueRef =>
      node.spelling ≠ "" →
        (∀ target, node.referenced = some target →
          lowered.Named [.variable, .parameter, .enumerator, .function] node.spelling target) ∧
        (node.referenced = none →
          lowered.firstNamed? .enumerator node.spelling = none ∧
            lowered.firstNamed? .function node.spelling = none)
    | .macroExpansion => ∃ target, node.referenced = some target ∧
        lowered.Named [.macroDefinition] node.spelling target
    | _ => node.referenced = none := by
  split
  next hkind => exact fun hname => referenced_of_memberRef hlowered hnode hname hkind
  next hkind => exact fun hname => referenced_of_typeRef hlowered hnode hname hkind
  next hkind => exact fun hname => referenced_of_call hlowered hnode hname hkind
  next hkind => exact fun hname => referenced_of_valueRef hlowered hnode hname hkind
  next hkind =>
    obtain ⟨target, hlast, hreferenced⟩ := referenced_of_macroExpansion hlowered hnode hkind
    exact ⟨target, hreferenced, CursorTree.named_of_lastNamed? hlast⟩
  next hmember htype hcall hvalue hexpansion =>
    refine referenced_of_other hlowered hnode ?_
    simp only [referringKinds, List.mem_cons, List.not_mem_nil, or_false, not_or]
    exact ⟨hmember, htype, hcall, hvalue, hexpansion⟩

namespace ReferenceSample

/-- A function that calls itself, with references of every kind. -/
def source : Source where
  file := "r.c"
  bytes := ("#define N 2\nstruct s { int x; };\n" ++
    "int f(struct s *p) { return f(p)->x + N; }\n").toUTF8
  lineEnds := [11, 32, 75]
  options := {}
  limit := some 512
  includeTarget := fun _ _ => none

/-- The parse tree of the file, without the arithmetic types. -/
def file : ParseTree :=
  let node (kind : String) (field : Option String) (start stop : Nat)
      (children : List ParseTree) : ParseTree :=
    .node { kind, named := true, field, start, stop } children
  let member : ParseTree :=
    node "field_expression" (some "left") 61 68
      [node "call_expression" (some "argument") 61 65
        [node "identifier" (some "function") 61 62 [],
          node "argument_list" (some "arguments") 62 65 [node "identifier" none 63 64 []]],
        node "field_identifier" (some "field") 67 68 []]
  node "translation_unit" none 0 76
    [node "preproc_def" none 0 12 [node "identifier" (some "name") 8 9 []],
      node "struct_specifier" none 12 31
        [node "type_identifier" (some "name") 19 20 [],
          node "field_declaration_list" (some "body") 21 31
            [node "field_declaration" none 23 29
              [node "field_identifier" (some "declarator") 27 28 []]]],
      node "function_definition" none 33 75
        [node "function_declarator" (some "declarator") 37 51
          [node "identifier" (some "declarator") 37 38 [],
            node "parameter_list" (some "parameters") 38 51
              [node "parameter_declaration" none 39 50
                [node "struct_specifier" (some "type") 39 47
                  [node "type_identifier" (some "name") 46 47 []],
                  node "pointer_declarator" (some "declarator") 48 50
                    [node "identifier" (some "declarator") 49 50 []]]]],
          node "compound_statement" (some "body") 52 75
            [node "return_statement" none 54 73
              [node "binary_expression" none 61 72
                [member, node "identifier" (some "right") 71 72 []]]]]]

end ReferenceSample

theorem lowerFile?_references_referenceSample :
    ∃ lowered node, lowerFile? ReferenceSample.source ReferenceSample.file = some lowered ∧
      (lowered.nodes.toList.map fun node => (node.spelling, node.referenced)) =
        [("r.c", none), ("N", none), ("s", none), ("x", none), ("f", none), ("p", none),
          ("struct s", some 2), ("", none), ("", none), ("", none), ("x", some 3), ("f", some 4),
          ("f", some 4), ("p", some 5), ("N", some 1)] ∧
      lowered.nodes[10]? = some node ∧ node.spelling ≠ "" ∧
      node.referenced = lowered.firstNamed? .field node.spelling := by
  have hview : (lowerFile? ReferenceSample.source ReferenceSample.file).map (fun lowered =>
      (lowered.nodes.toList.map fun node => (node.spelling, node.referenced),
        lowered.nodes[10]?.map fun node => (node.kind, node.spelling))) =
        some ([("r.c", none), ("N", none), ("s", none), ("x", none), ("f", none), ("p", none),
          ("struct s", some 2), ("", none), ("", none), ("", none), ("x", some 3), ("f", some 4),
          ("f", some 4), ("p", some 5), ("N", some 1)], some (.memberRef, "x")) := by
    decide +kernel
  obtain ⟨lowered, hlowered, hsame⟩ := Option.map_eq_some_iff.mp hview
  obtain ⟨hreferences, hmember⟩ := Prod.mk.inj hsame
  obtain ⟨node, hnode, hcalled⟩ := Option.map_eq_some_iff.mp hmember
  obtain ⟨hkind, hspelling⟩ := Prod.mk.inj hcalled
  have hname : node.spelling ≠ "" := by
    rw [hspelling]
    decide
  have hrefers := lowerFile?_references hlowered hnode
  rw [hkind] at hrefers
  exact ⟨lowered, node, hlowered, hreferences, hnode, hname, hrefers hname⟩

end Lowering
end SourceIndex
