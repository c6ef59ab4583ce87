import SourceIndex.Proofs.Lowering.Frame

/-!
# Scopes of a lowered file

Functions, type definitions and blocks open scopes.  The cursors of a scope are numbered
one after the other, and once the scope is closed, none of its variables and parameters
can be meant any more (`State.Sealed`): the open scopes and the table of the names outside
of all scopes are what they were before the scope was opened.  So a variable or parameter
that stands in a scope is referred to from inside the scope only.

Two things are NOT in the scope of the cursor they stand below.

* The type of a function with a body is lowered before the scope of the function is opened.
* Variables, fields and parameters open no scope.  The parameters in the declarator of a
  pointer to a function have the names of the scope, or of the file, in which the pointer is
  declared, and can be meant by what comes later there (`LeakSample`).
-/

namespace SourceIndex
namespace Lowering

open CursorTree (root Numbered)

/-- The kinds of cursors that open a scope. -/
def scopeKinds : List CursorKind :=
  [.function, .typedef, .unexposed "compound_statement"]

/-! ## Known names -/

/-- A cursor of one of these kinds stands at a position. -/
def OfKind (tree : CursorTree) (kinds : List CursorKind) (id : NodeId) : Prop :=
  ∃ card, tree.card? id = some card ∧ card.kind ∈ kinds

theorem OfKind.lt_size {tree : CursorTree} {kinds : List CursorKind} {id : NodeId}
    (hkind : OfKind tree kinds id) : id < tree.size := by
  obtain ⟨card, hcard, -⟩ := hkind
  exact CursorTree.lt_size_of_card? hcard

/-- The names in scopes and tables are known, and references that were answered at once
lead back. -/
structure State.Tidy (state : State) : Prop where
  waits : state.WaitsInside
  values : state.ValuesKnown
  macros : state.MacrosKnown
  back : ∀ {id target : NodeId}, state.tree.referenced? id = some target → target < id

section Tidy

variable {source : Source} {origin : Entry → Label → Prop} {state : State} {entry : Entry}

theorem State.ValuesKnown.lt_size (hknown : state.ValuesKnown) {value : String × NodeId}
    (hvalue : value ∈ state.values) : value.2 < state.tree.size := by
  obtain ⟨card, hcard, -⟩ := CursorTree.named_iff_card?.mp (hknown value hvalue)
  exact CursorTree.lt_size_of_card? hcard

/-- What a new cursor refers to at once is a name in a scope, or a macro. -/
theorem Entry.of_target? (hallowed : entry.Allowed source state) {target : NodeId}
    (htarget : entry.target? state = some target) :
    (∃ name, (name, target) ∈ state.scopes.flatten) ∨
      ∃ name, state.names.macros.lookup name = some target := by
  cases hsought : entry.sought? with
  | some sought =>
      rw [Entry.target?_of_sought? hsought] at htarget
      exact .inl ⟨sought.2, State.mem_scopes_of_answer? htarget⟩
  | none =>
      cases entry with
      | expansion name macroId =>
          cases htarget
          exact .inr ⟨name, hallowed.2⟩
      | _ => simp [Entry.target?, hsought] at htarget

/-- A macro is a cursor of the tree, and of its own kind. -/
theorem State.MacrosKnown.ofKind (hknown : state.MacrosKnown) {name : String} {target : NodeId}
    (hlookup : state.names.macros.lookup name = some target) :
    OfKind state.tree [.macroDefinition] target := by
  rw [hknown name] at hlookup
  obtain ⟨card, hcard, hkind, -⟩ :=
    CursorTree.named_iff_card?.mp (CursorTree.named_of_lastNamed? hlookup)
  exact ⟨card, hcard, hkind⟩

/-- No macro is a variable or parameter. -/
theorem State.MacrosKnown.not_value (hknown : state.MacrosKnown) {name : String} {target : NodeId}
    (hlookup : state.names.macros.lookup name = some target) :
    ¬OfKind state.tree valueKinds target := by
  rintro ⟨card, hcard, hvalue⟩
  obtain ⟨other, hother, hdefines⟩ := hknown.ofKind hlookup
  rw [hcard, Option.some.injEq] at hother
  rw [← hother, List.mem_singleton] at hdefines
  simp [hdefines, valueKinds] at hvalue

theorem keeps_tidy (source : Source) (origin : Entry → Label → Prop) :
    Keeps source origin State.Tidy where
  enter := by
    intro state entry place parent htidy horigin hallowed hparent
    refine ⟨(keeps_waitsInside source origin).enter htidy.waits horigin hallowed hparent,
      htidy.values.enter hparent, htidy.macros.enter hallowed hparent, ?_⟩
    intro id target htarget
    rw [Entry.tree_enter, CursorTree.referenced?_push hparent] at htarget
    split at htarget
    next hnew =>
      rw [hnew]
      rcases Entry.of_target? hallowed htarget with ⟨name, hvalue⟩ | ⟨name, hlookup⟩
      · exact htidy.values.lt_size (List.mem_append_right _ hvalue)
      · exact (htidy.macros.ofKind hlookup).lt_size
    next => exact htidy.back htarget
  openScope := fun htidy => ⟨htidy.waits, htidy.values, htidy.macros, htidy.back⟩
  closeScope := fun htidy => ⟨htidy.waits, fun value hvalue =>
    htidy.values value (State.mem_values_of_closeScope hvalue), htidy.macros, htidy.back⟩
  level := fun _ _ _ htidy => ⟨htidy.waits, htidy.values, htidy.macros, htidy.back⟩

theorem not_referenced_start (file : String) (id target : NodeId) :
    (State.start file).tree.referenced? id ≠ some target := by
  intro htarget
  obtain ⟨node, hnode, hreferenced⟩ := Option.bind_eq_some_iff.mp htarget
  have hid : id < 1 := (Array.getElem?_eq_some_iff.mp hnode).1
  obtain rfl : id = 0 := Nat.lt_one_iff.mp hid
  cases hnode
  cases hreferenced

theorem tidy_start (file : String) : (State.start file).Tidy where
  waits := fun _ hwaiting => nomatch hwaiting
  values := valuesKnown_start file
  macros := macrosKnown_start file
  back := fun htarget => absurd htarget (not_referenced_start file _ _)

end Tidy

/-! ## Closed scopes -/

/-- The variables and parameters from `first` up to `last` are out of reach: no name means
them any more, and only cursors from `first` up to `last` refer to them. -/
structure State.Sealed (first last : Nat) (state : State) : Prop where
  passed : last ≤ state.tree.size
  values : ∀ value ∈ state.values, value.2 < first ∨ last ≤ value.2
  references : ∀ {id target : Nat}, id < first ∨ last ≤ id →
    state.tree.referenced? id = some target → OfKind state.tree valueKinds target →
    target < first ∨ last ≤ target

section Sealing

variable {source : Source} {origin : Entry → Label → Prop} {state : State} {first last : Nat}

/-- Nothing leads back into a closed scope. -/
theorem State.Sealed.enter {entry : Entry} {place : Label} {parent : Nat}
    (hsealed : state.Sealed first last) (htidy : state.Tidy)
    (hallowed : entry.Allowed source state) (hparent : parent < state.tree.size) :
    (entry.enter source place parent state).Sealed first last where
  passed := by
    rw [Entry.size_enter]
    exact Nat.le_succ_of_le hsealed.passed
  values := by
    intro value hvalue
    rcases Entry.mem_values_enter.mp hvalue with ⟨-, hnew⟩ | hold
    · rw [hnew]
      exact .inr hsealed.passed
    · exact hsealed.values value hold
  references := by
    intro id target hid htarget hkind
    by_cases hnew : target = state.tree.size
    · rw [hnew]
      exact .inr hsealed.passed
    obtain ⟨card, hcard, hvalue⟩ := hkind
    rw [Entry.tree_enter, CursorTree.card?_push hparent, if_neg hnew] at hcard
    rw [Entry.tree_enter, CursorTree.referenced?_push hparent] at htarget
    split at htarget
    · rcases Entry.of_target? hallowed htarget with ⟨name, hmem⟩ | ⟨name, hlookup⟩
      · exact hsealed.values _ (List.mem_append_right _ hmem)
      · exact absurd ⟨card, hcard, hvalue⟩ (htidy.macros.not_value hlookup)
    · exact hsealed.references hid htarget ⟨card, hcard, hvalue⟩

/-- Of scopes and levels, only the names matter, and fewer names do no harm. -/
theorem State.Sealed.of_values {after : State} (hsealed : state.Sealed first last)
    (htree : after.tree = state.tree) (hvalues : after.values ⊆ state.values) :
    after.Sealed first last := by
  refine ⟨?_, fun value hvalue => hsealed.values value (hvalues hvalue), ?_⟩
  · rw [htree]
    exact hsealed.passed
  · rw [htree]
    exact hsealed.references

theorem keeps_sealed (source : Source) (origin : Entry → Label → Prop) (first last : Nat) :
    Keeps source origin fun state => state.Tidy ∧ state.Sealed first last where
  enter := fun hstate horigin hallowed hparent =>
    ⟨(keeps_tidy source origin).enter hstate.1 horigin hallowed hparent,
      hstate.2.enter hstate.1 hallowed hparent⟩
  openScope := fun hstate => ⟨(keeps_tidy source origin).openScope hstate.1,
    hstate.2.of_values rfl (List.Subset.refl _)⟩
  closeScope := fun hstate => ⟨(keeps_tidy source origin).closeScope hstate.1,
    hstate.2.of_values rfl fun _ => State.mem_values_of_closeScope⟩
  level := fun depth deepest tooDeep hstate =>
    ⟨(keeps_tidy source origin).level depth deepest tooDeep hstate.1,
      hstate.2.of_values rfl (List.Subset.refl _)⟩

/-- In a scope, names are given in this scope only. -/
theorem Builds.scopes_eq {parent : NodeId} {after : State}
    (hbuilds : Builds source origin parent state after) {scope : LastTable}
    {outer : List LastTable} (hscopes : state.scopes = scope :: outer) :
    (∃ inner, after.scopes = inner :: outer) ∧
      after.names.globals = state.names.globals := by
  have hframed := hbuilds.framed
  have hlength := hframed.length_scopes
  have houter := hframed.outer
  rw [hscopes] at hlength houter
  refine ⟨?_, hframed.globals (by rw [hscopes]; exact List.cons_ne_nil _ _)⟩
  obtain ⟨inner, rest, hafter⟩ := List.exists_cons_of_length_eq_add_one hlength
  rw [hafter, List.tail_cons, List.tail_cons] at houter
  exact ⟨inner, by rw [hafter, houter]⟩

/-- When a scope is closed, the names are those before it was opened. -/
theorem Builds.values_closeScope {parent : NodeId} {after : State}
    (hbuilds : Builds source origin parent state.openScope after) :
    after.closeScope.values = state.values := by
  obtain ⟨⟨inner, hinner⟩, hglobals⟩ := hbuilds.scopes_eq rfl
  rw [State.values, State.closeScope, hinner, List.tail_cons, hglobals]
  rfl

/-- A scope is sealed when it is closed. -/
theorem Builds.sealed {parent : NodeId} {after : State}
    (hbuilds : Builds source origin parent state.openScope after)
    (hparent : parent < state.tree.size) (htidy : state.Tidy) :
    after.closeScope.Sealed state.tree.size after.tree.size := by
  have hafter := hbuilds.keeps (keeps_tidy source origin) hparent
    ((keeps_tidy source origin).openScope htidy)
  refine ⟨Nat.le_refl _, fun value hvalue => ?_, fun {id target} hid htarget _ => ?_⟩
  · rw [hbuilds.values_closeScope] at hvalue
    exact .inl (htidy.values.lt_size hvalue)
  · -- references lead back, so those before the scope stay before it
    have hback : target < id := hafter.back htarget
    rcases hid with hbefore | hbeyond
    · exact .inl (Nat.lt_trans hback hbefore)
    · obtain ⟨node, hnode, -⟩ := Option.bind_eq_some_iff.mp htarget
      have hlt : id < after.tree.size := (Array.getElem?_eq_some_iff.mp hnode).1
      exact absurd hlt (Nat.not_lt_of_le hbeyond)

end Sealing

/-! ## Scopes and their cursors -/

/-- The scope of a cursor has the positions from `first` up to `last`.  These are all that
follow the cursor below it, but for those of the type of a function with a body. -/
structure Confined (source : Source) (inType : Entry → Label → Prop) (state : State)
    (owner first last : Nat) : Prop where
  starts : owner < first
  ends : first ≤ last
  numbered : Numbered state.tree (state.tree.childrenOf owner) (owner + 1) last
  sealed : state.Sealed first last
  typed : ∀ id : Nat, owner < id → id < first →
    (∃ name place,
      state.tree.card? owner = some ((Entry.functionDefinition name).card source place owner)) ∧
    ∃ entry place, inType entry place ∧
      state.tree.card? id = some (entry.card source place id)

section Confinement

variable {source : Source} {inType : Entry → Label → Prop} {state after : State}
  {owner first last : Nat}

/-- What is built later, above the cursor, leaves its scope alone. -/
theorem Confined.later {origin : Entry → Label → Prop} {parent : Nat}
    (hconfined : Confined source inType state owner first last)
    (hbuilds : Builds source origin parent state after) (hparent : parent < state.tree.size)
    (habove : parent < owner) (htidy : state.Tidy) :
    Confined source inType after owner first last := by
  have hstarts := hconfined.starts
  have hends := hconfined.ends
  have hpassed := hconfined.sealed.passed
  have hgrows := hbuilds.grows hparent
  have hextends := hbuilds.extends hparent
  have hsealed := hbuilds.keeps (keeps_sealed source origin first last) hparent
    ⟨htidy, hconfined.sealed⟩
  refine ⟨hstarts, hends, ?_, hsealed.2, fun id hid hid' => ?_⟩
  · rw [hgrows.kept owner (by omega) (by omega)]
    exact hconfined.numbered.congr fun id hid hid' => hgrows.kept id (by omega) (by omega)
  · rw [hextends.card? owner (by omega), hextends.card? id (by omega)]
    exact hconfined.typed id hid hid'

theorem Confined.of_values (hconfined : Confined source inType state owner first last)
    (htree : after.tree = state.tree) (hvalues : after.values ⊆ state.values) :
    Confined source inType after owner first last := by
  have hsealed := hconfined.sealed.of_values htree hvalues
  refine ⟨hconfined.starts, hconfined.ends, ?_, hsealed, ?_⟩
  · rw [htree]
    exact hconfined.numbered
  · rw [htree]
    exact hconfined.typed

theorem Confined.closeScope (hconfined : Confined source inType state owner first last) :
    Confined source inType state.closeScope owner first last :=
  hconfined.of_values rfl fun _ => State.mem_values_of_closeScope

/-- The scope of a cursor that has been lowered. -/
theorem Confined.scope {origin : Origin} {parent : Nat} {between : State} {entry : Entry}
    {place : Label} (hparent : parent < state.tree.size) (htidy : state.Tidy)
    (horigin : origin.whole entry place) (hallowed : entry.Allowed source state)
    (htype : Builds source origin.typed.whole state.tree.size
      (entry.enter source place parent state) between)
    (honly : (∃ name, entry = .functionDefinition name) ∨
      between = entry.enter source place parent state)
    (hinside : Builds source origin.whole state.tree.size between.openScope after) :
    Confined source origin.inType after.closeScope state.tree.size between.tree.size
      after.tree.size := by
  have hsize := Entry.size_enter source place parent state entry
  have htop := Entry.lt_size_enter source place parent state entry
  have hstarts : state.tree.size < between.tree.size := Nat.lt_of_lt_of_le htop htype.size_le
  have hentered := (keeps_tidy source origin.whole).enter htidy horigin hallowed hparent
  have hbetween := htype.keeps (keeps_tidy source origin.typed.whole) htop hentered
  refine ⟨hstarts, hinside.size_le, ?_, hinside.sealed hstarts hbetween, fun id hid hid' => ?_⟩
  · -- the cursor had no children when it was entered
    have hgrows := (htype.grows htop).trans (hinside.grows hstarts) htop
    obtain ⟨tops, hchildren, hnum⟩ := hgrows.numbered
    rw [Entry.tree_enter, CursorTree.childrenOf_push_new hparent] at hchildren
    rw [hsize] at hnum
    change Numbered after.tree (after.tree.childrenOf state.tree.size) _ _
    rw [hchildren]
    exact hnum
  · have hopened : between.Extends between.openScope := .same rfl rfl
    have hextends := hopened.trans (hinside.extends hstarts)
    rcases honly with ⟨name, rfl⟩ | rfl
    · have howner := (Entered.enter htidy.waits horigin hallowed hparent).later
        ((htype.extends htop).trans hextends)
      obtain ⟨before, found, spot, rfl, -, hfound⟩ := htype.exists_moment
        (keeps_tidy source origin.typed.whole) htop hentered hentered.waits (by omega) hid'
      exact ⟨⟨name, place, howner.card?⟩, found, spot, hfound.origin.2,
        (hfound.later hextends).card?⟩
    · omega

end Confinement

theorem Entry.opensScope_of_kind {source : Source} {state : State} {entry : Entry}
    (hallowed : entry.Allowed source state) (hkind : entry.kind ∈ scopeKinds) :
    entry.opensScope = true := by
  cases entry with
  | functionDefinition | prototype | typedef => rfl
  | other kind => simpa [scopeKinds, Entry.kind, Entry.opensScope] using hkind
  | tagDefinition | tagDeclaration =>
      rcases hallowed with rfl | rfl <;> simp [scopeKinds, Entry.kind] at hkind
  | _ => simp [scopeKinds, Entry.kind] at hkind

/-- Every function, type definition and block has a scope. -/
theorem Derives.confined {source : Source} {origin : Origin} {parent : NodeId}
    {state after : State} (hderives : Derives source origin parent state after)
    (hparent : parent < state.tree.size) (htidy : state.Tidy) {owner : Nat}
    (hold : state.tree.size ≤ owner) (hkind : OfKind after.tree scopeKinds owner) :
    ∃ first last, Confined source origin.inType after owner first last := by
  induction hderives with
  | nothing parent state => exact absurd hkind.lt_size (Nat.not_lt_of_le hold)
  | @andThen origin parent state between after hfirst hthen ihfirst ihthen =>
      have hbetween : parent < between.tree.size :=
        Nat.lt_of_lt_of_le hparent hfirst.builds.size_le
      have habove : parent < owner := Nat.lt_of_lt_of_le hparent hold
      have htidied := hfirst.builds.keeps (keeps_tidy source origin.whole) hparent htidy
      by_cases howner : owner < between.tree.size
      · obtain ⟨card, hcard, hscope⟩ := hkind
        rw [(hthen.builds.extends hbetween).card? owner howner] at hcard
        obtain ⟨first, last, hconfined⟩ := ihfirst hparent htidy hold ⟨card, hcard, hscope⟩
        exact ⟨first, last, hconfined.later hthen.builds hbetween habove htidied⟩
      · exact ihthen hbetween htidied (Nat.le_of_not_lt howner) hkind
  | @cursor origin parent state after entry place horigin hallowed hplain hbelow ih =>
      have hsize := Entry.size_enter source place parent state entry
      have htop := Entry.lt_size_enter source place parent state entry
      have hentered := (keeps_tidy source origin.whole).enter htidy horigin hallowed hparent
      rcases Nat.eq_or_lt_of_le hold with hsame | hlater
      · -- a cursor of such a kind would open a scope
        subst hsame
        obtain ⟨card, hcard, hscope⟩ := hkind
        have hnew := (Entered.enter htidy.waits horigin hallowed hparent).later
          (hbelow.builds.extends htop)
        rw [hnew.card?, Option.some.injEq] at hcard
        rw [← hcard] at hscope
        cases hplain.symm.trans (Entry.opensScope_of_kind hallowed hscope)
      · exact ih htop hentered (by omega) hkind
  | @scope origin parent state between after entry place horigin hallowed _ htype honly hinside
      ihtype ihinside =>
      have hsize := Entry.size_enter source place parent state entry
      have htop := Entry.lt_size_enter source place parent state entry
      have hstarts : state.tree.size < between.tree.size :=
        Nat.lt_of_lt_of_le htop htype.builds.size_le
      have hentered := (keeps_tidy source origin.whole).enter htidy horigin hallowed hparent
      have hbetween := htype.builds.keeps (keeps_tidy source origin.typed.whole) htop hentered
      have hopened := (keeps_tidy source origin.whole).openScope hbetween
      rcases Nat.eq_or_lt_of_le hold with hsame | hlater
      · subst hsame
        exact ⟨_, _, .scope hparent htidy horigin hallowed htype.builds honly hinside.builds⟩
      by_cases howner : owner < between.tree.size
      · -- in the type of the function
        obtain ⟨card, hcard, hscope⟩ := hkind
        have hextends := hinside.builds.extends hstarts
        have hcard' : between.tree.card? owner = some card :=
          (hextends.card? owner howner).symm.trans hcard
        obtain ⟨first, last, hconfined⟩ := ihtype htop hentered (by omega) ⟨card, hcard', hscope⟩
        have hreopened : Confined source origin.inType between.openScope owner first last :=
          hconfined.of_values rfl (List.Subset.refl _)
        exact ⟨first, last,
          (hreopened.later hinside.builds hstarts hlater hopened).closeScope⟩
      · obtain ⟨first, last, hconfined⟩ :=
          ihinside hstarts hopened (Nat.le_of_not_lt howner) hkind
        exact ⟨first, last, hconfined.closeScope⟩
  | @level origin parent state after _ _ ih =>
      have hdeeper : state.deeper.Tidy :=
        ⟨htidy.waits, htidy.values, htidy.macros, htidy.back⟩
      obtain ⟨first, last, hconfined⟩ := ih hparent hdeeper hold hkind
      exact ⟨first, last, hconfined.of_values rfl (List.Subset.refl _)⟩
  | refusal => exact absurd hkind.lt_size (Nat.not_lt_of_le hold)

/-! ## The finished tree -/

section Finish

variable {source : Source} {origin : Entry → Label → Prop} {state : State}

theorem Catalogued.card?_of_finish (hcatalogued : Catalogued source origin state.tree state.names)
    {id : NodeId} {node : Node} (hnode : state.finish.nodes[id]? = some node) :
    ∃ card, state.tree.card? id = some card ∧ node.card = finishedCard state.names card := by
  have hcard := CursorTree.card?_of_getElem? hnode
  rw [hcatalogued.card?_finish] at hcard
  obtain ⟨card, hold, hsame⟩ := Option.map_eq_some_iff.mp hcard
  exact ⟨card, hold, hsame.symm⟩

theorem Catalogued.ofKind_of_finish
    (hcatalogued : Catalogued source origin state.tree state.names) {id : NodeId} {node : Node}
    (hnode : state.finish.nodes[id]? = some node) {kinds : List CursorKind}
    (hkind : node.kind ∈ kinds) : OfKind state.tree kinds id := by
  obtain ⟨card, hcard, hsame⟩ := hcatalogued.card?_of_finish hnode
  rw [finishedCard_eq] at hsame
  exact ⟨card, hcard, (congrArg Card.kind hsame) ▸ hkind⟩

theorem Catalogued.not_value_of_family
    (hcatalogued : Catalogued source origin state.tree state.names) (family : Family)
    {name : String} {target : NodeId}
    (hfind : ((state.names.defs family).find? name).or ((state.names.decls family).find? name) =
      some target) (hvalue : OfKind state.tree valueKinds target) : False := by
  obtain ⟨card, hcard, -, hfamily⟩ := hcatalogued.card?_of_family family hfind
  obtain ⟨other, hother, hkind⟩ := hvalue
  rw [hcard, Option.some.injEq] at hother
  simp only [← hother, valueKinds, List.mem_cons, List.not_mem_nil, or_false] at hkind
  rcases hkind with hkind | hkind <;> simp [hkind, CursorKind.family?] at hfamily

theorem Rosters.not_value (hrosters : Rosters state) {kind : CursorKind}
    (hroster : kind ∈ rosterKinds) {name : String} {target : NodeId}
    (hfind : (state.names.roster kind).find? name = some target)
    (hvalue : OfKind state.tree valueKinds target) : False := by
  obtain ⟨card, hcard, -, hlisted⟩ := (hrosters kind hroster).card?_of_find? hfind
  obtain ⟨other, hother, hkind⟩ := hvalue
  rw [hcard, Option.some.injEq] at hother
  rw [← hother, beq_iff_eq.mp hlisted] at hkind
  simp only [rosterKinds, List.mem_cons, List.not_mem_nil, or_false] at hroster
  rcases hroster with rfl | rfl | rfl <;> simp [valueKinds] at hkind

/-- Of the tables, only that of the names outside of scopes finds variables and
parameters. -/
theorem Surveyed.mem_values_of_lookup (hsurveyed : Surveyed source origin state) {space : Space}
    {name : String} {target : NodeId} (hlookup : state.names.lookup space name = some target)
    (hvalue : OfKind state.tree valueKinds target) : (name, target) ∈ state.values := by
  have hglobal : state.names.globals.find? name = some target → (name, target) ∈ state.values :=
    fun hfind => List.mem_append_left _ (FirstTable.mem_of_find? hfind)
  have hfunction : state.names.function? name ≠ some target :=
    fun hfind => hsurveyed.catalogued.not_value_of_family .functions hfind hvalue
  have htag : state.names.tag? name ≠ some target :=
    fun hfind => hsurveyed.catalogued.not_value_of_family .tags hfind hvalue
  have hroster : ∀ kind ∈ rosterKinds, (state.names.roster kind).find? name ≠ some target :=
    fun kind hkind hfind => hsurveyed.rosters.not_value hkind hfind hvalue
  cases space with
  | call =>
      rcases Option.or_eq_some_iff.mp hlookup with hfind | ⟨-, hfind⟩
      · exact absurd hfind hfunction
      · exact hglobal hfind
  | value =>
      rcases Option.or_eq_some_iff.mp hlookup with hfind | ⟨-, hfind⟩
      · rcases Option.or_eq_some_iff.mp hfind with hfound | ⟨-, hfound⟩
        · exact hglobal hfound
        · exact absurd hfound (hroster .enumerator (by simp [rosterKinds]))
      · exact absurd hfind hfunction
  | type =>
      rcases Option.or_eq_some_iff.mp hlookup with hfind | ⟨-, hfind⟩
      · exact absurd hfind (hroster .typedef (by simp [rosterKinds]))
      · exact absurd hfind htag
  | tag => exact absurd hlookup htag
  | field => exact absurd hlookup (hroster .field (by simp [rosterKinds]))

/-- In the finished tree, too, only cursors of a closed scope refer to its variables and
parameters. -/
theorem State.Sealed.finish {first last : Nat} (hsealed : state.Sealed first last)
    (hsurveyed : Surveyed source origin state) {id target : Nat} (hid : id < state.tree.size)
    (houtside : id < first ∨ last ≤ id) (htarget : state.finish.referenced? id = some target)
    (hvalue : OfKind state.tree valueKinds target) : target < first ∨ last ≤ target := by
  rw [State.referenced?_finish hid] at htarget
  rcases Option.or_eq_some_iff.mp htarget with hwaiting | ⟨-, hreferenced⟩
  · obtain ⟨waiting, -, hlookup⟩ := List.exists_of_findSome?_eq_some hwaiting
    exact hsealed.values _ (hsurveyed.mem_values_of_lookup hlookup hvalue)
  · exact hsealed.references houtside hreferenced hvalue

end Finish

/-- **What stands in a scope is referred to from inside the scope.**  If a cursor of a
lowered file refers to a variable or parameter that stands below a function, a type
definition or a block, the cursor stands below it, too.  The type of a function with a body
is the one exception: what it declares is not in the scope of the function. -/
theorem lowerFile?_scopes {source : Source} {file : ParseTree} {lowered : CursorTree}
    (hlowered : lowerFile? source file = some lowered) {id target owner : Nat}
    {node value scope : Node} (hnode : lowered.nodes[id]? = some node)
    (hreferenced : node.referenced = some target) (hvalue : lowered.nodes[target]? = some value)
    (hvalueKind : value.kind ∈ valueKinds) (hscope : lowered.nodes[owner]? = some scope)
    (hscopeKind : scope.kind ∈ scopeKinds) (hunder : lowered.Under owner target)
    (hbelow : target ≠ owner) :
    lowered.Under owner id ∨
      (scope.kind = .function ∧ scope.definition = some owner ∧
        ∃ entry place, ArisesInType source file entry place ∧ value.kind = entry.kind ∧
          value.spelling = entry.spelling ∧ value.location = source.location place) := by
  have hroot : owner ≠ root := ne_root_of_kind hlowered hscope (by
    intro hunit
    simp [hunit, scopeKinds] at hscopeKind)
  obtain rfl := finish_of_lowerFile? hlowered
  have hbuilds := builds_run source file
  have hsurveyed := surveyed_run source file
  have hcatalogued := hsurveyed.catalogued
  obtain ⟨hsize, hchildren, -⟩ := (hbuilds.linked Nat.zero_lt_one (.start source.file)).finish
  obtain ⟨first, last, hconfined⟩ := (derives_run source file).confined Nat.zero_lt_one
    (tidy_start source.file) (Nat.pos_of_ne_zero hroot)
    (hcatalogued.ofKind_of_finish hscope hscopeKind)
  have hnum : Numbered (run source file).finish ((run source file).finish.childrenOf owner)
      (owner + 1) last := by
    rw [hchildren]
    exact hconfined.numbered.congr fun other _ _ => hchildren other
  obtain ⟨hfrom, hto⟩ := hnum.under_iff.mp hunder
  have hstarts := hconfined.starts
  have hends := hconfined.ends
  by_cases hfirst : target < first
  · -- before the scope is opened, only the type of a function can be met
    have hafter : owner < target := Nat.lt_of_le_of_ne hfrom (Ne.symm hbelow)
    obtain ⟨⟨name, spot, howner⟩, entry, place, htyped, htarget⟩ :=
      hconfined.typed target hafter hfirst
    obtain ⟨ownerCard, hownerCard, hscopeCard⟩ := hcatalogued.card?_of_finish hscope
    obtain ⟨valueCard, hvalueCard, hsame⟩ := hcatalogued.card?_of_finish hvalue
    rw [howner, Option.some.injEq] at hownerCard
    rw [htarget, Option.some.injEq] at hvalueCard
    subst hownerCard hvalueCard
    rw [(hcatalogued.self_of_definition howner rfl).2] at hscopeCard
    rw [finishedCard_eq] at hsame
    exact .inr ⟨congrArg Card.kind hscopeCard, congrArg Card.definition hscopeCard, entry, place,
      htyped, congrArg Card.kind hsame, congrArg Card.spelling hsame,
      congrArg Card.location hsame⟩
  · refine .inl (hnum.under_iff.mpr ?_)
    by_cases houtside : id < first ∨ last ≤ id
    · have hid : id < (run source file).tree.size := by
        rw [← hsize]
        exact (Array.getElem?_eq_some_iff.mp hnode).1
      have hlink : (run source file).finish.referenced? id = some target := by
        rw [CursorTree.referenced?_of_getElem? hnode, hreferenced]
      have hescapes := hconfined.sealed.finish hsurveyed hid houtside hlink
        (hcatalogued.ofKind_of_finish hvalue hvalueKind)
      omega
    · omega

theorem lowerFile?_scopes_referenceSample :
    ∃ lowered, lowerFile? ReferenceSample.source ReferenceSample.file = some lowered ∧
      lowered.referenced? 13 = some 5 ∧ lowered.Under 4 5 ∧
      (lowered.Under 4 13 ∨ ∃ entry place,
        ArisesInType ReferenceSample.source ReferenceSample.file entry place) := by
  have hview : (lowerFile? ReferenceSample.source ReferenceSample.file).map (fun lowered =>
      (lowered.nodes[13]?.map Node.referenced, lowered.nodes[5]?.map Node.kind,
        lowered.nodes[4]?.map Node.kind, lowered.childrenOf 4)) =
        some (some (some 5), some .parameter, some .function, [5, 7]) := by
    decide +kernel
  obtain ⟨lowered, hlowered, hsame⟩ := Option.map_eq_some_iff.mp hview
  simp only [Prod.mk.injEq, Option.map_eq_some_iff] at hsame
  obtain ⟨⟨node, hnode, hreferenced⟩, ⟨value, hvalue, hvalueKind⟩, ⟨scope, hscope, hscopeKind⟩,
    hchildren⟩ := hsame
  have hunder : lowered.Under 4 5 := .child .self (by simp [hchildren])
  refine ⟨lowered, hlowered, ?_, hunder, ?_⟩
  · rw [CursorTree.referenced?_of_getElem? hnode, hreferenced]
  · refine (lowerFile?_scopes hlowered hnode hreferenced hvalue (by simp [hvalueKind, valueKinds])
      hscope (by simp [hscopeKind, scopeKinds]) hunder (by decide)).imp_right ?_
    rintro ⟨-, -, entry, place, htyped, -⟩
    exact ⟨entry, place, htyped⟩

/-! ## Declarations without a scope -/

/-- The kinds of cursors that declare a name and can have parameters. -/
def declarationKinds : List CursorKind :=
  [.function, .variable, .field, .typedef, .parameter]

/-- The nearest declaration that a cursor stands in. -/
inductive DeclaredIn (tree : CursorTree) (owner : NodeId) : NodeId → Prop
  | child {id : NodeId} {node : Node} (hnode : tree.nodes[owner]? = some node)
      (hkind : node.kind ∈ declarationKinds) (hchild : id ∈ tree.childrenOf owner) :
      DeclaredIn tree owner id
  | through {between id : NodeId} {node : Node} (hbetween : DeclaredIn tree owner between)
      (hnode : tree.nodes[between]? = some node) (hkind : node.kind ∉ declarationKinds)
      (hchild : id ∈ tree.childrenOf between) : DeclaredIn tree owner id

/-- Parameters are referred to from inside the declaration they stand in. -/
def ParametersInside (tree : CursorTree) : Prop :=
  ∀ (id target owner : NodeId) (node value : Node), tree.nodes[id]? = some node →
    node.referenced = some target → tree.nodes[target]? = some value → value.kind = .parameter →
    DeclaredIn tree owner target → tree.Under owner id

namespace LeakSample

/-- A pointer to a function, and a function that uses the names of its parameters. -/
def source : Source where
  file := "a.c"
  bytes := ("int (*handler)(int leaked, char other);\n" ++
    "int g(void) { return leaked + other; }\n").toUTF8
  lineEnds := [39, 78]
  options := {}
  limit := some 512
  includeTarget := fun _ _ => none

/-- The parse tree of the file. -/
def file : ParseTree :=
  let node (kind : String) (field : Option String) (start stop : Nat)
      (children : List ParseTree) : ParseTree :=
    .node { kind, named := true, field, start, stop } children
  let mark (kind : String) (field : Option String) (start stop : Nat) : ParseTree :=
    .node { kind, named := false, field, start, stop } []
  let type (start stop : Nat) : ParseTree := node "primitive_type" (some "type") start stop []
  let name (start stop : Nat) : ParseTree := node "identifier" (some "declarator") start stop []
  node "translation_unit" none 0 79
    [node "declaration" none 0 39
      [type 0 3,
        node "function_declarator" (some "declarator") 4 38
          [node "parenthesized_declarator" (some "declarator") 4 14
            [node "pointer_declarator" none 5 13 [name 6 13]],
            node "parameter_list" (some "parameters") 14 38
              [node "parameter_declaration" none 15 25 [type 15 18, name 19 25],
                node "parameter_declaration" none 27 37 [type 27 31, name 32 37]]]],
      node "function_definition" none 40 78
        [type 40 43,
          node "function_declarator" (some "declarator") 44 51
            [name 44 45,
              node "parameter_list" (some "parameters") 45 51
                [node "parameter_declaration" none 46 50 [type 46 50]]],
          node "compound_statement" (some "body") 52 78
            [node "return_statement" none 54 76
              [node "binary_expression" none 61 75
                [node "identifier" (some "left") 61 67 [],
                  mark "+" (some "operator") 68 69,
                  node "identifier" (some "right") 70 75 []]]]]]

end LeakSample

/-- The parameters of a pointer to a function do NOT stay inside: outside of all scopes,
they have the names of the file. -/
theorem parameters_leak :
    ∃ lowered, lowerFile? LeakSample.source LeakSample.file = some lowered ∧
      ¬ParametersInside lowered := by
  have hview : (lowerFile? LeakSample.source LeakSample.file).map (fun lowered =>
      (lowered.nodes[14]?.map Node.referenced, lowered.nodes[3]?.map Node.kind,
        lowered.nodes[2]?.map Node.kind, [2, 3, 4, 5, 6].map lowered.childrenOf)) =
        some (some (some 3), some .parameter, some .variable, [[3, 5], [4], [], [6], []]) := by
    decide +kernel
  obtain ⟨lowered, hlowered, hsame⟩ := Option.map_eq_some_iff.mp hview
  simp only [Prod.mk.injEq, Option.map_eq_some_iff, List.map_cons, List.map_nil, List.cons.injEq,
    and_true] at hsame
  obtain ⟨⟨node, hnode, hreferenced⟩, ⟨value, hvalue, hkind⟩, ⟨owner, howner, hdeclares⟩,
    htwo, hthree, hfour, hfive, hsix⟩ := hsame
  refine ⟨lowered, hlowered, fun hinside => ?_⟩
  have hdeclared : DeclaredIn lowered 2 3 :=
    .child howner (by simp [hdeclares, declarationKinds]) (by simp [htwo])
  have hunder := hinside 14 3 2 node value hnode hreferenced hvalue hkind hdeclared
  have hmem : 14 ∈ [2, 3, 4, 5, 6] :=
    hunder.mem_of_closed (by simp) (by simp [htwo, hthree, hfour, hfive, hsix])
  exact absurd hmem (by decide)

end Lowering
end SourceIndex
