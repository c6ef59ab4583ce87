import SourceIndex.Proofs.Lowering.Scopes

/-!
# Calls of members

A call looks for its function by name: first in the open scopes, and at the end of the file
among the functions and the names outside of all scopes.  In a call of a member, such as
`dev->read(buf)`, the name is that of the member, and it is looked for in the same way.  The
member itself, which is lowered below the call, is looked for among the fields only.

So a call of a member does NOT keep clear of local variables and parameters: it refers to one
exactly if one of this name can be seen at the call (`lowerFile?_memberCalls`).  A variable can
be seen in its own initial value, so `int read = dev->read(buf);` calls the variable `read`
(`member_call_of_declared`).
-/

namespace SourceIndex

namespace ParseTree

mutual

/-- Whether all nodes of a parse tree pass a test. -/
def all (test : Label → List ParseTree → Bool) : ParseTree → Bool
  | .node label children => test label children && allOf test children

/-- Whether all nodes of several parse trees pass a test. -/
def allOf (test : Label → List ParseTree → Bool) : List ParseTree → Bool
  | [] => true
  | tree :: rest => all test tree && allOf test rest

end

theorem all_of_allOf {test : Label → List ParseTree → Bool} {trees : List ParseTree}
    (hall : allOf test trees = true) {tree : ParseTree} (htree : tree ∈ trees) :
    all test tree = true := by
  induction trees with
  | nil => cases htree
  | cons first rest ih =>
      rw [allOf, Bool.and_eq_true] at hall
      rcases List.mem_cons.mp htree with rfl | hlater
      · exact hall.1
      · exact ih hall.2 hlater

theorem Within.of_all {test : Label → List ParseTree → Bool} {label : Label}
    {children : List ParseTree} {tree : ParseTree}
    (hwithin : (ParseTree.node label children).Within tree) (hall : all test tree = true) :
    test label children = true := by
  induction hwithin with
  | whole =>
      rw [all, Bool.and_eq_true] at hall
      exact hall.1
  | inside hchild _ ih =>
      rw [all, Bool.and_eq_true] at hall
      exact ih (all_of_allOf hall.2 hchild)

end ParseTree

namespace Lowering

/-! ## Local variables and parameters -/

/-- A variable or parameter that was declared in a scope, so that it is not among the names
outside of all scopes (`State.local_enter_iff`). -/
def State.Local (state : State) (id : NodeId) : Prop :=
  OfKind state.tree valueKinds id ∧ ∀ name, (name, id) ∉ state.names.globals.toList

section Local

variable {source : Source} {origin : Entry → Label → Prop} {place : Label} {parent : Nat}
  {state : State} {entry : Entry}

/-- Outside of all scopes, a new cursor adds the name it declares to those of the file. -/
theorem Entry.mem_globals_enter {value : String × NodeId} :
    value ∈ (entry.enter source place parent state).names.globals.toList ↔
      (state.scopes = [] ∧ entry.declared? = some value.1 ∧ value.2 = state.tree.size) ∨
        value ∈ state.names.globals.toList := by
  have hadded := Entry.globals_addTo state.tree.size state.names entry
  unfold Entry.enter
  cases hdeclared : entry.declared? with
  | none => simp [hadded]
  | some name =>
      cases hscopes : state.scopes with
      | nil =>
          simp only [State.declare, hadded, Array.toList_push, List.mem_append,
            List.mem_singleton, Prod.ext_iff, Option.some.injEq, true_and]
          rw [or_comm, eq_comm (a := value.1)]
      | cons scope outer => simp [State.declare, hadded]

/-- In a scope, it adds the name to the innermost one. -/
theorem Entry.mem_scopes_enter {value : String × NodeId} :
    value ∈ (entry.enter source place parent state).scopes.flatten ↔
      (state.scopes ≠ [] ∧ entry.declared? = some value.1 ∧ value.2 = state.tree.size) ∨
        value ∈ state.scopes.flatten := by
  unfold Entry.enter
  cases hdeclared : entry.declared? with
  | none => simp
  | some name =>
      cases hscopes : state.scopes with
      | nil => simp [State.declare]
      | cons scope outer =>
          simp only [State.declare, List.flatten_cons, List.cons_append, List.mem_cons,
            Prod.ext_iff, Option.some.injEq, ne_eq, reduceCtorEq, not_false_eq_true, true_and]
          rw [eq_comm (a := value.1)]

theorem OfKind.enter {kinds : List CursorKind} {id : NodeId} (hkind : OfKind state.tree kinds id)
    (hparent : parent < state.tree.size) :
    OfKind (entry.enter source place parent state).tree kinds id := by
  obtain ⟨card, hcard, hmem⟩ := hkind
  have hid := CursorTree.lt_size_of_card? hcard
  exact ⟨card, ((State.Extends.enter hparent entry).card? id hid).trans hcard, hmem⟩

/-- A new variable or parameter is local exactly if a scope is open. -/
theorem State.local_enter_iff (htidy : state.Tidy) (hparent : parent < state.tree.size)
    {name : String} (hdeclared : entry.declared? = some name) :
    (entry.enter source place parent state).Local state.tree.size ↔ state.scopes ≠ [] := by
  constructor
  · rintro ⟨-, hglobal⟩ hscopes
    exact hglobal name (Entry.mem_globals_enter.mpr (.inl ⟨hscopes, hdeclared, rfl⟩))
  · intro hscopes
    refine ⟨⟨(entry.node source state place).card, ?_, (Entry.kind_of_declared? hdeclared).1⟩, ?_⟩
    · rw [Entry.tree_enter, CursorTree.card?_push hparent, if_pos rfl]
    · intro other hmem
      rcases Entry.mem_globals_enter.mp hmem with ⟨hnone, -⟩ | hold
      · exact hscopes hnone
      · exact absurd (htidy.values.lt_size (List.mem_append_left _ hold)) (Nat.lt_irrefl _)

/-- Local variables and parameters stay local. -/
theorem State.Local.enter {id : NodeId} (hlocal : state.Local id)
    (hparent : parent < state.tree.size) :
    (entry.enter source place parent state).Local id := by
  refine ⟨hlocal.1.enter hparent, fun name hmem => ?_⟩
  rcases Entry.mem_globals_enter.mp hmem with ⟨-, -, hnew⟩ | hold
  · exact absurd hlocal.1.lt_size (Nat.not_lt_of_le (Nat.le_of_eq hnew.symm))
  · exact hlocal.2 name hold

/-- What a scope has is local, and so is what was referred to at once, but for macros. -/
structure State.Parted (state : State) : Prop where
  tidy : state.Tidy
  bound : ∀ value ∈ state.scopes.flatten, state.Local value.2
  answered : ∀ {id target : NodeId}, state.tree.referenced? id = some target →
    state.Local target ∨ OfKind state.tree [.macroDefinition] target

theorem State.Parted.enter (hparted : state.Parted) (horigin : origin entry place)
    (hallowed : entry.Allowed source state) (hparent : parent < state.tree.size) :
    (entry.enter source place parent state).Parted where
  tidy := (keeps_tidy source origin).enter hparted.tidy horigin hallowed hparent
  bound := by
    intro value hvalue
    rcases Entry.mem_scopes_enter.mp hvalue with ⟨hscopes, hdeclared, hnew⟩ | hold
    · rw [hnew]
      exact (State.local_enter_iff hparted.tidy hparent hdeclared).mpr hscopes
    · exact (hparted.bound value hold).enter hparent
  answered := by
    intro id target htarget
    rw [Entry.tree_enter, CursorTree.referenced?_push hparent] at htarget
    split at htarget
    · rcases Entry.of_target? hallowed htarget with ⟨name, hmem⟩ | ⟨name, hlookup⟩
      · exact .inl ((hparted.bound _ hmem).enter hparent)
      · exact .inr ((hparted.tidy.macros.ofKind hlookup).enter hparent)
    · exact (hparted.answered htarget).imp (fun hlocal => hlocal.enter hparent)
        fun hmacro => hmacro.enter hparent

theorem keeps_parted (source : Source) (origin : Entry → Label → Prop) :
    Keeps source origin State.Parted where
  enter := fun hparted horigin hallowed hparent => hparted.enter horigin hallowed hparent
  openScope := fun hparted =>
    ⟨(keeps_tidy source origin).openScope hparted.tidy, hparted.bound, hparted.answered⟩
  closeScope := by
    intro state hparted
    refine ⟨(keeps_tidy source origin).closeScope hparted.tidy, fun value hvalue => ?_,
      hparted.answered⟩
    obtain ⟨scope, hscope, hmem⟩ := List.mem_flatten.mp hvalue
    exact hparted.bound value
      (List.mem_flatten.mpr ⟨scope, List.mem_of_mem_tail hscope, hmem⟩)
  level := fun depth deepest tooDeep hparted =>
    ⟨(keeps_tidy source origin).level depth deepest tooDeep hparted.tidy, hparted.bound,
      hparted.answered⟩

theorem parted_start (file : String) : (State.start file).Parted where
  tidy := tidy_start file
  bound := fun _ hvalue => nomatch hvalue
  answered := fun htarget => absurd htarget (not_referenced_start file _ _)

theorem parted_run (source : Source) (file : ParseTree) : (run source file).Parted :=
  (builds_run source file).keeps (keeps_parted source _) Nat.zero_lt_one
    (parted_start source.file)

end Local

/-! ## Calls -/

section Calls

variable {source : Source} {origin : Entry → Label → Prop} {state : State}

/-- No local variable or parameter is found when calls are looked up at the end of the file. -/
theorem Surveyed.not_local_of_lookup_call (hsurveyed : Surveyed source origin state)
    {name : String} {target : NodeId} (hlookup : state.names.lookup .call name = some target) :
    ¬state.Local target := by
  rintro ⟨hvalue, hglobal⟩
  rcases Option.or_eq_some_iff.mp hlookup with hfunction | ⟨-, hfind⟩
  · exact hsurveyed.catalogued.not_value_of_family .functions hfunction hvalue
  · exact hglobal name (FirstTable.mem_of_find? hfind)

theorem sought?_call {callee : Option String} {name : String} (hname : name ≠ "") :
    (Entry.call callee name).sought? = some (.call, name) :=
  if_neg (by simpa using hname)

/-- What a call refers to is a function, a variable or a parameter, and never a macro. -/
theorem not_macro_of_call {source : Source} {file : ParseTree} {lowered : CursorTree}
    (hlowered : lowerFile? source file = some lowered) {id target : NodeId} {node : Node}
    (hnode : lowered.nodes[id]? = some node) (hname : node.spelling ≠ "")
    (hkind : node.kind = .call) (hreferenced : node.referenced = some target) :
    ¬OfKind (run source file).tree [.macroDefinition] target := by
  rintro ⟨defined, hdefined, hdefines⟩
  obtain ⟨value, hvalue, hvalueKind, -⟩ :=
    (referenced_of_call hlowered hnode hname hkind).1 target hreferenced
  rw [← finish_of_lowerFile? hlowered] at hvalue
  obtain ⟨card, hcard, hcalled⟩ := (catalogued_run source file).ofKind_of_finish hvalue hvalueKind
  obtain rfl : defined = card := Option.some.inj (hdefined.symm.trans hcard)
  rw [List.mem_singleton.mp hdefines] at hcalled
  simp at hcalled

/-- **A call of a member refers to a local variable or parameter exactly if one of its name can
be seen.**  The call was entered in the state `before`; if no open scope has a meaning for the
name of the member then, the call refers to nothing that was declared in a scope, and otherwise
to this meaning, which was. -/
theorem lowerFile?_memberCalls {source : Source} {file : ParseTree} {lowered : CursorTree}
    (hlowered : lowerFile? source file = some lowered) {before : State} {name : String}
    {place : Label}
    (hcall : Entered source (Arises source file) before (.call (some "field_expression") name)
      place (run source file)) :
    ∃ node, lowered.nodes[before.tree.size]? = some node ∧ node.kind = .call ∧
      node.spelling = name ∧ node.location = source.location place ∧
      (before.local? name = none →
        ∀ target, node.referenced = some target → ¬(run source file).Local target) ∧
      ∀ target, before.local? name = some target → name ≠ "" →
        node.referenced = some target ∧ (run source file).Local target := by
  obtain ⟨node, hnode, hkind, hspelling, hlocation, hreferenced⟩ := hcall.exists_node hlowered
  refine ⟨node, hnode, hkind, hspelling, hlocation, ?_, ?_⟩
  · intro hnone target htarget
    rw [htarget] at hreferenced
    by_cases hname : name = ""
    · subst hname
      cases hreferenced
    · rw [Entry.target?_of_sought? (sought?_call hname), sought?_call hname] at hreferenced
      have hanswer : before.answer? .call name = none := hnone
      rw [hanswer, Option.none_or] at hreferenced
      exact (surveyed_run source file).not_local_of_lookup_call hreferenced.symm
  · intro target hlocal hname
    have htarget : (Entry.call (some "field_expression") name).target? before = some target := by
      rw [Entry.target?_of_sought? (sought?_call hname)]
      exact hlocal
    rw [htarget, Option.some_or] at hreferenced
    refine ⟨hreferenced, ?_⟩
    have hatOnce := hcall.referenced?.trans htarget
    refine ((parted_run source file).answered hatOnce).resolve_right ?_
    exact not_macro_of_call hlowered hnode (hspelling ▸ hname) hkind hreferenced

end Calls

/-! ## A variable called by its initial value -/

namespace MemberSample

/-- A function with a variable that has the name of the member in its initial value. -/
def source : Source where
  file := "a.c"
  bytes := "int f(struct dev *dev, char *buf) { int read = dev->read(buf); return read; }\n".toUTF8
  lineEnds := [77]
  options := {}
  limit := some 512
  includeTarget := fun _ _ => none

/-- The parse tree of the file. -/
def file : ParseTree :=
  let node (kind : String) (field : Option String) (start stop : Nat)
      (children : List ParseTree) : ParseTree :=
    .node { kind, named := true, field, start, stop } children
  let mark (kind : String) (field : Option String) (start stop : Nat) : ParseTree :=
    .node { kind, named := false, field, start, stop } []
  let type (start stop : Nat) : ParseTree := node "primitive_type" (some "type") start stop []
  let name (start stop : Nat) : ParseTree := node "identifier" (some "declarator") start stop []
  node "translation_unit" none 0 78
    [node "function_definition" none 0 77
      [type 0 3,
        node "function_declarator" (some "declarator") 4 33
          [name 4 5,
            node "parameter_list" (some "parameters") 5 33
              [node "parameter_declaration" none 6 21
                [node "struct_specifier" (some "type") 6 16
                  [node "type_identifier" (some "name") 13 16 []],
                  node "pointer_declarator" (some "declarator") 17 21 [name 18 21]],
                node "parameter_declaration" none 23 32
                  [type 23 27,
                    node "pointer_declarator" (some "declarator") 28 32 [name 29 32]]]],
        node "compound_statement" (some "body") 34 77
          [node "declaration" none 36 62
            [type 36 39,
              node "init_declarator" (some "declarator") 40 61
                [name 40 44,
                  node "call_expression" (some "value") 47 61
                    [node "field_expression" (some "function") 47 56
                      [node "identifier" (some "argument") 47 50 [],
                        mark "->" (some "operator") 50 52,
                        node "field_identifier" (some "field") 52 56 []],
                      node "argument_list" (some "arguments") 56 61
                        [node "identifier" none 57 60 []]]]],
            node "return_statement" none 63 75 [node "identifier" none 70 74 []]]]]

/-- What a call calls is written as a member, wherever there is a call. -/
theorem callee_of_arises {callee : Option String} {name : String} {place : Label}
    (harises : Arises source file (.call callee name) place) :
    callee = some "field_expression" := by
  obtain ⟨label, children, hwithin, hmade⟩ := harises
  have hall : file.all (fun label children => Form.ofKind label.kind != .call ||
      ((field? (partsOf source label children) "function").map fun callee =>
        callee.label.kind) == some "field_expression") = true := by
    decide +kernel
  have htest := hwithin.of_all hall
  cases hmade with
  | call hform => simpa [hform] using htest

/-- The call of the member was entered while its name meant the variable. -/
theorem exists_entered_call :
    ∃ lowered before place, lowerFile? source file = some lowered ∧
      Entered source (Arises source file) before (.call (some "field_expression") "read") place
        (run source file) ∧
      before.tree.size = 10 ∧ before.local? "read" = some 9 := by
  have hview : (lowerFile? source file).map (fun lowered =>
      lowered.nodes[10]?.map fun node => (node.kind, node.spelling)) =
        some (some (.call, "read")) := by
    decide +kernel
  obtain ⟨lowered, hlowered, hsame⟩ := Option.map_eq_some_iff.mp hview
  obtain ⟨node, hnode, hpair⟩ := Option.map_eq_some_iff.mp hsame
  obtain ⟨hkind, hspelling⟩ := Prod.mk.inj hpair
  obtain ⟨before, entry, place, hsize, -, hentered, hentry, hname, -⟩ :=
    exists_entered hlowered (keeps_parted source _) (parted_start source.file) hnode (by decide)
  have hform := Entry.of_kind hentered.allowed
  rw [← hentry, hkind] at hform
  obtain ⟨callee, name, rfl⟩ := hform
  obtain rfl : name = "read" := hname.symm.trans hspelling
  obtain rfl := callee_of_arises hentered.origin
  refine ⟨lowered, before, place, hlowered, hentered, hsize, ?_⟩
  have htarget : (run source file).tree.referenced? 10 = some 9 := by decide +kernel
  rw [← hsize, hentered.referenced?] at htarget
  exact htarget

end MemberSample

theorem lowerFile?_memberCalls_memberSample :
    ∃ lowered node, lowerFile? MemberSample.source MemberSample.file = some lowered ∧
      lowered.nodes[10]? = some node ∧ node.kind = .call ∧ node.referenced = some 9 ∧
      (run MemberSample.source MemberSample.file).Local 9 := by
  obtain ⟨lowered, before, place, hlowered, hentered, hsize, hlocal⟩ :=
    MemberSample.exists_entered_call
  obtain ⟨node, hnode, hkind, -, -, -, hseen⟩ := lowerFile?_memberCalls hlowered hentered
  obtain ⟨hreferenced, hbound⟩ := hseen 9 hlocal (by decide)
  rw [hsize] at hnode
  exact ⟨lowered, node, hlowered, hnode, hkind, hreferenced, hbound⟩

/-- Calls of members refer to nothing that was declared in a scope. -/
def MemberCallsClear (source : Source) (file : ParseTree) (lowered : CursorTree) : Prop :=
  ∀ before name place target,
    Entered source (Arises source file) before (.call (some "field_expression") name) place
      (run source file) →
    lowered.referenced? before.tree.size = some target → ¬(run source file).Local target

/-- This is NOT so: `int read = dev->read(buf);` refers to the variable that it declares. -/
theorem member_call_of_declared :
    ∃ lowered, lowerFile? MemberSample.source MemberSample.file = some lowered ∧
      lowered.childrenOf 9 = [10] ∧ lowered.referenced? 10 = some 9 ∧
      ¬MemberCallsClear MemberSample.source MemberSample.file lowered := by
  have hview : (lowerFile? MemberSample.source MemberSample.file).map (fun lowered =>
      (lowered.childrenOf 9, lowered.referenced? 10)) = some ([10], some 9) := by
    decide +kernel
  obtain ⟨lowered, before, place, hlowered, hentered, hsize, -⟩ := MemberSample.exists_entered_call
  rw [hlowered, Option.map_some, Option.some.injEq, Prod.mk.injEq] at hview
  obtain ⟨hchildren, hreferenced⟩ := hview
  refine ⟨lowered, hlowered, hchildren, hreferenced, fun hclear => ?_⟩
  have hkind : ((run MemberSample.source MemberSample.file).tree.card? 9).map Card.kind =
      some .variable := by
    decide +kernel
  have hglobals : (run MemberSample.source MemberSample.file).names.globals.toList = [] := by
    decide +kernel
  obtain ⟨card, hcard, hvariable⟩ := Option.map_eq_some_iff.mp hkind
  refine hclear before "read" place 9 hentered (hsize ▸ hreferenced) ⟨⟨card, hcard, ?_⟩, ?_⟩
  · simp [hvariable, valueKinds]
  · simp [hglobals]

end Lowering
end SourceIndex
