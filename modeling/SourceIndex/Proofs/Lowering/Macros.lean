import SourceIndex.Proofs.Lowering.History

/-!
# Macros of a lowered file

A name means a macro from the definition of the macro on, up to the next definition of
the same name.  The table of macros is filled in the order of the positions, so at every
moment it finds the last definition before the next position (`State.MacrosKnown`).
Since cursors are numbered in the order in which they are entered, "before" in the
finished tree is "before" in time, however deep the definition or the use is nested.
-/

namespace SourceIndex

open CursorTree (root)

namespace CursorTree

/-- Whether a cursor is of this kind and has this spelling. -/
def isNamed (tree : CursorTree) (kind : CursorKind) (name : String) (id : NodeId) : Bool :=
  tree.nodes[id]?.any fun node => node.kind == kind && node.spelling == name

/-- The last cursor before a position that is of this kind and has this spelling. -/
def lastNamed? (tree : CursorTree) (kind : CursorKind) (name : String) (before : Nat) :
    Option NodeId :=
  ((List.range before).filter (tree.isNamed kind name)).getLast?

variable {tree other : CursorTree} {kind : CursorKind} {name : String}

theorem isNamed_eq_card? (id : NodeId) :
    tree.isNamed kind name id =
      (tree.card? id).any fun card => card.kind == kind && card.spelling == name := by
  rw [isNamed, card?, Option.any_map]
  rfl

theorem lastNamed?_succ (before : Nat) :
    tree.lastNamed? kind name (before + 1) =
      if tree.isNamed kind name before then some before
      else tree.lastNamed? kind name before := by
  rw [lastNamed?, List.range_succ, List.filter_append, lastNamed?]
  cases hnamed : tree.isNamed kind name before <;> simp [hnamed]

theorem lastNamed?_congr {before : Nat}
    (hsame : ∀ id : Nat, id < before →
      other.isNamed kind name id = tree.isNamed kind name id) :
    other.lastNamed? kind name before = tree.lastNamed? kind name before := by
  rw [lastNamed?, lastNamed?]
  congr 1
  exact List.filter_congr fun id hid => hsame id (List.mem_range.mp hid)

end CursorTree

namespace Lowering

/-! ## Kinds and spellings -/

/-- Kinds and spellings stay as they are. -/
theorem State.Extends.isNamed {before after : State} (hextends : before.Extends after)
    {id : Nat} (hid : id < before.tree.size) (kind : CursorKind) (name : String) :
    after.tree.isNamed kind name id = before.tree.isNamed kind name id := by
  rw [CursorTree.isNamed_eq_card?, CursorTree.isNamed_eq_card?, hextends.card? id hid]

theorem Catalogued.isNamed_finish {source : Source} {origin : Entry → Label → Prop}
    {state : State} (hcatalogued : Catalogued source origin state.tree state.names)
    (kind : CursorKind) (name : String) (id : NodeId) :
    state.finish.isNamed kind name id = state.tree.isNamed kind name id := by
  rw [CursorTree.isNamed_eq_card?, hcatalogued.card?_finish, Option.any_map,
    CursorTree.isNamed_eq_card?]
  congr 1
  funext card
  -- the end of the file changes definitions only
  rw [finishedCard_eq]

/-! ## The table of macros -/

/-- A name means the macro that was defined last under it. -/
def State.MacrosKnown (state : State) : Prop :=
  ∀ name, state.names.macros.lookup name =
    state.tree.lastNamed? .macroDefinition name state.tree.size

section Table

variable {source : Source} {place : Label} {parent : Nat} {state : State} {entry : Entry}

theorem macros_declare (state : State) (name : String) (id : NodeId) :
    (state.declare name id).names.macros = state.names.macros := by
  unfold State.declare
  split <;> rfl

/-- The definition of a macro is entered in the table, and no other cursor is. -/
theorem Entry.lookup_macros_enter (hallowed : entry.Allowed source state) (name : String) :
    (entry.enter source place parent state).names.macros.lookup name =
      if entry.kind == .macroDefinition && entry.spelling == name then some state.tree.size
      else state.names.macros.lookup name := by
  have hmacros : (entry.enter source place parent state).names.macros =
      (entry.addTo state.tree.size state.names).macros := by
    unfold Entry.enter
    cases entry.declared? with
    | none => rfl
    | some declared => exact macros_declare _ declared _
  rw [hmacros]
  cases entry with
  | macroDefinition defined =>
      have hcomm : (name == defined) = (defined == name) := Bool.beq_comm
      simp only [Entry.addTo, List.lookup_cons, Entry.kind, Entry.spelling, beq_self_eq_true,
        Bool.true_and, hcomm]
      cases defined == name <;> rfl
  | tagDefinition kind tag =>
      have hkind : (kind == CursorKind.macroDefinition) = false := by
        rcases hallowed with rfl | rfl <;> rfl
      simp only [Entry.kind, hkind, Bool.false_and, Entry.addTo]
      split <;> rfl
  | tagDeclaration kind tag =>
      have hkind : (kind == CursorKind.macroDefinition) = false := by
        rcases hallowed with rfl | rfl <;> rfl
      simp only [Entry.kind, hkind, Bool.false_and, Entry.addTo]
      split <;> rfl
  | functionDefinition function =>
      simp only [Entry.addTo]
      split <;> rfl
  | _ => rfl

theorem State.MacrosKnown.enter (hknown : state.MacrosKnown)
    (hallowed : entry.Allowed source state) (hparent : parent < state.tree.size) :
    (entry.enter source place parent state).MacrosKnown := by
  intro name
  have hextends : state.Extends (entry.enter source place parent state) := .enter hparent entry
  have hnew : (entry.enter source place parent state).tree.isNamed .macroDefinition name
      state.tree.size = (entry.kind == .macroDefinition && entry.spelling == name) := by
    rw [CursorTree.isNamed_eq_card?, Entry.tree_enter, CursorTree.card?_push hparent, if_pos rfl]
    rfl
  rw [Entry.lookup_macros_enter hallowed, Entry.size_enter, CursorTree.lastNamed?_succ, hnew,
    hknown name, CursorTree.lastNamed?_congr fun id hid => hextends.isNamed hid _ _]

end Table

theorem keeps_macrosKnown (source : Source) (origin : Entry → Label → Prop) :
    Keeps source origin State.MacrosKnown where
  enter := fun hknown _ hallowed hparent => hknown.enter hallowed hparent
  openScope := fun hknown => hknown
  closeScope := fun hknown => hknown
  level := fun _ _ _ hknown => hknown

theorem macrosKnown_start (file : String) : (State.start file).MacrosKnown :=
  fun _ => rfl

/-! ## Uses of macros -/

/-- The constructs of the kinds of cursors that refer to something; those of other kinds
are not looked up. -/
theorem Entry.of_kind {source : Source} {state : State} {entry : Entry}
    (hallowed : entry.Allowed source state) :
    match entry.kind with
    | .macroExpansion => ∃ name target, entry = .expansion name target
    | .valueRef => ∃ name, entry = .valueRef name
    | .call => ∃ callee name, entry = .call callee name
    | .memberRef => ∃ name, entry = .member name
    | .typeRef => (∃ name, entry = .typeName name) ∨ ∃ keyword name, entry = .tagRef keyword name
    | _ => entry.sought? = none ∧ entry.target? state = none := by
  cases entry with
  | tagDefinition kind name | tagDeclaration kind name =>
      rcases hallowed with rfl | rfl <;> exact ⟨rfl, rfl⟩
  | typeName name => exact .inl ⟨name, rfl⟩
  | tagRef keyword name => exact .inr ⟨keyword, name, rfl⟩
  | expansion name target => exact ⟨name, target, rfl⟩
  | call callee name => exact ⟨callee, name, rfl⟩
  | member name | valueRef name => exact ⟨name, rfl⟩
  | _ => exact ⟨rfl, rfl⟩

section Uses

variable {source : Source} {file : ParseTree} {lowered : CursorTree} {id : NodeId} {node : Node}

/-- The macro that a name means when a cursor is entered is the last one before it in
the finished tree. -/
theorem exists_entered_macros (hlowered : lowerFile? source file = some lowered)
    (hnode : lowered.nodes[id]? = some node) (hroot : id ≠ root) :
    ∃ before entry place, entry.Allowed source before ∧ Arises source file entry place ∧
      node.kind = entry.kind ∧ node.spelling = entry.spelling ∧
      node.location = source.location place ∧
      node.referenced = (entry.target? before).or
        (entry.sought?.bind fun sought => (run source file).names.lookup sought.1 sought.2) ∧
      ∀ name, before.names.macros.lookup name =
        lowered.lastNamed? .macroDefinition name id := by
  obtain ⟨before, entry, place, rfl, hknown, hentered, hsame⟩ := exists_entered hlowered
    (keeps_macrosKnown source (Arises source file)) (macrosKnown_start source.file) hnode hroot
  obtain rfl := finish_of_lowerFile? hlowered
  obtain ⟨hkind, hspelling, hlocation, hreferenced⟩ := hsame
  refine ⟨before, entry, place, hentered.allowed, hentered.origin, hkind, hspelling, hlocation,
    hreferenced, fun name => ?_⟩
  rw [hknown name]
  refine CursorTree.lastNamed?_congr fun id hid => ?_
  rw [(catalogued_run source file).isNamed_finish, hentered.older.isNamed hid]

theorem ne_root_of_kind (hlowered : lowerFile? source file = some lowered)
    (hnode : lowered.nodes[id]? = some node) (hkind : node.kind ≠ .unit) : id ≠ root := by
  rintro rfl
  exact hkind (unit_of_root hlowered hnode).1

theorem referenced_of_macroExpansion (hlowered : lowerFile? source file = some lowered)
    (hnode : lowered.nodes[id]? = some node) (hkind : node.kind = .macroExpansion) :
    ∃ target, lowered.lastNamed? .macroDefinition node.spelling id = some target ∧
      node.referenced = some target := by
  obtain ⟨before, entry, place, hallowed, -, hsame, hspelling, -, hreferenced, hlookup⟩ :=
    exists_entered_macros hlowered hnode (ne_root_of_kind hlowered hnode (by simp [hkind]))
  have hform := Entry.of_kind hallowed
  rw [← hsame, hkind] at hform
  obtain ⟨name, target, rfl⟩ := hform
  refine ⟨target, ?_, hreferenced⟩
  rw [hspelling, ← hlookup]
  exact hallowed.2

theorem lastNamed?_of_valueRef (hlowered : lowerFile? source file = some lowered)
    (hdetailed : source.options.detailedPreprocessing = true)
    (hnode : lowered.nodes[id]? = some node) (hkind : node.kind = .valueRef) :
    lowered.lastNamed? .macroDefinition node.spelling id = none := by
  obtain ⟨before, entry, place, hallowed, -, hsame, hspelling, -, -, hlookup⟩ :=
    exists_entered_macros hlowered hnode (ne_root_of_kind hlowered hnode (by simp [hkind]))
  have hform := Entry.of_kind hallowed
  rw [← hsame, hkind] at hform
  obtain ⟨name, rfl⟩ := hform
  rw [hspelling, ← hlookup]
  exact hallowed hdetailed

theorem lastNamed?_of_call (hlowered : lowerFile? source file = some lowered)
    (hdetailed : source.options.detailedPreprocessing = true)
    (hnode : lowered.nodes[id]? = some node) (hkind : node.kind = .call) :
    ∃ callee place, Arises source file (.call callee node.spelling) place ∧
      node.location = source.location place ∧
      (callee = some "identifier" →
        lowered.lastNamed? .macroDefinition node.spelling id = none) := by
  obtain ⟨before, entry, place, hallowed, harises, hsame, hspelling, hlocation, -, hlookup⟩ :=
    exists_entered_macros hlowered hnode (ne_root_of_kind hlowered hnode (by simp [hkind]))
  have hform := Entry.of_kind hallowed
  rw [← hsame, hkind] at hform
  obtain ⟨callee, name, rfl⟩ := hform
  rw [hspelling]
  refine ⟨callee, place, harises, hlocation, fun hcallee => ?_⟩
  rw [← hlookup]
  exact hallowed hcallee hdetailed

/-- What is no macro at the value of a call is none at the call. -/
theorem lastNamed?_of_called (hlowered : lowerFile? source file = some lowered)
    (hdetailed : source.options.detailedPreprocessing = true) {value : Node}
    (hnode : lowered.nodes[id]? = some node) (hkind : node.kind = .call)
    (hvalue : lowered.nodes[id + 1]? = some value) (hvalueKind : value.kind = .valueRef)
    (hspelling : value.spelling = node.spelling) :
    lowered.lastNamed? .macroDefinition node.spelling id = none := by
  have hnone := lastNamed?_of_valueRef hlowered hdetailed hvalue hvalueKind
  have hcall : lowered.isNamed .macroDefinition node.spelling id = false := by
    simp [CursorTree.isNamed, hnode, hkind]
  rwa [hspelling, CursorTree.lastNamed?_succ, hcall, if_neg Bool.false_ne_true] at hnone

theorem kind_of_detailedPreprocessing_off (hlowered : lowerFile? source file = some lowered)
    (hoff : source.options.detailedPreprocessing = false)
    (hnode : lowered.nodes[id]? = some node) :
    node.kind ∉ [CursorKind.macroDefinition, .macroExpansion, .inclusion] := by
  intro hkind
  have hroot : id ≠ root := ne_root_of_kind hlowered hnode (by rintro hunit; simp [hunit] at hkind)
  obtain ⟨before, entry, place, hallowed, -, hsame, -⟩ :=
    exists_entered_macros hlowered hnode hroot
  rw [hsame] at hkind
  cases entry with
  | macroDefinition | inclusion => cases hoff.symm.trans hallowed
  | expansion => cases hoff.symm.trans hallowed.1
  | tagDefinition | tagDeclaration =>
      rcases hallowed with rfl | rfl <;> simp [Entry.kind] at hkind
  | _ => simp [Entry.kind] at hkind

end Uses

/-- **Macros are recognised exactly.**  If preprocessing is kept, the use of a macro
refers to the last definition of its name before it, and neither a plain name nor the
function of a call is spelled like a macro that was defined before it.  A call whose
function is an identifier is told by the construct it comes from, and also by the value
that comes first below it.  If preprocessing is not kept, no cursor comes from it. -/
theorem lowerFile?_macros {source : Source} {file : ParseTree} {lowered : CursorTree}
    (hlowered : lowerFile? source file = some lowered) :
    (source.options.detailedPreprocessing = true →
      ∀ (id : NodeId) (node : Node), lowered.nodes[id]? = some node →
        (node.kind = .macroExpansion → ∃ target,
          lowered.lastNamed? .macroDefinition node.spelling id = some target ∧
          node.referenced = some target) ∧
        (node.kind = .valueRef →
          lowered.lastNamed? .macroDefinition node.spelling id = none) ∧
        (node.kind = .call →
          ∃ callee place, Arises source file (.call callee node.spelling) place ∧
            node.location = source.location place ∧
            (callee = some "identifier" →
              lowered.lastNamed? .macroDefinition node.spelling id = none)) ∧
        (node.kind = .call → ∀ value : Node, lowered.nodes[id + 1]? = some value →
          value.kind = .valueRef → value.spelling = node.spelling →
          lowered.lastNamed? .macroDefinition node.spelling id = none)) ∧
    (source.options.detailedPreprocessing = false →
      ∀ (id : NodeId) (node : Node), lowered.nodes[id]? = some node →
        node.kind ∉ [CursorKind.macroDefinition, .macroExpansion, .inclusion]) := by
  refine ⟨fun hdetailed id node hnode => ⟨?_, ?_, ?_, ?_⟩, fun hoff id node hnode => ?_⟩
  · exact referenced_of_macroExpansion hlowered hnode
  · exact lastNamed?_of_valueRef hlowered hdetailed hnode
  · exact lastNamed?_of_call hlowered hdetailed hnode
  · intro hkind value
    exact lastNamed?_of_called hlowered hdetailed hnode hkind
  · exact kind_of_detailedPreprocessing_off hlowered hoff hnode

namespace MacroSample

/-- A macro that is used, defined again and used below a call. -/
def source (detailed : Bool) : Source where
  file := "m.c"
  bytes := "#define M 1\nint a = M;\n#define M 2\nint b = h(M);\n".toUTF8
  lineEnds := [11, 22, 34, 48]
  options := { detailedPreprocessing := detailed }
  limit := some 512
  includeTarget := fun _ _ => none

/-- The parse tree of the file, without the types. -/
def file : ParseTree :=
  let node (kind : String) (field : Option String) (start stop : Nat)
      (children : List ParseTree) : ParseTree :=
    .node { kind, named := true, field, start, stop } children
  let defineM (start : Nat) : ParseTree :=
    node "preproc_def" none start (start + 12)
      [node "identifier" (some "name") (start + 8) (start + 9) []]
  let object (start stop : Nat) (value : ParseTree) : ParseTree :=
    node "declaration" none start stop
      [node "init_declarator" (some "declarator") (start + 4) (stop - 1)
        [node "identifier" (some "declarator") (start + 4) (start + 5) [], value]]
  node "translation_unit" none 0 49
    [defineM 0,
      object 12 22 (node "identifier" (some "value") 20 21 []),
      defineM 23,
      object 35 48 (node "call_expression" (some "value") 43 47
        [node "identifier" (some "function") 43 44 [],
          node "argument_list" (some "arguments") 44 47 [node "identifier" none 45 46 []]])]

end MacroSample

theorem lowerFile?_macros_macroSample :
    (∃ lowered, lowerFile? (MacroSample.source true) MacroSample.file = some lowered ∧
      lowered.nodes.toList.map (fun node => (node.kind, node.spelling, node.referenced)) =
        [(.unit, "m.c", none), (.macroDefinition, "M", none), (.variable, "a", none),
          (.macroExpansion, "M", some 1), (.macroDefinition, "M", none), (.variable, "b", none),
          (.call, "h", none), (.valueRef, "h", none), (.macroExpansion, "M", some 4)] ∧
      ∀ (id : NodeId) (node : Node), lowered.nodes[id]? = some node → node.kind = .valueRef →
        lowered.lastNamed? .macroDefinition node.spelling id = none) ∧
    ∃ lowered, lowerFile? (MacroSample.source false) MacroSample.file = some lowered ∧
      lowered.size = 7 ∧
      ∀ (id : NodeId) (node : Node), lowered.nodes[id]? = some node →
        node.kind ∉ [CursorKind.macroDefinition, .macroExpansion, .inclusion] := by
  have hon : (lowerFile? (MacroSample.source true) MacroSample.file).map (fun lowered =>
      lowered.nodes.toList.map fun node => (node.kind, node.spelling, node.referenced)) =
        some [(.unit, "m.c", none), (.macroDefinition, "M", none), (.variable, "a", none),
          (.macroExpansion, "M", some 1), (.macroDefinition, "M", none), (.variable, "b", none),
          (.call, "h", none), (.valueRef, "h", none), (.macroExpansion, "M", some 4)] := by
    decide +kernel
  have hoff : (lowerFile? (MacroSample.source false) MacroSample.file).map CursorTree.size =
      some 7 := by
    decide +kernel
  obtain ⟨kept, hkept, hnodes⟩ := Option.map_eq_some_iff.mp hon
  obtain ⟨dropped, hdropped, hsize⟩ := Option.map_eq_some_iff.mp hoff
  refine ⟨⟨kept, hkept, hnodes, fun id node hnode => ?_⟩, dropped, hdropped, hsize, ?_⟩
  · exact ((lowerFile?_macros hkept).1 rfl id node hnode).2.1
  · exact (lowerFile?_macros hdropped).2 rfl

end Lowering
end SourceIndex
