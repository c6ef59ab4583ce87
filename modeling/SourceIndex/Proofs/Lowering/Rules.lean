import SourceIndex.Proofs.Lowering.Origin

/-!
# Rules keep to derivations

Each rule of `SourceIndex.Lowering.Rules` builds below the cursor it is given
(`Below`), provided that the parts it is made of do and that the cursors of its node
are of the origin (`MakesOnly`).  A rule that adds a cursor first enters it, which is
one equation per sort of cursor (`enter_…`), and then goes on below it, in a scope or
not (`Derives.entered`, `Derives.opened`, `Derives.defined`).  The recursion over the
parse tree is one induction, whose step is the statement about rules
(`lowerNode_below`, `lowerDeclarator_below`).
-/

namespace SourceIndex
namespace Lowering

/-- A step builds below a cursor. -/
def Below (source : Source) (origin : Origin) (parent : NodeId) (step : Pass PUnit) : Prop :=
  ∀ state, Derives source origin parent state (step state).2

section Steps

variable {source : Source} {origin : Origin} {parent : NodeId} {step first next : Pass PUnit}

theorem Below.nothing : Below source origin parent (pure ()) :=
  fun state => .nothing parent state

theorem Below.andThen (hfirst : Below source origin parent first)
    (hnext : Below source origin parent next) :
    Below source origin parent (do first; next) := by
  intro state
  exact .andThen (hfirst state) (hnext _)

theorem Below.level (hstep : Below source origin parent step) :
    Below source origin parent (nested source.limit step) := by
  intro state
  -- `nested` reads the state before it decides, so it opens at a state only
  have hunfold : nested source.limit step state =
      if state.isFull source.limit = true then (⟨⟩, state.refuse)
      else (⟨⟩, (step state.deeper).2.shallower) := by
    change (ite (state.isFull source.limit = true) _ _ : Pass PUnit) state = _
    split <;> rfl
  rw [hunfold]
  cases hfull : state.isFull source.limit with
  | true => exact .refusal hfull
  | false => exact .level hfull (hstep state.deeper)

section Entered

variable {state : State} {entry : Entry} {place : Label}

/-- Going on below a cursor that has just been entered. -/
theorem Derives.entered (horigin : origin.whole entry place)
    (hallowed : entry.Allowed source state) (hplain : entry.opensScope = false)
    (hstep : Below source origin state.tree.size step) :
    Derives source origin parent state (step (entry.enter source place parent state)).2 :=
  .cursor horigin hallowed hplain (hstep _)

/-- Going on in the scope of a cursor that has just been entered. -/
theorem Derives.opened (horigin : origin.whole entry place)
    (hallowed : entry.Allowed source state) (hopens : entry.opensScope = true)
    (hstep : Below source origin state.tree.size step) :
    Derives source origin parent state
      (inScope step (entry.enter source place parent state)).2 :=
  .scope horigin hallowed hopens (.nothing _ _) (.inr rfl) (hstep _)

/-- Going on below a function that has just been entered: its type first, and the rest in
its scope. -/
theorem Derives.defined {name : String}
    (horigin : origin.whole (.functionDefinition name) place)
    (hfirst : Below source origin.typed state.tree.size first)
    (hstep : Below source origin state.tree.size step) :
    Derives source origin parent state
      ((do first; inScope step)
        ((Entry.functionDefinition name).enter source place parent state)).2 :=
  .scope horigin trivial rfl (hfirst _) (.inl ⟨name, rfl⟩) (hstep _)

end Entered

end Steps

/-! ## Entering a cursor -/

section Entering

variable {source : Source} {parent : Nat} {state : State}

theorem Pass.bind_apply {α β : Type} (step : Pass α) (next : α → Pass β) (state : State) :
    (step >>= next) state = next (step state).1 (step state).2 := rfl

theorem push_apply (kind : CursorKind) (spelling : String) (place : Label) :
    push source parent kind spelling place state =
      (state.tree.size, { state with
        tree := state.tree.push parent { kind, spelling, location := source.location place } }) :=
  rfl

theorem pushDefined_apply (kind : CursorKind) (spelling : String) (place : Label) :
    pushDefined source parent kind spelling place state =
      (state.tree.size, { state with
        tree := state.tree.push parent
          { kind, spelling, location := source.location place,
            definition := some state.tree.size } }) := by
  change (_, { state with tree := (state.tree.push parent _).update state.tree.size _ }) = _
  rw [CursorTree.update_push fun _ _ => rfl]

/-- A reference is answered at once or waits. -/
theorem refer_apply (id : NodeId) (space : Space) (name : String) :
    refer id space name state =
      match state.answer? space name with
      | some target => (⟨⟩, { state with tree := state.tree.setReferenced id target })
      | none => (⟨⟩, { state with pending := { id, space, name } :: state.pending }) := by
  change (match state.answer? space name with
    | some target => changeTree fun tree => tree.setReferenced id target
    | none => modify fun state => { state with pending := { id, space, name } :: state.pending }
      : Pass PUnit) state = _
  cases state.answer? space name with
  | none => rfl
  | some target => rfl

/-- A reference of a cursor that has just been pushed becomes part of it. -/
theorem refer_pushed (space : Space) (name : String) (kind : CursorKind) (spelling : String)
    (location : Location) :
    refer state.tree.size space name
        { state with tree := state.tree.push parent { kind, spelling, location } } =
      (⟨⟩, { state with
        tree := state.tree.push parent
          { kind, spelling, location, referenced := state.answer? space name }
        pending := match state.answer? space name with
          | some _ => state.pending
          | none => { id := state.tree.size, space, name } :: state.pending }) := by
  rw [refer_apply]
  change (match state.answer? space name with | some _ => _ | none => _) = _
  cases state.answer? space name with
  | none => rfl
  | some target =>
      -- the link is set after the push, which is the same as before it
      change (_, { state with tree := (state.tree.push parent _).update state.tree.size _ }) = _
      rw [CursorTree.update_push fun _ _ => rfl]

/-- Names of the file are entered for a cursor only if it has a name. -/
theorem changeNames_named (name : String) (change : FileNames → FileNames) (next : Pass PUnit) :
    (do
      if name != "" then
        changeNames change
      next : Pass PUnit) state =
    next { state with names := if name == "" then state.names else change state.names } := by
  by_cases hname : name = ""
  · subst hname
    rfl
  · have hbeq : (name == "") = false := by simpa using hname
    simp only [bne, hbeq]
    rfl

/-- A cursor refers to something only if it has a name. -/
theorem refer_named (space : Space) (name : String) (kind : CursorKind) (location : Location)
    (next : Pass PUnit) :
    (do
      if name != "" then
        refer state.tree.size space name
      next : Pass PUnit)
        { state with tree := state.tree.push parent { kind, spelling := name, location } } =
    next { state with
      tree := state.tree.push parent
        { kind, spelling := name, location,
          referenced := (if name == "" then none else some (space, name)).bind
            fun sought => state.answer? sought.1 sought.2 }
      pending :=
        match if name == "" then none else some (space, name) with
        | none => state.pending
        | some (space, name) =>
          match state.answer? space name with
          | some _ => state.pending
          | none => { id := state.tree.size, space, name } :: state.pending } := by
  by_cases hname : name = ""
  · subst hname
    rfl
  · have hbeq : (name == "") = false := by simpa using hname
    simp only [bne, hbeq, Bool.not_false, if_true, Pass.bind_apply, refer_pushed]
    rfl

theorem enter_functionDefinition (name : String) (place : Label) (next : NodeId → Pass PUnit) :
    (do
      let id ← pushDefined source parent .function name place
      if name != "" then
        changeNames fun names => { names with functionDefs := names.functionDefs.push (name, id) }
      next id : Pass PUnit) state =
    next state.tree.size ((Entry.functionDefinition name).enter source place parent state) := by
  rw [Pass.bind_apply, pushDefined_apply, changeNames_named]
  rfl

theorem enter_tagDefinition (kind : CursorKind) (name : String) (place : Label)
    (next : NodeId → Pass PUnit) :
    (do
      let id ← pushDefined source parent kind name place
      if name != "" then
        changeNames fun names => { names with tagDefs := names.tagDefs.push (name, id) }
      next id : Pass PUnit) state =
    next state.tree.size ((Entry.tagDefinition kind name).enter source place parent state) := by
  rw [Pass.bind_apply, pushDefined_apply, changeNames_named]
  rfl

theorem enter_tagDeclaration (kind : CursorKind) (name : String) (place : Label) :
    ((do
      let id ← push source parent kind name place
      if name != "" then
        changeNames fun names => { names with tagDecls := names.tagDecls.push (name, id) }
        : Pass PUnit) state).2 =
    (Entry.tagDeclaration kind name).enter source place parent state := by
  rw [Pass.bind_apply, push_apply]
  by_cases hname : name = ""
  · subst hname
    rfl
  · have hbeq : (name == "") = false := by simpa using hname
    simp only [bne, hbeq, Entry.enter, Entry.declared?, Entry.addTo]
    rfl

theorem enter_prototype (name : String) (place : Label) (next : NodeId → Pass PUnit) :
    (do
      let id ← push source parent .function name place
      changeNames fun names => { names with functionDecls := names.functionDecls.push (name, id) }
      next id : Pass PUnit) state =
    next state.tree.size ((Entry.prototype name).enter source place parent state) :=
  rfl

theorem enter_variable (name : String) (place : Label) (next : NodeId → Pass PUnit) :
    (do
      let id ← push source parent .variable name place
      declareValue name id
      next id : Pass PUnit) state =
    next state.tree.size ((Entry.variable name).enter source place parent state) :=
  rfl

theorem enter_parameter (name : String) (place : Label) (next : NodeId → Pass PUnit) :
    (do
      let id ← push source parent .parameter name place
      if name != "" then
        declareValue name id
      next id : Pass PUnit) state =
    next state.tree.size ((Entry.parameter name).enter source place parent state) := by
  rw [Pass.bind_apply, push_apply]
  by_cases hname : name = ""
  · subst hname
    rfl
  · have hbeq : (name == "") = false := by simpa using hname
    simp only [bne, hbeq, Entry.enter, Entry.declared?, Entry.addTo]
    rfl

theorem enter_field (name : String) (place : Label) (next : NodeId → Pass PUnit) :
    (do
      let id ← pushDefined source parent .field name place
      changeNames fun names => { names with fields := names.fields.push (name, id) }
      next id : Pass PUnit) state =
    next state.tree.size ((Entry.field name).enter source place parent state) := by
  rw [Pass.bind_apply, pushDefined_apply]
  rfl

theorem enter_typedef (name : String) (place : Label) (next : NodeId → Pass PUnit) :
    (do
      let id ← pushDefined source parent .typedef name place
      changeNames fun names => { names with typedefs := names.typedefs.push (name, id) }
      next id : Pass PUnit) state =
    next state.tree.size ((Entry.typedef name).enter source place parent state) := by
  rw [Pass.bind_apply, pushDefined_apply]
  rfl

theorem enter_enumerator (name : String) (place : Label) (next : NodeId → Pass PUnit) :
    (do
      let id ← pushDefined source parent .enumerator name place
      changeNames fun names => { names with enumerators := names.enumerators.push (name, id) }
      next id : Pass PUnit) state =
    next state.tree.size ((Entry.enumerator name).enter source place parent state) := by
  rw [Pass.bind_apply, pushDefined_apply]
  rfl

theorem enter_macroDefinition (name : String) (place : Label) :
    ((do
      let id ← pushDefined source parent .macroDefinition name place
      changeNames fun names => { names with macros := (name, id) :: names.macros }
        : Pass PUnit) state).2 =
    (Entry.macroDefinition name).enter source place parent state := by
  rw [Pass.bind_apply, pushDefined_apply]
  rfl

theorem enter_inclusion (spelling : String) (angled : Bool) (place : Label) :
    ((do
      let id ← push source parent .inclusion spelling place
      match source.includeTarget spelling angled with
      | none => pure ()
      | some file => changeTree fun tree => tree.setIncludedFile id file : Pass PUnit) state).2 =
    (Entry.inclusion spelling angled).enter source place parent state := by
  rw [Pass.bind_apply, push_apply, Entry.enter, Entry.node, Entry.includedFile?]
  cases source.includeTarget spelling angled with
  | none => rfl
  | some file =>
      change { state with tree := (state.tree.push parent _).update state.tree.size _ } = _
      rw [CursorTree.update_push fun _ _ => rfl]
      rfl

theorem enter_expansion (name : String) (place : Label) (target : NodeId) :
    lowerExpansion source name place target parent state =
      (state.tree.size, (Entry.expansion name target).enter source place parent state) := by
  change (_, { state with tree := (state.tree.push parent _).update state.tree.size _ }) = _
  rw [CursorTree.update_push fun _ _ => rfl]
  rfl

theorem enter_tagRef (keyword name : String) (place : Label) :
    ((do
      let id ← push source parent .typeRef (keyword ++ " " ++ name) place
      refer id .tag name : Pass PUnit) state).2 =
    (Entry.tagRef keyword name).enter source place parent state := by
  rw [Pass.bind_apply, push_apply, refer_pushed]
  rfl

theorem enter_typeName (name : String) (place : Label) :
    ((do
      let id ← push source parent .typeRef name place
      refer id .type name : Pass PUnit) state).2 =
    (Entry.typeName name).enter source place parent state := by
  rw [Pass.bind_apply, push_apply, refer_pushed]
  rfl

theorem enter_valueRef (name : String) (place : Label) :
    ((do
      let id ← push source parent .valueRef name place
      refer id .value name : Pass PUnit) state).2 =
    (Entry.valueRef name).enter source place parent state := by
  rw [Pass.bind_apply, push_apply, refer_pushed]
  rfl

theorem enter_call (callee : Option String) (name : String) (place : Label)
    (next : NodeId → Pass PUnit) :
    (do
      let id ← push source parent .call name place
      if name != "" then
        refer id .call name
      next id : Pass PUnit) state =
    next state.tree.size ((Entry.call callee name).enter source place parent state) := by
  rw [Pass.bind_apply, push_apply, refer_named]
  rfl

theorem enter_member (name : String) (place : Label) (next : NodeId → Pass PUnit) :
    (do
      let id ← push source parent .memberRef name place
      if name != "" then
        refer id .field name
      next id : Pass PUnit) state =
    next state.tree.size ((Entry.member name).enter source place parent state) := by
  rw [Pass.bind_apply, push_apply, refer_named]
  rfl

theorem enter_other (kind : String) (place : Label) (next : NodeId → Pass PUnit) :
    (do
      let id ← push source parent (.unexposed kind) "" place
      next id : Pass PUnit) state =
    next state.tree.size ((Entry.other kind).enter source place parent state) :=
  rfl

end Entering

/-! ## Parts -/

/-- However a part is lowered, it builds below the cursor it is given. -/
structure Part.Sound (source : Source) (origin : Origin) (part : Part) : Prop where
  lower : ∀ parent, Below source origin parent (part.lower parent)
  lowerDeclarator : ∀ parent, Below source origin parent (part.lowerDeclarator parent)
  lowerContents : ∀ parent, Below source origin parent (part.lowerContents parent)

section Rules

variable {source : Source} {origin : Origin} {label : Label} {parts : List Part}
  {parent : NodeId}

theorem mem_of_field? {field : String} {part : Part} (hpart : field? parts field = some part) :
    part ∈ parts :=
  List.mem_of_find?_eq_some hpart

theorem lowerAll_below (hparts : ∀ part ∈ parts, part.Sound source origin) :
    Below source origin parent (lowerAll parent parts) := by
  induction parts with
  | nil => exact .nothing
  | cons part rest ih =>
      have hpart := hparts part (by simp)
      exact (hpart.lower parent).andThen (ih fun later hlater => hparts later (by simp [hlater]))

theorem lowerNamed_below (hparts : ∀ part ∈ parts, part.Sound source origin) :
    Below source origin parent (lowerNamed parts parent) :=
  lowerAll_below fun part hpart => hparts part (List.mem_filter.mp hpart).1

/-- What is done with the part that fills a field, if there is one. -/
theorem onField_below {rule : Part → Pass PUnit} (hparts : ∀ part ∈ parts, part.Sound source origin)
    (field : String)
    (hrule : ∀ part, part.Sound source origin → Below source origin parent (rule part)) :
    Below source origin parent
      (match field? parts field with
      | none => pure ()
      | some part => rule part) := by
  cases hfield : field? parts field with
  | none => exact .nothing
  | some part => exact hrule part (hparts part (mem_of_field? hfield))

theorem lowerField_below (hparts : ∀ part ∈ parts, part.Sound source origin) (field : String) :
    Below source origin parent (lowerField parts field parent) :=
  onField_below hparts field fun _ hpart => hpart.lower parent

theorem lowerDeclaratorField_below (hparts : ∀ part ∈ parts, part.Sound source origin) :
    Below source origin parent (lowerDeclaratorField parts parent) :=
  onField_below hparts "declarator" fun _ hpart => hpart.lowerDeclarator parent

theorem lowerArguments_below (hparts : ∀ part ∈ parts, part.Sound source origin) :
    Below source origin parent (lowerArguments parts parent) :=
  onField_below hparts "arguments" fun _ hpart => hpart.lowerContents parent

theorem lowerDeclaratorParts_below (hparts : ∀ part ∈ parts, part.Sound source origin) :
    Below source origin parent (lowerDeclaratorParts parent parts) := by
  induction parts with
  | nil => exact .nothing
  | cons part rest ih =>
      have hpart := hparts part (by simp)
      have hrest := ih fun later hlater => hparts later (by simp [hlater])
      unfold lowerDeclaratorParts
      split
      · exact (hpart.lowerDeclarator parent).andThen hrest
      · exact (hpart.lower parent).andThen hrest

/-- A declarator, all of it but the declared name. -/
theorem lowerDeclarator_below (hparts : ∀ part ∈ parts, part.Sound source origin) (label : Label) :
    Below source origin parent (lowerDeclarator label parts parent) := by
  unfold lowerDeclarator
  split
  · exact .nothing
  split
  · -- the parameters of a function stand beside the declarator of its name
    refine (lowerDeclaratorField_below hparts).andThen ?_
    exact onField_below hparts "parameters" fun _ hpart => hpart.lowerContents parent
  · exact (lowerDeclaratorField_below hparts).andThen (lowerField_below hparts "value")
  · exact lowerDeclaratorParts_below fun part hpart => hparts part (List.mem_filter.mp hpart).1

/-! ## Declarations -/

theorem lowerFunctionDefinition_below (hmakes : MakesOnly source origin.whole label parts)
    (hform : Form.ofKind label.kind = .functionDefinition)
    (hparts : ∀ part ∈ parts, part.Sound source origin)
    (htypes : ∀ part ∈ parts, part.fills "type" = true → part.Sound source origin.typed) :
    Below source origin parent (lowerFunctionDefinition source label parts parent) := by
  intro state
  unfold lowerFunctionDefinition
  rw [enter_functionDefinition]
  -- the type stands outside of the function's scope, parameters and body inside
  refine .defined (hmakes (.functionDefinition hform)) ?_ ?_
  · unfold lowerField
    cases htype : field? parts "type" with
    | none => exact .nothing
    | some part =>
        have hfills := List.find?_some htype
        exact (htypes part (mem_of_field? htype) hfills).lower _
  refine (lowerDeclaratorField_below hparts).andThen ?_
  split
  · exact lowerField_below hparts "body"
  · exact .nothing

section Declared

variable {declarator : Part}

theorem lowerPrototype_below {nameLabel : Label}
    (horigin : origin.whole (.prototype (source.text nameLabel)) nameLabel)
    (hsound : declarator.Sound source origin) :
    Below source origin parent (lowerPrototype source declarator nameLabel parent) := by
  intro state
  unfold lowerPrototype
  rw [enter_prototype]
  exact .opened horigin trivial rfl (hsound.lowerDeclarator _)

theorem lowerDeclared_below (hmakes : MakesOnly source origin.whole label parts)
    (hform : Form.ofKind label.kind = .declaration) (hdeclarator : declarator ∈ declarators parts)
    (hsound : declarator.Sound source origin) :
    Below source origin parent (lowerDeclared source declarator parent) := by
  unfold lowerDeclared
  cases hname : declarator.name? with
  | none => exact hsound.lower parent
  | some nameLabel =>
      dsimp only
      split
      next hfunction =>
        exact lowerPrototype_below
          (hmakes (.prototype (.inl hform) hdeclarator hname hfunction)) hsound
      next hobject =>
        have hvariable := hmakes
          (.variable hform hdeclarator hname (Bool.eq_false_iff.mpr hobject))
        intro state
        rw [enter_variable]
        exact .entered hvariable trivial rfl (hsound.lowerDeclarator _)

theorem lowerMemberDeclared_below (hmakes : MakesOnly source origin.whole label parts)
    (hform : Form.ofKind label.kind = .memberDeclaration)
    (hdeclarator : declarator ∈ declarators parts) (hsound : declarator.Sound source origin) :
    Below source origin parent (lowerMemberDeclared source declarator parent) := by
  unfold lowerMemberDeclared
  cases hname : declarator.name? with
  | none => exact .nothing
  | some nameLabel =>
      dsimp only
      split
      next hfunction =>
        exact lowerPrototype_below
          (hmakes (.prototype (.inr hform) hdeclarator hname hfunction)) hsound
      next hobject =>
        have hfield := hmakes (.field hform hdeclarator hname (Bool.eq_false_iff.mpr hobject))
        intro state
        rw [enter_field]
        exact .entered hfield trivial rfl (hsound.lowerDeclarator _)

theorem lowerTypedefDeclared_below (hmakes : MakesOnly source origin.whole label parts)
    (hform : Form.ofKind label.kind = .typeDefinition)
    (hdeclarator : declarator ∈ declarators parts) (hsound : declarator.Sound source origin) :
    Below source origin parent (lowerTypedefDeclared source declarator parent) := by
  unfold lowerTypedefDeclared
  cases hname : declarator.name? with
  | none => exact .nothing
  | some nameLabel =>
      intro state
      dsimp only
      rw [enter_typedef]
      exact .opened (hmakes (.typedef hform hdeclarator hname)) trivial rfl
        (hsound.lowerDeclarator _)

end Declared

theorem lowerEach_below {rule : Part → NodeId → Pass PUnit}
    (hrule : ∀ part ∈ parts, part.Sound source origin →
      Below source origin parent (rule part parent))
    (hparts : ∀ part ∈ parts, part.Sound source origin) :
    Below source origin parent (lowerEach rule parent parts) := by
  induction parts with
  | nil => exact .nothing
  | cons part rest ih =>
      refine (hrule part (by simp) (hparts part (by simp))).andThen (ih ?_ ?_)
      · exact fun later hlater => hrule later (by simp [hlater])
      · exact fun later hlater => hparts later (by simp [hlater])

theorem lowerDeclaration_below {rule : Part → NodeId → Pass PUnit}
    (hrule : ∀ part ∈ declarators parts, part.Sound source origin →
      Below source origin parent (rule part parent))
    (hparts : ∀ part ∈ parts, part.Sound source origin) :
    Below source origin parent (lowerDeclaration rule parts parent) :=
  (lowerField_below hparts "type").andThen
    (lowerEach_below hrule fun part hpart => hparts part (List.mem_filter.mp hpart).1)

theorem lowerParameter_below (hmakes : MakesOnly source origin.whole label parts)
    (hform : Form.ofKind label.kind = .parameter)
    (hparts : ∀ part ∈ parts, part.Sound source origin) :
    Below source origin parent (lowerParameter source label parts parent) := by
  intro state
  unfold lowerParameter
  rw [enter_parameter]
  refine .entered (hmakes (.parameter hform)) trivial rfl
    ((lowerField_below hparts "type").andThen ?_)
  exact (lowerDeclaratorField_below hparts).andThen (lowerField_below hparts "default_value")

/-! ## Tags -/

theorem lowerTagRef_below {nameLabel : Label}
    (horigin : origin.whole (.tagRef (specifierKeyword label.kind) (source.text nameLabel))
      nameLabel) :
    Below source origin parent (lowerTagRef source label nameLabel parent) := by
  intro state
  unfold lowerTagRef
  rw [enter_tagRef]
  exact .cursor horigin trivial rfl (.nothing _ _)

theorem lowerSpecifier_below {kind : CursorKind}
    (hmakes : MakesOnly source origin.whole label parts)
    (hform : (Form.ofKind label.kind).tagKind? = some kind)
    (hparts : ∀ part ∈ parts, part.Sound source origin) (asType : Bool) :
    Below source origin parent (lowerSpecifier source kind asType label parts parent) := by
  have hkind := Form.tag_of_tagKind? hform
  unfold lowerSpecifier
  cases hbody : field? parts "body" with
  | some body =>
      intro state
      dsimp only
      rw [enter_tagDefinition]
      exact .entered (hmakes (.tagDefinition hform hbody)) hkind rfl
        ((hparts body (mem_of_field? hbody)).lowerContents _)
  | none =>
      dsimp only
      split
      · cases hname : (field? parts "name").map fun part => part.label with
        | none => exact .nothing
        | some nameLabel => exact lowerTagRef_below (hmakes (.tagRef hform hbody hname))
      · intro state
        rw [enter_tagDeclaration]
        exact .cursor (hmakes (.tagDeclaration hform hbody)) hkind rfl (.nothing _ _)

theorem lowerEnumerator_below (hmakes : MakesOnly source origin.whole label parts)
    (hform : Form.ofKind label.kind = .enumerator)
    (hparts : ∀ part ∈ parts, part.Sound source origin) :
    Below source origin parent (lowerEnumerator source parts parent) := by
  unfold lowerEnumerator
  cases hname : field? parts "name" with
  | none => exact .nothing
  | some namePart =>
      intro state
      dsimp only
      rw [enter_enumerator]
      exact .entered (hmakes (.enumerator hform hname)) trivial rfl
        (lowerField_below hparts "value")

/-! ## Preprocessing -/

theorem lowerMacroDefinition_below (hmakes : MakesOnly source origin.whole label parts)
    (hform : Form.ofKind label.kind = .macroDefinition) :
    Below source origin parent (lowerMacroDefinition source parts parent) := by
  unfold lowerMacroDefinition
  split
  next hdetailed =>
    cases hname : field? parts "name" with
    | none => exact .nothing
    | some namePart =>
        intro state
        dsimp only
        rw [enter_macroDefinition]
        exact .cursor (hmakes (.macroDefinition hform hname)) hdetailed rfl (.nothing _ _)
  next => exact .nothing

theorem lowerInclusion_below (hmakes : MakesOnly source origin.whole label parts)
    (hform : Form.ofKind label.kind = .inclusion) :
    Below source origin parent (lowerInclusion source label parts parent) := by
  unfold lowerInclusion
  split
  next hdetailed =>
    cases hpath : field? parts "path" with
    | none => exact .nothing
    | some path =>
        intro state
        -- the rule is the left side of the equation up to its match, so no rewrite finds it
        refine Eq.mpr (congrArg (Derives source origin parent state)
          (enter_inclusion _ _ label)) ?_
        exact .cursor (hmakes (.inclusion hform hpath)) hdetailed rfl (.nothing _ _)
  next => exact .nothing

/-- Of the nodes that the index does not distinguish, blocks are those with a scope. -/
theorem opensScope_other (hform : Form.ofKind label.kind ≠ .block) :
    (Entry.other label.kind).opensScope = false := by
  rw [Entry.opensScope, beq_eq_false_iff_ne]
  intro hkind
  exact hform (by rw [hkind]; rfl)

theorem opensScope_block (hform : Form.ofKind label.kind = .block) :
    (Entry.other label.kind).opensScope = true := by
  unfold Form.ofKind at hform
  split at hform <;> simp_all [Entry.opensScope]

theorem lowerConditional_below (hmakes : MakesOnly source origin.whole label parts)
    (hform : Form.ofKind label.kind = .conditional)
    (hparts : ∀ part ∈ parts, part.Sound source origin) :
    Below source origin parent (lowerConditional source label parts parent) := by
  intro state
  unfold lowerConditional
  rw [enter_other]
  refine .entered (hmakes (.other (by simp [hform]))) trivial
    (opensScope_other (by simp [hform])) (lowerNamed_below fun part hpart => ?_)
  exact hparts part (List.mem_of_mem_eraseP hpart)

/-! ## Expressions -/

/-- The function of a call may be any part but the name of a macro. -/
theorem lowerFunctionCall_derives (hmakes : MakesOnly source origin.whole label parts)
    (hform : Form.ofKind label.kind = .call)
    (hparts : ∀ part ∈ parts, part.Sound source origin)
    {state : State}
    (hmeant : ∀ callee, field? parts "function" = some callee → callee.label.kind = "identifier" →
      source.options.detailedPreprocessing = true →
        state.names.macros.lookup (source.text callee.label) = none) :
    Derives source origin parent state (lowerFunctionCall source label parts parent state).2 := by
  unfold lowerFunctionCall
  rw [enter_call ((field? parts "function").map fun callee => callee.label.kind)]
  refine .entered (hmakes (.call hform)) ?_ rfl
    ((lowerField_below hparts "function").andThen (lowerArguments_below hparts))
  intro hkind hdetailed
  obtain ⟨callee, hcallee, hidentifier⟩ := Option.map_eq_some_iff.mp hkind
  have hlookup := hmeant callee hcallee hidentifier hdetailed
  simpa [hcallee, calleeName?, hidentifier] using hlookup

theorem macro?_apply (source : Source) (name : String) (state : State) :
    macro? source name state =
      (if source.options.detailedPreprocessing then state.names.macros.lookup name else none,
        state) :=
  rfl

theorem lowerCall_below (hmakes : MakesOnly source origin.whole label parts)
    (hform : Form.ofKind label.kind = .call)
    (hparts : ∀ part ∈ parts, part.Sound source origin) :
    Below source origin parent (lowerCall source label parts parent) := by
  intro state
  unfold lowerCall
  cases hfilter : (field? parts "function").filter fun callee => callee.label.kind == "identifier" with
  | none =>
      -- no identifier is called, so no macro can be meant
      refine lowerFunctionCall_derives hmakes hform hparts fun callee hcallee hkind _ => ?_
      simp [hcallee, hkind] at hfilter
  | some callee =>
      obtain ⟨hcallee, hkind⟩ := Option.filter_eq_some_iff.mp hfilter
      dsimp only
      rw [Pass.bind_apply, macro?_apply]
      cases hmeant : if source.options.detailedPreprocessing then
          state.names.macros.lookup (source.text callee.label) else none with
      | none =>
          refine lowerFunctionCall_derives hmakes hform hparts fun other hother _ hdetailed => ?_
          rw [if_pos hdetailed] at hmeant
          rw [hcallee, Option.some.injEq] at hother
          exact hother ▸ hmeant
      | some target =>
          obtain ⟨hdetailed, hlookup⟩ := Option.ite_none_right_eq_some.mp hmeant
          dsimp only
          rw [Pass.bind_apply, enter_expansion]
          have hallowed : (Entry.expansion _ target).Allowed source state := ⟨hdetailed, hlookup⟩
          exact .entered (hmakes (.callExpansion hform hcallee)) hallowed rfl
            (lowerArguments_below hparts)

theorem lowerMember_below (hmakes : MakesOnly source origin.whole label parts)
    (hform : Form.ofKind label.kind = .member)
    (hparts : ∀ part ∈ parts, part.Sound source origin) :
    Below source origin parent (lowerMember source label parts parent) := by
  intro state
  unfold lowerMember
  rw [enter_member]
  exact .entered (hmakes (.member hform)) trivial rfl (lowerField_below hparts "argument")

theorem lowerIdentifier_below (hmakes : MakesOnly source origin.whole label parts)
    (hform : Form.ofKind label.kind = .identifier) :
    Below source origin parent (lowerIdentifier source label parent) := by
  intro state
  unfold lowerIdentifier
  rw [Pass.bind_apply, macro?_apply]
  cases hmeant : if source.options.detailedPreprocessing then
      state.names.macros.lookup (source.text label) else none with
  | none =>
      dsimp only
      rw [enter_valueRef]
      refine .cursor (hmakes (.valueRef hform)) (fun hdetailed => ?_) rfl (.nothing _ _)
      rwa [if_pos hdetailed] at hmeant
  | some target =>
      obtain ⟨hdetailed, hlookup⟩ := Option.ite_none_right_eq_some.mp hmeant
      dsimp only
      rw [Pass.bind_apply, enter_expansion]
      exact .cursor (hmakes (.expansion hform)) ⟨hdetailed, hlookup⟩ rfl (.nothing _ _)

theorem lowerTypeName_below (hmakes : MakesOnly source origin.whole label parts)
    (hform : Form.ofKind label.kind = .typeName) :
    Below source origin parent (lowerTypeName source label parent) := by
  intro state
  unfold lowerTypeName
  rw [enter_typeName]
  exact .cursor (hmakes (.typeName hform)) trivial rfl (.nothing _ _)

theorem lowerOther_below (hmakes : MakesOnly source origin.whole label parts)
    (hform : Form.ofKind label.kind = .other)
    (hparts : ∀ part ∈ parts, part.Sound source origin) :
    Below source origin parent (lowerOther source label parts parent) := by
  intro state
  unfold lowerOther
  rw [enter_other]
  exact .entered (hmakes (.other (by simp [hform]))) trivial
    (opensScope_other (by simp [hform])) (lowerNamed_below hparts)

theorem lowerBlock_below (hmakes : MakesOnly source origin.whole label parts)
    (hform : Form.ofKind label.kind = .block)
    (hparts : ∀ part ∈ parts, part.Sound source origin) :
    Below source origin parent (lowerBlock source label parts parent) := by
  intro state
  unfold lowerBlock
  rw [enter_other]
  exact .opened (hmakes (.other (by simp [hform]))) trivial (opensScope_block hform)
    (lowerNamed_below hparts)

/-! ## All forms -/

/-- A node, by the rule of its form. -/
theorem lowerNode_below (hmakes : MakesOnly source origin.whole label parts)
    (hparts : ∀ part ∈ parts, part.Sound source origin)
    (htypes : Form.ofKind label.kind = .functionDefinition →
      ∀ part ∈ parts, part.fills "type" = true → part.Sound source origin.typed)
    (place : Place) :
    Below source origin parent (lowerNode source place label parts parent) := by
  unfold lowerNode
  cases hform : Form.ofKind label.kind with
  | functionDefinition =>
      exact lowerFunctionDefinition_below hmakes hform hparts (htypes hform)
  | declaration =>
      exact lowerDeclaration_below (fun _ => lowerDeclared_below hmakes hform) hparts
  | memberDeclaration =>
      exact lowerDeclaration_below (fun _ => lowerMemberDeclared_below hmakes hform) hparts
  | parameter => exact lowerParameter_below hmakes hform hparts
  | typeDefinition =>
      exact lowerDeclaration_below (fun _ => lowerTypedefDeclared_below hmakes hform) hparts
  | record => exact lowerSpecifier_below hmakes (by rw [hform]; rfl) hparts place.asType
  | enumeration => exact lowerSpecifier_below hmakes (by rw [hform]; rfl) hparts place.asType
  | enumerator => exact lowerEnumerator_below hmakes hform hparts
  | macroDefinition => exact lowerMacroDefinition_below hmakes hform
  | inclusion => exact lowerInclusion_below hmakes hform
  | conditional => exact lowerConditional_below hmakes hform hparts
  | call => exact lowerCall_below hmakes hform hparts
  | member => exact lowerMember_below hmakes hform hparts
  | identifier =>
      dsimp only
      split
      · exact .nothing
      · exact lowerIdentifier_below hmakes hform
  | typeName => exact lowerTypeName_below hmakes hform
  | block => exact lowerBlock_below hmakes hform hparts
  | other => exact lowerOther_below hmakes hform hparts

end Rules

/-! ## The recursion over the parse tree -/

/-- In every place, a parse tree builds below the cursor it is given. -/
def Meaning.Sound (source : Source) (origin : Origin) (meaning : Meaning) : Prop :=
  ∀ place, (meaning.at place).Sound source origin

section Recursion

variable {source : Source} {origin : Origin} {file : ParseTree}

/-- Each part of a node is one of its children in some place. -/
theorem exists_of_mem_placeChildren {children : List Meaning} {label : Label} {usesType : Bool}
    {part : Part} (hpart : part ∈ placeChildren label usesType children) :
    ∃ child ∈ children, ∃ place, part = child.at place := by
  induction children generalizing usesType with
  | nil => cases hpart
  | cons child rest ih =>
      rw [placeChildren, List.mem_cons] at hpart
      rcases hpart with rfl | hpart
      · exact ⟨child, by simp, _, rfl⟩
      · obtain ⟨later, hlater, hplaced⟩ := ih hpart
        exact ⟨later, by simp [hlater], hplaced⟩

theorem ofNode_sound {children : List Meaning} {label : Label}
    (hmakes : MakesOnly source origin.whole label
      (placeChildren label (usesType label children) children))
    (hchildren : ∀ child ∈ children, child.Sound source origin)
    (htypes : Form.ofKind label.kind = .functionDefinition →
      ∀ child ∈ children, child.fills "type" = true → child.Sound source origin.typed) :
    (Meaning.ofNode source label children).Sound source origin := by
  have hparts : ∀ part ∈ placeChildren label (usesType label children) children,
      part.Sound source origin := by
    intro part hpart
    obtain ⟨child, hchild, place, rfl⟩ := exists_of_mem_placeChildren hpart
    exact hchildren child hchild place
  have htyped : Form.ofKind label.kind = .functionDefinition →
      ∀ part ∈ placeChildren label (usesType label children) children,
        part.fills "type" = true → part.Sound source origin.typed := by
    intro hform part hpart hfills
    obtain ⟨child, hchild, place, rfl⟩ := exists_of_mem_placeChildren hpart
    exact htypes hform child hchild hfills place
  intro place
  -- as a node, as a declarator, and its contents alone
  refine ⟨fun parent => ?_, fun parent => ?_, fun parent => ?_⟩
  · change Below source origin parent (if _ then _ else _)
    split
    · exact (lowerNode_below hmakes hparts htyped place).level
    · exact .nothing
  · exact (lowerDeclarator_below hparts label).level
  · exact lowerNamed_below hparts

/-- All that arises from a parse tree is of an origin. -/
structure Origin.Covers (origin : Origin) (source : Source) (tree : ParseTree) : Prop where
  whole : ∀ {entry place}, Arises source tree entry place → origin.whole entry place
  inType : ∀ {entry place}, ArisesInType source tree entry place → origin.inType entry place

theorem Origin.Covers.child {label : Label} {children : List ParseTree} {child : ParseTree}
    (hcovers : origin.Covers source (.node label children)) (hchild : child ∈ children) :
    origin.Covers source child where
  whole := fun harises => hcovers.whole (harises.inside hchild)
  inType := fun harises => hcovers.inType (harises.inside hchild)

/-- The type of a function with a body. -/
theorem Origin.Covers.type {label : Label} {children : List ParseTree} {type : ParseTree}
    (hcovers : origin.Covers source (.node label children))
    (hform : Form.ofKind label.kind = .functionDefinition) (htype : type ∈ children)
    (hfills : type.label.field = some "type") : origin.typed.Covers source type where
  whole := fun harises => ⟨(hcovers.child htype).whole harises,
    hcovers.inType ⟨label, children, type, .whole, hform, htype, hfills, harises⟩⟩
  inType := (hcovers.child htype).inType

mutual

theorem meaning_sound {tree : ParseTree} {origin : Origin} (hcovers : origin.Covers source tree) :
    (meaning source tree).Sound source origin := by
  cases tree with
  | node label children =>
      refine ofNode_sound
        (fun hmade => hcovers.whole ⟨label, children, .whole, hmade⟩) ?_ ?_
      · intro child hchild
        obtain ⟨tree, htree, -, hsound⟩ := meanings_sound hchild
        exact hsound (hcovers.child htree)
      · intro hform child hchild hfills
        obtain ⟨tree, htree, hlabel, hsound⟩ := meanings_sound hchild
        refine hsound (hcovers.type hform htree ?_)
        rw [← hlabel]
        simpa [Meaning.fills] using hfills

theorem meanings_sound {trees : List ParseTree} {child : Meaning}
    (hchild : child ∈ meanings source trees) :
    ∃ tree ∈ trees, child.label = tree.label ∧
      ∀ {origin : Origin}, origin.Covers source tree → child.Sound source origin := by
  cases trees with
  | nil => cases hchild
  | cons tree rest =>
      rw [meanings, List.mem_cons] at hchild
      rcases hchild with rfl | hchild
      · refine ⟨tree, by simp, ?_, meaning_sound⟩
        cases tree
        rfl
      · obtain ⟨later, hlater, hsound⟩ := meanings_sound hchild
        exact ⟨later, by simp [hlater], hsound⟩

end

end Recursion

/-- The origin of the cursors of a file. -/
def Origin.ofFile (source : Source) (file : ParseTree) : Origin where
  whole := Arises source file
  inType := ArisesInType source file

/-- **A lowering is a derivation.**  The state after a file has been lowered is derived
from the first state below the root, and each cursor arises from the file. -/
theorem derives_run (source : Source) (tree : ParseTree) :
    Derives source (.ofFile source tree) CursorTree.root (State.start source.file)
      (run source tree) := by
  have htree : (meaning source tree).Sound source (.ofFile source tree) := meaning_sound ⟨id, id⟩
  have hcontents := (htree ⟨false, false⟩).lowerContents CursorTree.root
  exact hcontents (State.start source.file)

theorem builds_run (source : Source) (tree : ParseTree) :
    Builds source (Arises source tree) CursorTree.root (State.start source.file)
      (run source tree) :=
  (derives_run source tree).builds

end Lowering
end SourceIndex
