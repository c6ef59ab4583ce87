import Mathlib.Data.List.Forall2
import SourceIndex.Proofs.Lowering.Rules

/-!
# Lowerings that treat levels differently

The rules of a lowering do not look at the nesting: all that is done about it is done around
each node (`nested`).  So the recursion over a parse tree can be made with anything else done
around a node (`meaningBy`, `runBy`), and two such lowerings can be compared without looking
at the rules again.

A `Simulation` is a relation of passes that the steps of the rules keep and that holds of what
is done around nodes.  It then holds of whole lowerings (`Simulation.meaningBy`).  It does NOT
have to be an equality: the two passes may refuse different nodes.
-/

namespace SourceIndex
namespace Lowering

/-! ## What is done around nodes -/

/-- The meaning of a node, with `enter` around each node that is lowered. -/
def Meaning.ofNodeBy (enter : Pass PUnit → Pass PUnit) (source : Source) (label : Label)
    (children : List Meaning) : Meaning :=
  let parts := placeChildren label (usesType label children) children
  { label := label
    name? := declaredName? label parts
    declaresFunction := Lowering.declaresFunction label parts
    member? := (field? parts "field").map fun part => part.label
    lower := fun place parent =>
      if label.named && label.kind != "comment" then
        enter (lowerNode source place label parts parent)
      else pure ()
    lowerDeclarator := fun parent => enter (Lowering.lowerDeclarator label parts parent)
    lowerContents := lowerNamed parts }

mutual

/-- The meaning of a parse tree, with `enter` around each node that is lowered. -/
def meaningBy (enter : Pass PUnit → Pass PUnit) (source : Source) : ParseTree → Meaning
  | .node label children => Meaning.ofNodeBy enter source label (meaningsBy enter source children)

/-- The meanings of several parse trees. -/
def meaningsBy (enter : Pass PUnit → Pass PUnit) (source : Source) : List ParseTree → List Meaning
  | [] => []
  | tree :: rest => meaningBy enter source tree :: meaningsBy enter source rest

end

/-- The state after a parse tree has been lowered below the root. -/
def runBy (enter : Pass PUnit → Pass PUnit) (source : Source) (tree : ParseTree) : State :=
  ((meaningBy enter source tree).lowerContents CursorTree.root (State.start source.file)).2

mutual

theorem meaningBy_nested (source : Source) (tree : ParseTree) :
    meaningBy (nested source.limit) source tree = meaning source tree := by
  cases tree with
  | node label children =>
      rw [meaningBy, meaning, meaningsBy_nested source children]
      rfl

theorem meaningsBy_nested (source : Source) (trees : List ParseTree) :
    meaningsBy (nested source.limit) source trees = meanings source trees := by
  cases trees with
  | nil => rfl
  | cons tree rest =>
      rw [meaningsBy, meanings, meaningBy_nested source tree, meaningsBy_nested source rest]

end

theorem runBy_nested (source : Source) (tree : ParseTree) :
    runBy (nested source.limit) source tree = run source tree := by
  rw [runBy, run, meaningBy_nested]

/-! ## Steps that leave the nesting alone -/

/-- What a state says about the nesting. -/
structure Nesting where
  depth : Nat
  deepest : Nat
  tooDeep : Bool

namespace State

/-- The nesting of a state. -/
def nesting (state : State) : Nesting where
  depth := state.depth
  deepest := state.deepest
  tooDeep := state.tooDeep

/-- The state with another nesting. -/
def withNesting (state : State) (nesting : Nesting) : State :=
  { state with depth := nesting.depth, deepest := nesting.deepest, tooDeep := nesting.tooDeep }

end State

/-- A pass that neither looks at the nesting nor changes it. -/
def Quiet {α : Type} (pass : Pass α) : Prop :=
  ∀ state nesting, pass (state.withNesting nesting) =
    ((pass state).1, (pass state).2.withNesting nesting)

namespace Quiet

variable {α β : Type} {pass : Pass α} {next : α → Pass β} {source : Source} {parent id : NodeId}

theorem nesting_eq (hquiet : Quiet pass) (state : State) :
    (pass state).2.nesting = state.nesting := by
  have hsame : pass state = _ := hquiet state state.nesting
  rw [hsame]
  rfl

theorem pure (value : α) : Quiet (Pure.pure value : Pass α) := fun _ _ => rfl

theorem bind (hpass : Quiet pass) (hnext : ∀ value, Quiet (next value)) :
    Quiet (pass >>= next) := by
  intro state nesting
  rw [Pass.bind_apply, Pass.bind_apply, hpass state nesting]
  exact hnext _ _ nesting

theorem changeTree (change : CursorTree → CursorTree) : Quiet (changeTree change) :=
  fun _ _ => rfl

theorem changeNames (change : FileNames → FileNames) : Quiet (changeNames change) :=
  fun _ _ => rfl

theorem push (kind : CursorKind) (spelling : String) (place : Label) :
    Quiet (push source parent kind spelling place) :=
  fun _ _ => rfl

theorem pushDefined (kind : CursorKind) (spelling : String) (place : Label) :
    Quiet (pushDefined source parent kind spelling place) :=
  fun _ _ => rfl

theorem declareValue (name : String) : Quiet (declareValue name id) := by
  intro state nesting
  obtain ⟨tree, scopes, names, pending, depth, deepest, tooDeep⟩ := state
  cases scopes <;> rfl

theorem refer (space : Space) (name : String) : Quiet (refer id space name) := by
  intro state nesting
  rw [refer_apply, refer_apply]
  have hanswer : (state.withNesting nesting).answer? space name = state.answer? space name := rfl
  rw [hanswer]
  cases state.answer? space name <;> rfl

theorem macro? (name : String) : Quiet (macro? source name) := fun _ _ => rfl

theorem lowerExpansion (name : String) (place : Label) (target : NodeId) :
    Quiet (lowerExpansion source name place target parent) :=
  fun _ _ => rfl

end Quiet

/-! ## Simulations -/

/-- A relation of passes that the steps of the rules keep, and that relates what is done around
the nodes of two lowerings. -/
structure Simulation (first second : Pass PUnit → Pass PUnit) where
  related {α : Type} : Pass α → Pass α → Prop
  quiet {α : Type} {pass : Pass α} : Quiet pass → related pass pass
  bind {α β : Type} {left right : Pass α} {next later : α → Pass β} :
    related left right → (∀ value, related (next value) (later value)) →
      related (left >>= next) (right >>= later)
  level {left right : Pass PUnit} : related left right → related (first left) (second right)

/-- A part of a node in two lowerings, which differ in the passes only. -/
structure Twin {first second : Pass PUnit → Pass PUnit} (sim : Simulation first second) where
  left : Part
  right : Part
  label_eq : right.label = left.label
  name?_eq : right.name? = left.name?
  declaresFunction_eq : right.declaresFunction = left.declaresFunction
  member?_eq : right.member? = left.member?
  lower : ∀ parent, sim.related (left.lower parent) (right.lower parent)
  lowerDeclarator : ∀ parent,
    sim.related (left.lowerDeclarator parent) (right.lowerDeclarator parent)
  lowerContents : ∀ parent, sim.related (left.lowerContents parent) (right.lowerContents parent)

section Twins

variable {first second : Pass PUnit → Pass PUnit} {sim : Simulation first second}

namespace Twin

/-- The first one of some parts that fills a field. -/
def field? (twins : List (Twin sim)) (field : String) : Option (Twin sim) :=
  twins.find? fun twin => twin.left.fills field

theorem fills_right (twin : Twin sim) (field : String) :
    twin.right.fills field = twin.left.fills field := by
  rw [Part.fills, Part.fills, twin.label_eq]

theorem field?_left (twins : List (Twin sim)) (field : String) :
    Lowering.field? (twins.map Twin.left) field = (Twin.field? twins field).map Twin.left := by
  rw [Lowering.field?, List.find?_map]
  rfl

theorem field?_right (twins : List (Twin sim)) (field : String) :
    Lowering.field? (twins.map Twin.right) field = (Twin.field? twins field).map Twin.right := by
  rw [Lowering.field?, List.find?_map]
  simp only [Function.comp_def, fills_right]
  rfl

/-- What is asked about a part, as far as it is not a pass, is the same in both lowerings. -/
theorem bind_field? {β : Type} (ask : Part → Option β)
    (hask : ∀ twin : Twin sim, ask twin.right = ask twin.left) (twins : List (Twin sim))
    (field : String) :
    (Lowering.field? (twins.map Twin.right) field).bind ask =
      (Lowering.field? (twins.map Twin.left) field).bind ask := by
  rw [field?_left, field?_right]
  cases Twin.field? twins field with
  | none => rfl
  | some twin => exact hask twin

theorem label_field? (twins : List (Twin sim)) (field : String) :
    (Lowering.field? (twins.map Twin.right) field).map (fun part => part.label) =
      (Lowering.field? (twins.map Twin.left) field).map fun part => part.label := by
  rw [field?_left, field?_right]
  cases Twin.field? twins field with
  | none => rfl
  | some twin => exact congrArg some twin.label_eq

theorem filter_left (twins : List (Twin sim)) (choose : Label → Bool) :
    (twins.map Twin.left).filter (fun part => choose part.label) =
      (twins.filter fun twin => choose twin.left.label).map Twin.left := by
  rw [List.filter_map]
  rfl

theorem filter_right (twins : List (Twin sim)) (choose : Label → Bool) :
    (twins.map Twin.right).filter (fun part => choose part.label) =
      (twins.filter fun twin => choose twin.left.label).map Twin.right := by
  rw [List.filter_map]
  simp only [Function.comp_def, label_eq]

theorem eraseP_left (twins : List (Twin sim)) (field : String) :
    (twins.map Twin.left).eraseP (fun part => part.fills field) =
      (twins.eraseP fun twin => twin.left.fills field).map Twin.left := by
  rw [List.eraseP_map]
  rfl

theorem eraseP_right (twins : List (Twin sim)) (field : String) :
    (twins.map Twin.right).eraseP (fun part => part.fills field) =
      (twins.eraseP fun twin => twin.left.fills field).map Twin.right := by
  rw [List.eraseP_map]
  simp only [Function.comp_def, fills_right]

end Twin

namespace Simulation

variable (sim)

/-- A rule for parts whose passes are related if those of its parts are. -/
def Respects (rule : List Part → Pass PUnit) : Prop :=
  ∀ twins : List (Twin sim), sim.related (rule (twins.map Twin.left)) (rule (twins.map Twin.right))

/-- A rule for one part whose passes are related if those of the part are. -/
def RespectsPart (rule : Part → Pass PUnit) : Prop :=
  ∀ twin : Twin sim, sim.related (rule twin.left) (rule twin.right)

theorem nothing : sim.related (pure () : Pass PUnit) (pure ()) :=
  sim.quiet (.pure ())

/-- A quiet step first. -/
theorem after {α β : Type} {pass : Pass α} {next later : α → Pass β} (hpass : Quiet pass)
    (hnext : ∀ value, sim.related (next value) (later value)) :
    sim.related (pass >>= next) (pass >>= later) :=
  sim.bind (sim.quiet hpass) hnext

/-- A quiet step first, if a condition holds. -/
theorem afterIf {β : Type} {condition : Prop} [Decidable condition] {pass : Pass PUnit}
    {next later : PUnit → Pass β} (hpass : Quiet pass)
    (hnext : ∀ value, sim.related (next value) (later value)) :
    sim.related (if condition then pass >>= next else next ⟨⟩)
      (if condition then pass >>= later else later ⟨⟩) := by
  split
  · exact sim.after hpass hnext
  · exact hnext ⟨⟩

theorem inScope {left right : Pass PUnit} (hstep : sim.related left right) :
    sim.related (inScope left) (inScope right) := by
  refine sim.after (fun _ _ => rfl) fun _ => ?_
  exact sim.bind hstep fun _ => sim.quiet fun _ _ => rfl

/-- What is done with the part that fills a field, if there is one. -/
theorem forField {step : Part → Pass PUnit} (hstep : sim.RespectsPart step) (field : String) :
    sim.Respects fun parts =>
      match field? parts field with
      | none => pure ()
      | some part => step part := by
  intro twins
  dsimp only
  rw [Twin.field?_left, Twin.field?_right]
  cases Twin.field? twins field with
  | none => exact sim.nothing
  | some twin => exact hstep twin

theorem lowerAll (parent : NodeId) : sim.Respects (lowerAll parent) := by
  intro twins
  induction twins with
  | nil => exact sim.nothing
  | cons twin rest ih => exact sim.bind (twin.lower parent) fun _ => ih

theorem lowerNamed (parent : NodeId) : sim.Respects fun parts => lowerNamed parts parent := by
  intro twins
  dsimp only
  rw [Lowering.lowerNamed, Lowering.lowerNamed, Twin.filter_left twins fun label => label.named,
    Twin.filter_right twins fun label => label.named]
  exact sim.lowerAll parent _

theorem lowerField (field : String) (parent : NodeId) :
    sim.Respects fun parts => lowerField parts field parent :=
  sim.forField (fun twin => twin.lower parent) field

/-! ### Declarators -/

/-- The declarator inside a declarator is the same one in both lowerings. -/
theorem exists_innerDeclarator (twins : List (Twin sim)) :
    ∃ inner : Option (Twin sim), innerDeclarator? (twins.map Twin.left) = inner.map Twin.left ∧
      innerDeclarator? (twins.map Twin.right) = inner.map Twin.right := by
  refine ⟨(Twin.field? twins "declarator").or (twins.find? fun twin =>
    twin.left.label.named && isDeclaratorKind twin.left.label.kind), ?_, ?_⟩
  · rw [innerDeclarator?, Twin.field?_left, List.find?_map, Option.map_or]
    rfl
  · rw [innerDeclarator?, Twin.field?_right, List.find?_map, Option.map_or]
    simp only [Function.comp_def, Twin.label_eq]

theorem declaredName?_eq (twins : List (Twin sim)) (label : Label) :
    declaredName? label (twins.map Twin.right) = declaredName? label (twins.map Twin.left) := by
  obtain ⟨inner, hleft, hright⟩ := sim.exists_innerDeclarator twins
  rw [declaredName?, declaredName?, hleft, hright]
  cases inner with
  | none => rfl
  | some twin => simp only [Option.map_some, Option.bind_some, twin.name?_eq]

theorem declaresFunction_eq (twins : List (Twin sim)) (label : Label) :
    declaresFunction label (twins.map Twin.right) =
      declaresFunction label (twins.map Twin.left) := by
  obtain ⟨inner, hleft, hright⟩ := sim.exists_innerDeclarator twins
  have hinner : (innerDeclarator? (twins.map Twin.right)).any (·.declaresFunction) =
      (innerDeclarator? (twins.map Twin.left)).any (·.declaresFunction) := by
    rw [hleft, hright]
    cases inner with
    | none => rfl
    | some twin => exact twin.declaresFunction_eq
  have houter : (field? (twins.map Twin.right) "declarator").any
        (fun part => part.label.kind != "parenthesized_declarator") =
      (field? (twins.map Twin.left) "declarator").any
        (fun part => part.label.kind != "parenthesized_declarator") := by
    rw [Twin.field?_left, Twin.field?_right]
    cases Twin.field? twins "declarator" with
    | none => rfl
    | some twin => simp only [Option.map_some, Option.any_some, twin.label_eq]
  rw [declaresFunction, declaresFunction, hinner, houter]

theorem lowerDeclaratorField (parent : NodeId) :
    sim.Respects fun parts => lowerDeclaratorField parts parent :=
  sim.forField (fun twin => twin.lowerDeclarator parent) "declarator"

theorem lowerDeclaratorParts (parent : NodeId) : sim.Respects (lowerDeclaratorParts parent) := by
  intro twins
  induction twins with
  | nil => exact sim.nothing
  | cons twin rest ih =>
      rw [List.map_cons, List.map_cons, Lowering.lowerDeclaratorParts,
        Lowering.lowerDeclaratorParts, twin.label_eq]
      split
      · exact sim.bind (twin.lowerDeclarator parent) fun _ => ih
      · exact sim.bind (twin.lower parent) fun _ => ih

theorem lowerDeclarator (label : Label) (parent : NodeId) :
    sim.Respects fun parts => lowerDeclarator label parts parent := by
  intro twins
  dsimp only
  rw [Lowering.lowerDeclarator, Lowering.lowerDeclarator]
  split
  · exact sim.nothing
  · split
    · refine sim.bind (sim.lowerDeclaratorField parent twins) fun _ => ?_
      exact sim.forField (fun twin => twin.lowerContents parent) "parameters" twins
    · refine sim.bind (sim.lowerDeclaratorField parent twins) fun _ => ?_
      exact sim.lowerField "value" parent twins
    · rw [Twin.filter_left twins fun label => label.named,
        Twin.filter_right twins fun label => label.named]
      exact sim.lowerDeclaratorParts parent _

/-! ### Declarations -/

theorem lowerFunctionDefinition (source : Source) (label : Label) (parent : NodeId) :
    sim.Respects fun parts => lowerFunctionDefinition source label parts parent := by
  intro twins
  dsimp only
  rw [Lowering.lowerFunctionDefinition, Lowering.lowerFunctionDefinition,
    Twin.bind_field? (·.name?) Twin.name?_eq]
  refine sim.after (.pushDefined _ _ _) fun id => ?_
  refine sim.afterIf (.changeNames _) fun _ => ?_
  refine sim.bind (sim.lowerField "type" id twins) fun _ => sim.inScope ?_
  refine sim.bind (sim.lowerDeclaratorField id twins) fun _ => ?_
  split
  · exact sim.lowerField "body" id twins
  · exact sim.nothing

theorem lowerPrototype (source : Source) (nameLabel : Label) (parent : NodeId) :
    sim.RespectsPart fun declarator => lowerPrototype source declarator nameLabel parent := by
  intro twin
  refine sim.after (.push _ _ _) fun id => ?_
  exact sim.after (.changeNames _) fun _ => sim.inScope (twin.lowerDeclarator id)

theorem lowerDeclared (source : Source) (parent : NodeId) :
    sim.RespectsPart fun declarator => lowerDeclared source declarator parent := by
  intro twin
  dsimp only
  rw [Lowering.lowerDeclared, Lowering.lowerDeclared, twin.name?_eq, twin.declaresFunction_eq]
  cases twin.left.name? with
  | none => exact twin.lower parent
  | some nameLabel =>
      dsimp only
      split
      · exact sim.lowerPrototype source nameLabel parent twin
      · refine sim.after (.push _ _ _) fun id => ?_
        exact sim.after (.declareValue _) fun _ => twin.lowerDeclarator id

theorem lowerMemberDeclared (source : Source) (parent : NodeId) :
    sim.RespectsPart fun declarator => lowerMemberDeclared source declarator parent := by
  intro twin
  dsimp only
  rw [Lowering.lowerMemberDeclared, Lowering.lowerMemberDeclared, twin.name?_eq,
    twin.declaresFunction_eq]
  cases twin.left.name? with
  | none => exact sim.nothing
  | some nameLabel =>
      dsimp only
      split
      · exact sim.lowerPrototype source nameLabel parent twin
      · refine sim.after (.pushDefined _ _ _) fun id => ?_
        exact sim.after (.changeNames _) fun _ => twin.lowerDeclarator id

theorem lowerTypedefDeclared (source : Source) (parent : NodeId) :
    sim.RespectsPart fun declarator => lowerTypedefDeclared source declarator parent := by
  intro twin
  dsimp only
  rw [Lowering.lowerTypedefDeclared, Lowering.lowerTypedefDeclared, twin.name?_eq]
  cases twin.left.name? with
  | none => exact sim.nothing
  | some nameLabel =>
      refine sim.after (.pushDefined _ _ _) fun id => ?_
      exact sim.after (.changeNames _) fun _ => sim.inScope (twin.lowerDeclarator id)

theorem lowerEach {rule : Part → NodeId → Pass PUnit}
    (hrule : ∀ parent, sim.RespectsPart fun part => rule part parent) (parent : NodeId) :
    sim.Respects (lowerEach rule parent) := by
  intro twins
  induction twins with
  | nil => exact sim.nothing
  | cons twin rest ih => exact sim.bind (hrule parent twin) fun _ => ih

theorem lowerDeclaration {rule : Part → NodeId → Pass PUnit}
    (hrule : ∀ parent, sim.RespectsPart fun part => rule part parent) (parent : NodeId) :
    sim.Respects fun parts => lowerDeclaration rule parts parent := by
  intro twins
  refine sim.bind (sim.lowerField "type" parent twins) fun _ => ?_
  have hleft := Twin.filter_left twins fun label => label.field == some "declarator"
  have hright := Twin.filter_right twins fun label => label.field == some "declarator"
  exact hleft ▸ hright ▸ sim.lowerEach hrule parent _

theorem lowerParameter (source : Source) (label : Label) (parent : NodeId) :
    sim.Respects fun parts => lowerParameter source label parts parent := by
  intro twins
  dsimp only
  rw [Lowering.lowerParameter, Lowering.lowerParameter, Twin.bind_field? (·.name?) Twin.name?_eq]
  refine sim.after (.push _ _ _) fun id => ?_
  refine sim.afterIf (.declareValue _) fun _ => ?_
  refine sim.bind (sim.lowerField "type" id twins) fun _ => ?_
  refine sim.bind (sim.lowerDeclaratorField id twins) fun _ => ?_
  exact sim.lowerField "default_value" id twins

/-! ### Tags -/

theorem lowerSpecifier (source : Source) (kind : CursorKind) (asType : Bool) (label : Label)
    (parent : NodeId) :
    sim.Respects fun parts => lowerSpecifier source kind asType label parts parent := by
  intro twins
  dsimp only
  rw [Lowering.lowerSpecifier, Lowering.lowerSpecifier, Twin.label_field?,
    Twin.field?_left twins "body", Twin.field?_right twins "body"]
  cases Twin.field? twins "body" with
  | some body =>
      refine sim.after (.pushDefined _ _ _) fun id => ?_
      exact sim.afterIf (.changeNames _) fun _ => body.lowerContents id
  | none =>
      -- without a body, nothing below the specifier is lowered
      dsimp only [Option.map_none]
      split
      · split
        · exact sim.nothing
        · exact sim.after (.push _ _ _) fun id => sim.quiet (.refer _ _)
      · refine sim.after (.push _ _ _) fun id => ?_
        split
        · exact sim.quiet (.changeNames _)
        · exact sim.nothing

theorem lowerEnumerator (source : Source) (parent : NodeId) :
    sim.Respects fun parts => lowerEnumerator source parts parent := by
  intro twins
  dsimp only
  rw [Lowering.lowerEnumerator, Lowering.lowerEnumerator, Twin.field?_left twins "name",
    Twin.field?_right twins "name"]
  cases Twin.field? twins "name" with
  | none => exact sim.nothing
  | some twin =>
      dsimp only [Option.map_some]
      rw [twin.label_eq]
      refine sim.after (.pushDefined _ _ _) fun id => ?_
      exact sim.after (.changeNames _) fun _ => sim.lowerField "value" id twins

/-! ### Preprocessing -/

theorem lowerMacroDefinition (source : Source) (parent : NodeId) :
    sim.Respects fun parts => lowerMacroDefinition source parts parent := by
  intro twins
  dsimp only
  rw [Lowering.lowerMacroDefinition, Lowering.lowerMacroDefinition]
  split
  · refine sim.forField (fun twin => ?_) "name" twins
    dsimp only
    rw [twin.label_eq]
    exact sim.after (.pushDefined _ _ _) fun id => sim.quiet (.changeNames _)
  · exact sim.nothing

theorem lowerInclusion (source : Source) (label : Label) (parent : NodeId) :
    sim.Respects fun parts => lowerInclusion source label parts parent := by
  intro twins
  dsimp only
  rw [Lowering.lowerInclusion, Lowering.lowerInclusion]
  split
  · refine sim.forField (fun twin => ?_) "path" twins
    dsimp only
    rw [twin.label_eq]
    refine sim.after (.push _ _ _) fun id => ?_
    split
    · exact sim.nothing
    · exact sim.quiet (.changeTree _)
  · exact sim.nothing

theorem lowerConditional (source : Source) (label : Label) (parent : NodeId) :
    sim.Respects fun parts => lowerConditional source label parts parent := by
  intro twins
  refine sim.after (.push _ _ _) fun id => ?_
  rw [Twin.eraseP_left, Twin.eraseP_right]
  exact sim.lowerNamed id _

/-! ### Expressions -/

theorem lowerArguments (parent : NodeId) :
    sim.Respects fun parts => lowerArguments parts parent :=
  sim.forField (fun twin => twin.lowerContents parent) "arguments"

theorem lowerFunctionCall (source : Source) (label : Label) (parent : NodeId) :
    sim.Respects fun parts => lowerFunctionCall source label parts parent := by
  intro twins
  have hcallee : ∀ twin : Twin sim, calleeName? twin.right = calleeName? twin.left := by
    intro twin
    rw [calleeName?, calleeName?, twin.label_eq, twin.member?_eq]
  dsimp only
  rw [Lowering.lowerFunctionCall, Lowering.lowerFunctionCall, Twin.bind_field? _ hcallee]
  refine sim.after (.push _ _ _) fun id => ?_
  refine sim.afterIf (.refer _ _) fun _ => ?_
  exact sim.bind (sim.lowerField "function" id twins) fun _ => sim.lowerArguments id twins

theorem lowerCall (source : Source) (label : Label) (parent : NodeId) :
    sim.Respects fun parts => lowerCall source label parts parent := by
  intro twins
  have hcall := sim.lowerFunctionCall source label parent twins
  dsimp only at hcall ⊢
  rw [Lowering.lowerCall, Lowering.lowerCall, Twin.field?_left twins "function",
    Twin.field?_right twins "function"]
  cases Twin.field? twins "function" with
  | none => exact hcall
  | some twin =>
      rw [Option.map_some, Option.map_some, Option.filter_some, Option.filter_some, twin.label_eq]
      cases twin.left.label.kind == "identifier" with
      | false => exact hcall
      | true =>
          simp only [if_true, twin.label_eq]
          refine sim.after (.macro? _) fun meant => ?_
          cases meant with
          | none => exact hcall
          | some target =>
              exact sim.after (.lowerExpansion _ _ _) fun id => sim.lowerArguments id twins

theorem lowerMember (source : Source) (label : Label) (parent : NodeId) :
    sim.Respects fun parts => lowerMember source label parts parent := by
  intro twins
  dsimp only
  rw [Lowering.lowerMember, Lowering.lowerMember, Twin.label_field?]
  refine sim.after (.push _ _ _) fun id => ?_
  exact sim.afterIf (.refer _ _) fun _ => sim.lowerField "argument" id twins

theorem lowerIdentifier (source : Source) (label : Label) (parent : NodeId) :
    sim.related (lowerIdentifier source label parent) (lowerIdentifier source label parent) := by
  refine sim.after (.macro? _) fun meant => ?_
  cases meant with
  | some target => exact sim.after (.lowerExpansion _ _ _) fun _ => sim.nothing
  | none => exact sim.after (.push _ _ _) fun id => sim.quiet (.refer _ _)

theorem lowerOther (source : Source) (label : Label) (parent : NodeId) :
    sim.Respects fun parts => lowerOther source label parts parent :=
  fun twins => sim.after (.push _ _ _) fun id => sim.lowerNamed id twins

theorem lowerBlock (source : Source) (label : Label) (parent : NodeId) :
    sim.Respects fun parts => lowerBlock source label parts parent :=
  fun twins => sim.after (.push _ _ _) fun id => sim.inScope (sim.lowerNamed id twins)

/-! ### All forms -/

theorem lowerNode (source : Source) (place : Place) (label : Label) (parent : NodeId) :
    sim.Respects fun parts => lowerNode source place label parts parent := by
  intro twins
  dsimp only
  rw [Lowering.lowerNode, Lowering.lowerNode]
  cases Form.ofKind label.kind with
  | functionDefinition => exact sim.lowerFunctionDefinition source label parent twins
  | declaration => exact sim.lowerDeclaration (sim.lowerDeclared source) parent twins
  | memberDeclaration => exact sim.lowerDeclaration (sim.lowerMemberDeclared source) parent twins
  | parameter => exact sim.lowerParameter source label parent twins
  | typeDefinition => exact sim.lowerDeclaration (sim.lowerTypedefDeclared source) parent twins
  | record => exact sim.lowerSpecifier source .record place.asType label parent twins
  | enumeration => exact sim.lowerSpecifier source .enumeration place.asType label parent twins
  | enumerator => exact sim.lowerEnumerator source parent twins
  | macroDefinition => exact sim.lowerMacroDefinition source parent twins
  | inclusion => exact sim.lowerInclusion source label parent twins
  | conditional => exact sim.lowerConditional source label parent twins
  | call => exact sim.lowerCall source label parent twins
  | member => exact sim.lowerMember source label parent twins
  | identifier =>
      dsimp only
      split
      · exact sim.nothing
      · exact sim.lowerIdentifier source label parent
  | typeName => exact sim.after (.push _ _ _) fun id => sim.quiet (.refer _ _)
  | block => exact sim.lowerBlock source label parent twins
  | other => exact sim.lowerOther source label parent twins

end Simulation

/-! ## The recursion over the parse tree -/

/-- The meaning of a parse tree in two lowerings, which differ in the passes only. -/
structure Simulation.Alike (sim : Simulation first second) (left right : Meaning) : Prop where
  label_eq : right.label = left.label
  name?_eq : right.name? = left.name?
  declaresFunction_eq : right.declaresFunction = left.declaresFunction
  member?_eq : right.member? = left.member?
  lower : ∀ place parent, sim.related (left.lower place parent) (right.lower place parent)
  lowerDeclarator : ∀ parent,
    sim.related (left.lowerDeclarator parent) (right.lowerDeclarator parent)
  lowerContents : ∀ parent, sim.related (left.lowerContents parent) (right.lowerContents parent)

namespace Simulation.Alike

variable {left right : Meaning} {lefts rights : List Meaning}

/-- A parse tree in its place. -/
def twin (halike : sim.Alike left right) (place : Place) : Twin sim where
  left := left.at place
  right := right.at place
  label_eq := halike.label_eq
  name?_eq := halike.name?_eq
  declaresFunction_eq := halike.declaresFunction_eq
  member?_eq := halike.member?_eq
  lower := halike.lower place
  lowerDeclarator := halike.lowerDeclarator
  lowerContents := halike.lowerContents

theorem fills_eq (halike : sim.Alike left right) (field : String) :
    right.fills field = left.fills field := by
  rw [Meaning.fills, Meaning.fills, halike.label_eq]

theorem usesType_eq (hchildren : List.Forall₂ sim.Alike lefts rights) (label : Label) :
    usesType label rights = usesType label lefts := by
  have hany : (rights.any fun child => child.fills "declarator") =
      lefts.any fun child => child.fills "declarator" := by
    induction hchildren with
    | nil => rfl
    | cons halike _ ih => rw [List.any_cons, List.any_cons, halike.fills_eq, ih]
  rw [usesType, usesType, hany]

/-- Children stand in the same places in both lowerings. -/
theorem exists_twins (hchildren : List.Forall₂ sim.Alike lefts rights) (label : Label)
    (usesType : Bool) :
    ∃ twins : List (Twin sim), placeChildren label usesType lefts = twins.map Twin.left ∧
      placeChildren label usesType rights = twins.map Twin.right := by
  induction hchildren generalizing usesType with
  | nil => exact ⟨[], rfl, rfl⟩
  | @cons left right lefts rights halike _ ih =>
      obtain ⟨twins, hlefts, hrights⟩ := ih (usesType && !left.fills "type")
      refine ⟨halike.twin ⟨label.kind == "preproc_defined", left.fills "type" && usesType⟩ :: twins,
        ?_, ?_⟩
      · rw [placeChildren, hlefts]
        rfl
      · rw [placeChildren, halike.fills_eq, hrights]
        rfl

theorem ofNodeBy (hchildren : List.Forall₂ sim.Alike lefts rights) (source : Source)
    (label : Label) :
    sim.Alike (Meaning.ofNodeBy first source label lefts)
      (Meaning.ofNodeBy second source label rights) := by
  obtain ⟨twins, hlefts, hrights⟩ := exists_twins hchildren label (usesType label lefts)
  rw [Meaning.ofNodeBy, Meaning.ofNodeBy, usesType_eq hchildren, hlefts, hrights]
  refine ⟨rfl, sim.declaredName?_eq twins label, sim.declaresFunction_eq twins label,
    Twin.label_field? twins "field", fun place parent => ?_, fun parent => ?_,
    fun parent => sim.lowerNamed parent twins⟩
  · dsimp only
    split
    · exact sim.level (sim.lowerNode source place label parent twins)
    · exact sim.nothing
  · exact sim.level (sim.lowerDeclarator label parent twins)

end Simulation.Alike

mutual

/-- Two lowerings of a parse tree are related if what they do around each node is. -/
theorem Simulation.meaningBy (sim : Simulation first second) (source : Source) (tree : ParseTree) :
    sim.Alike (meaningBy first source tree) (meaningBy second source tree) := by
  cases tree with
  | node label children => exact .ofNodeBy (sim.meaningsBy source children) source label

theorem Simulation.meaningsBy (sim : Simulation first second) (source : Source)
    (trees : List ParseTree) :
    List.Forall₂ sim.Alike (meaningsBy first source trees) (meaningsBy second source trees) := by
  cases trees with
  | nil => exact .nil
  | cons tree rest => exact .cons (sim.meaningBy source tree) (sim.meaningsBy source rest)

end

end Twins

end Lowering
end SourceIndex
