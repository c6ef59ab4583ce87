import SourceIndex.Lowering.Basic
import SourceIndex.Proofs.Cursor.Tree

/-!
# What a lowering can do

The rules of `SourceIndex.Lowering.Rules` are many and call each other through
the parse tree.  This module says once what they can do to the state, so that an
invariant of lowerings is proved without looking at a rule again:

* `Entry` lists the sorts of cursors a rule can add, and `Entry.enter` is the
  state after one has been added, names and references included;
* `Builds source origin parent state after` derives the state after a piece of the
  file has been lowered below `parent`: cursors are entered below `parent`, each
  followed by what is built below it, scopes are opened and closed, and levels of
  nesting are entered, left or refused;
* `Derives source origin parent state after` is the same with every scope tied to
  the cursor it belongs to.

The main statements are `derives_run` and `builds_run`: the state after a whole file is
derived from the first one below the root.  All that a derivation says about the parse
tree is that each cursor has an `origin`; it does NOT say in which order the parse tree
is walked.
-/

namespace SourceIndex
namespace Lowering

/-! ## Changes of the state -/

namespace State

/-- The node a name means in an open scope, if names of its space are looked for
there. -/
def answer? (state : State) (space : Space) (name : String) : Option NodeId :=
  if space.seesLocals then state.local? name else none

/-- Gives a name to a variable or parameter. -/
def declare (state : State) (name : String) (id : NodeId) : State :=
  match state.scopes with
  | scope :: outer => { state with scopes := ((name, id) :: scope) :: outer }
  | [] => { state with names := { state.names with globals := state.names.globals.push (name, id) } }

/-- Opens a scope. -/
def openScope (state : State) : State :=
  { state with scopes := [] :: state.scopes }

/-- Closes the innermost scope. -/
def closeScope (state : State) : State :=
  { state with scopes := state.scopes.tail }

/-- Whether no level can be entered any more. -/
def isFull (state : State) (limit : Option Nat) : Bool :=
  state.tooDeep || exceeds limit state.depth

/-- Enters a level. -/
def deeper (state : State) : State :=
  { state with depth := state.depth + 1, deepest := max state.deepest (state.depth + 1) }

/-- Leaves a level. -/
def shallower (state : State) : State :=
  { state with depth := state.depth - 1 }

/-- Notes that a level could not be entered. -/
def refuse (state : State) : State :=
  { state with tooDeep := true }

@[simp] theorem tree_declare (state : State) (name : String) (id : NodeId) :
    (state.declare name id).tree = state.tree := by
  unfold declare
  split <;> rfl

end State

/-! ## Cursors -/

/-- A cursor that a rule adds, with all that is entered for it.  A `name` is the
name under which the cursor is entered or looked up. -/
inductive Entry where
  | functionDefinition (name : String)
  | prototype (name : String)
  | variable (name : String)
  | parameter (name : String)
  | field (name : String)
  | typedef (name : String)
  | tagDefinition (kind : CursorKind) (name : String)
  | tagDeclaration (kind : CursorKind) (name : String)
  | tagRef (keyword name : String)
  | enumerator (name : String)
  | macroDefinition (name : String)
  | inclusion (spelling : String) (angled : Bool)
  | expansion (name : String) (target : NodeId)
  /-- A call; `callee` is the kind of the parse tree node that names the function. -/
  | call (callee : Option String) (name : String)
  | member (name : String)
  | valueRef (name : String)
  | typeName (name : String)
  /-- A cursor without a name, of a kind that the index does not distinguish. -/
  | other (kind : String)
  deriving DecidableEq, Repr

namespace Entry

/-- The kind of the cursor. -/
def kind : Entry → CursorKind
  | .functionDefinition _ | .prototype _ => .function
  | .variable _ => .variable
  | .parameter _ => .parameter
  | .field _ => .field
  | .typedef _ => .typedef
  | .tagDefinition kind _ | .tagDeclaration kind _ => kind
  | .tagRef _ _ | .typeName _ => .typeRef
  | .enumerator _ => .enumerator
  | .macroDefinition _ => .macroDefinition
  | .inclusion _ _ => .inclusion
  | .expansion _ _ => .macroExpansion
  | .call _ _ => .call
  | .member _ => .memberRef
  | .valueRef _ => .valueRef
  | .other kind => .unexposed kind

/-- The spelling of the cursor. -/
def spelling : Entry → String
  | .functionDefinition name | .prototype name | .variable name | .parameter name | .field name
  | .typedef name | .tagDefinition _ name | .tagDeclaration _ name | .enumerator name
  | .macroDefinition name | .expansion name _ | .call _ name | .member name | .valueRef name
  | .typeName name => name
  | .tagRef keyword name => keyword ++ " " ++ name
  | .inclusion spelling _ => spelling
  | .other _ => ""

/-- Whether the cursor is its own definition. -/
def isDefinition : Entry → Bool
  | .functionDefinition _ | .field _ | .typedef _ | .tagDefinition _ _ | .enumerator _
  | .macroDefinition _ => true
  | _ => false

/-- The name that the cursor refers to and the space in which it is looked up. -/
def sought? : Entry → Option (Space × String)
  | .tagRef _ name => some (.tag, name)
  | .call _ name => if name == "" then none else some (.call, name)
  | .member name => if name == "" then none else some (.field, name)
  | .valueRef name => some (.value, name)
  | .typeName name => some (.type, name)
  | _ => none

/-- The name that the cursor gives to a variable or parameter. -/
def declared? : Entry → Option String
  | .variable name => some name
  | .parameter name => if name == "" then none else some name
  | _ => none

/-- The names of the file once the cursor has been entered at `id`. -/
def addTo (id : NodeId) (names : FileNames) : Entry → FileNames
  | .functionDefinition name =>
    if name == "" then names else { names with functionDefs := names.functionDefs.push (name, id) }
  | .prototype name => { names with functionDecls := names.functionDecls.push (name, id) }
  | .field name => { names with fields := names.fields.push (name, id) }
  | .typedef name => { names with typedefs := names.typedefs.push (name, id) }
  | .tagDefinition _ name =>
    if name == "" then names else { names with tagDefs := names.tagDefs.push (name, id) }
  | .tagDeclaration _ name =>
    if name == "" then names else { names with tagDecls := names.tagDecls.push (name, id) }
  | .enumerator name => { names with enumerators := names.enumerators.push (name, id) }
  | .macroDefinition name => { names with macros := (name, id) :: names.macros }
  | _ => names

/-- The file that an inclusion brings in. -/
def includedFile? (source : Source) : Entry → Option String
  | .inclusion spelling angled => source.includeTarget spelling angled
  | _ => none

/-- The cursor that the new cursor refers to at once: what its name means in an
open scope, or the macro it uses. -/
def target? (state : State) : Entry → Option NodeId
  | .expansion _ target => some target
  | entry => entry.sought?.bind fun sought => state.answer? sought.1 sought.2

/-- The new cursor, complete but for its children. -/
def node (source : Source) (state : State) (place : Label) (entry : Entry) : Node where
  kind := entry.kind
  spelling := entry.spelling
  location := source.location place
  definition := if entry.isDefinition then some state.tree.size else none
  referenced := entry.target? state
  includedFile := entry.includedFile? source

/-- The references that wait once the cursor has been entered: one without an
answer waits. -/
def pending (state : State) (entry : Entry) : List Pending :=
  match entry.sought? with
  | none => state.pending
  | some (space, name) =>
    match state.answer? space name with
    | some _ => state.pending
    | none => { id := state.tree.size, space, name } :: state.pending

/-- The state once the cursor has been entered below `parent`. -/
def enter (source : Source) (place : Label) (parent : NodeId) (state : State) (entry : Entry) :
    State :=
  let entered := { state with
    tree := state.tree.push parent (entry.node source state place)
    names := entry.addTo state.tree.size state.names
    pending := entry.pending state }
  match entry.declared? with
  | none => entered
  | some name => entered.declare name state.tree.size

/-- Whether what stands below the cursor is in a scope of its own. -/
def opensScope : Entry → Bool
  | .functionDefinition _ | .prototype _ | .typedef _ => true
  | .other kind => kind == "compound_statement"
  | _ => false

/-- When a rule may add a cursor.  Macros count only if preprocessing is kept, and
then a name that is a macro is neither a value nor the function of a call. -/
def Allowed (source : Source) (state : State) : Entry → Prop
  | .tagDefinition kind _ | .tagDeclaration kind _ => kind = .record ∨ kind = .enumeration
  | .macroDefinition _ | .inclusion _ _ => source.options.detailedPreprocessing = true
  | .expansion name target =>
    source.options.detailedPreprocessing = true ∧ state.names.macros.lookup name = some target
  | .valueRef name =>
    source.options.detailedPreprocessing = true → state.names.macros.lookup name = none
  | .call callee name =>
    callee = some "identifier" → source.options.detailedPreprocessing = true →
      state.names.macros.lookup name = none
  | _ => True

end Entry

/-! ## Derivations -/

/-- What can be built below a cursor, if `origin` tells which cursors may be added
for which places of the file. -/
inductive Builds (source : Source) (origin : Entry → Label → Prop) : NodeId → State → State → Prop
  | nothing (parent : NodeId) (state : State) : Builds source origin parent state state
  | andThen {parent : NodeId} {state between after : State}
      (hfirst : Builds source origin parent state between)
      (hthen : Builds source origin parent between after) :
      Builds source origin parent state after
  | cursor {parent : NodeId} {state after : State} {entry : Entry} {place : Label}
      (horigin : origin entry place) (hallowed : entry.Allowed source state)
      (hbelow : Builds source origin state.tree.size (entry.enter source place parent state)
        after) :
      Builds source origin parent state after
  | scope {parent : NodeId} {state after : State}
      (hinside : Builds source origin parent state.openScope after) :
      Builds source origin parent state after.closeScope
  | level {parent : NodeId} {state after : State} (hroom : state.isFull source.limit = false)
      (hinside : Builds source origin parent state.deeper after) :
      Builds source origin parent state after.shallower
  | refusal {parent : NodeId} {state : State} (hfull : state.isFull source.limit = true) :
      Builds source origin parent state state.refuse

/-- Which cursors may be added for which places of the file, and which of them may come
from the type of a function with a body. -/
structure Origin where
  whole : Entry → Label → Prop
  inType : Entry → Label → Prop

/-- The origin of what stands in the type of a function with a body. -/
def Origin.typed (origin : Origin) : Origin where
  whole := fun entry place => origin.whole entry place ∧ origin.inType entry place
  inType := origin.inType

/-- What can be built below a cursor, with every scope tied to the cursor it belongs to.
All that is built below such a cursor is in its scope, but for the type of a function with
a body, which is built before the scope is opened. -/
inductive Derives (source : Source) : Origin → NodeId → State → State → Prop
  | nothing {origin : Origin} (parent : NodeId) (state : State) :
      Derives source origin parent state state
  | andThen {origin : Origin} {parent : NodeId} {state between after : State}
      (hfirst : Derives source origin parent state between)
      (hthen : Derives source origin parent between after) :
      Derives source origin parent state after
  | cursor {origin : Origin} {parent : NodeId} {state after : State} {entry : Entry}
      {place : Label} (horigin : origin.whole entry place)
      (hallowed : entry.Allowed source state) (hplain : entry.opensScope = false)
      (hbelow : Derives source origin state.tree.size (entry.enter source place parent state)
        after) :
      Derives source origin parent state after
  | scope {origin : Origin} {parent : NodeId} {state between after : State} {entry : Entry}
      {place : Label} (horigin : origin.whole entry place)
      (hallowed : entry.Allowed source state) (hopens : entry.opensScope = true)
      (htype : Derives source origin.typed state.tree.size
        (entry.enter source place parent state) between)
      (honly : (∃ name, entry = .functionDefinition name) ∨
        between = entry.enter source place parent state)
      (hinside : Derives source origin state.tree.size between.openScope after) :
      Derives source origin parent state after.closeScope
  | level {origin : Origin} {parent : NodeId} {state after : State}
      (hroom : state.isFull source.limit = false)
      (hinside : Derives source origin parent state.deeper after) :
      Derives source origin parent state after.shallower
  | refusal {origin : Origin} {parent : NodeId} {state : State}
      (hfull : state.isFull source.limit = true) : Derives source origin parent state state.refuse

@[simp] theorem Entry.tree_enter (source : Source) (place : Label) (parent : NodeId)
    (state : State) (entry : Entry) :
    (entry.enter source place parent state).tree =
      state.tree.push parent (entry.node source state place) := by
  unfold Entry.enter
  cases entry.declared? with
  | none => rfl
  | some name => exact State.tree_declare _ name _

theorem Entry.size_enter (source : Source) (place : Label) (parent : NodeId)
    (state : State) (entry : Entry) :
    (entry.enter source place parent state).tree.size = state.tree.size + 1 := by
  simp

theorem Entry.lt_size_enter (source : Source) (place : Label) (parent : NodeId)
    (state : State) (entry : Entry) :
    state.tree.size < (entry.enter source place parent state).tree.size := by
  rw [Entry.size_enter]
  exact Nat.lt_succ_self _

/-- Cursors are never taken away. -/
theorem Builds.size_le {source : Source} {origin : Entry → Label → Prop} {parent : NodeId}
    {state after : State} (hbuilds : Builds source origin parent state after) :
    state.tree.size ≤ after.tree.size := by
  induction hbuilds with
  | nothing => exact Nat.le_refl _
  | andThen _ _ ihfirst ihthen => exact Nat.le_trans ihfirst ihthen
  | cursor _ _ _ ih =>
      rw [Entry.size_enter] at ih
      exact Nat.le_of_succ_le ih
  | scope _ ih => exact ih
  | level _ _ ih => exact ih
  | refusal => exact Nat.le_refl _

theorem Builds.mono {source : Source} {origin wider : Entry → Label → Prop} {parent : NodeId}
    {state after : State} (hbuilds : Builds source origin parent state after)
    (hwider : ∀ {entry place}, origin entry place → wider entry place) :
    Builds source wider parent state after := by
  induction hbuilds with
  | nothing parent state => exact .nothing parent state
  | andThen _ _ ihfirst ihthen => exact .andThen ihfirst ihthen
  | cursor horigin hallowed _ ih => exact .cursor (hwider horigin) hallowed ih
  | scope _ ih => exact .scope ih
  | level hroom _ ih => exact .level hroom ih
  | refusal hfull => exact .refusal hfull

/-- Without the cursors that scopes belong to. -/
theorem Derives.builds {source : Source} {origin : Origin} {parent : NodeId}
    {state after : State} (hderives : Derives source origin parent state after) :
    Builds source origin.whole parent state after := by
  induction hderives with
  | nothing parent state => exact .nothing parent state
  | andThen _ _ ihfirst ihthen => exact .andThen ihfirst ihthen
  | cursor horigin hallowed _ _ ih => exact .cursor horigin hallowed ih
  | scope horigin hallowed _ _ _ _ ihtype ihinside =>
      exact .cursor horigin hallowed (.andThen (ihtype.mono And.left) (.scope ihinside))
  | level hroom _ ih => exact .level hroom ih
  | refusal hfull => exact .refusal hfull

end Lowering
end SourceIndex
