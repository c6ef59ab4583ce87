import SourceIndex.Lowering.Names
import SourceIndex.Parse.Options
import SourceIndex.Parse.Tree

/-!
# The state of a lowering

Lowering walks a parse tree once and builds a tree of cursors.  Its state is the
tree so far, the open scopes, the names of the file, the references that wait for
the end of the file, and the nesting depth.  The steps that rules are made of are
defined here, so that what a rule can do to the state is what these steps do.
-/

namespace SourceIndex
namespace Lowering

/-- What a lowering reads and never changes. -/
structure Source where
  file : String
  bytes : ByteArray
  /-- The offsets of the line ends, ascending. -/
  lineEnds : List Nat
  options : ParseOptions
  /-- How deep nodes may be nested; no limit if `none`. -/
  limit : Option Nat
  /-- The file that an inclusion of this spelling brings in; the Boolean tells
  angled inclusions. -/
  includeTarget : String → Bool → Option String

/-- The offsets of the line ends of a text. -/
def lineEnds (bytes : ByteArray) : List Nat :=
  (bytes.data.toList.zipIdx.filter fun entry => entry.1 == 10).map Prod.snd

/-- A reference that waits for the end of the file. -/
structure Pending where
  id : NodeId
  space : Space
  name : String
  deriving DecidableEq, Repr

/-- The state of a lowering. -/
structure State where
  tree : CursorTree
  /-- The names of the open scopes, innermost scope first. -/
  scopes : List LastTable := []
  names : FileNames := {}
  pending : List Pending := []
  /-- The number of nodes that are being lowered. -/
  depth : Nat := 0
  /-- The greatest depth so far. -/
  deepest : Nat := 0
  /-- Whether a node was left out because of the limit. -/
  tooDeep : Bool := false

/-- A step of a lowering. -/
abbrev Pass := StateM State

namespace Source

/-- The text of a node; empty if its bytes are not UTF-8. -/
def text (source : Source) (label : Label) : String :=
  (String.fromUTF8? (source.bytes.extract label.start label.stop)).getD ""

/-- Where a node starts. -/
def location (source : Source) (label : Label) : Location :=
  let before := source.lineEnds.takeWhile (· < label.start)
  let lineStart := match before.getLast? with
    | none => 0
    | some lineEnd => lineEnd + 1
  { file := source.file
    line := UInt32.ofNat (before.length + 1)
    column := UInt32.ofNat (label.start - lineStart + 1)
    offset := UInt32.ofNat label.start }

end Source

/-! ## Steps -/

/-- Changes the tree. -/
def changeTree (change : CursorTree → CursorTree) : Pass PUnit :=
  modify fun state => { state with tree := change state.tree }

/-- Changes the names of the file. -/
def changeNames (change : FileNames → FileNames) : Pass PUnit :=
  modify fun state => { state with names := change state.names }

/-- Adds a cursor below `parent` that starts where `place` does. -/
def push (source : Source) (parent : NodeId) (kind : CursorKind) (spelling : String)
    (place : Label) : Pass NodeId := do
  let id := (← get).tree.size
  changeTree fun tree => tree.push parent { kind, spelling, location := source.location place }
  return id

/-- Adds a cursor that is its own definition. -/
def pushDefined (source : Source) (parent : NodeId) (kind : CursorKind) (spelling : String)
    (place : Label) : Pass NodeId := do
  let id ← push source parent kind spelling place
  changeTree fun tree => tree.setDefinition id id
  return id

/-- The node a name means in the open scopes. -/
def State.local? (state : State) (name : String) : Option NodeId :=
  state.scopes.findSome? fun scope => scope.lookup name

/-- Gives a name to a variable or parameter, in the innermost scope or, outside
of all scopes, in the file. -/
def declareValue (name : String) (id : NodeId) : Pass PUnit :=
  modify fun state =>
    match state.scopes with
    | scope :: outer => { state with scopes := ((name, id) :: scope) :: outer }
    | [] => { state with names := { state.names with globals := state.names.globals.push (name, id) } }

/-- Whether names of a space are looked for in the open scopes. -/
def Space.seesLocals : Space → Bool
  | .call | .value => true
  | _ => false

/-- Links a cursor to what `name` means in an open scope, or leaves that to the
end of the file. -/
def refer (id : NodeId) (space : Space) (name : String) : Pass PUnit := do
  let state ← get
  match if space.seesLocals then state.local? name else none with
  | some target => changeTree fun tree => tree.setReferenced id target
  | none => modify fun state => { state with pending := { id, space, name } :: state.pending }

/-- Runs a step in a scope of its own. -/
def inScope (step : Pass PUnit) : Pass PUnit := do
  modify fun state => { state with scopes := [] :: state.scopes }
  step
  modify fun state => { state with scopes := state.scopes.tail }

/-- Whether a node that starts at this depth goes beyond the limit. -/
def exceeds (limit : Option Nat) (depth : Nat) : Bool :=
  match limit with
  | none => false
  | some limit => limit ≤ depth

/-- Runs a step one level deeper.  Beyond the limit, and ever after, the step is
left out. -/
def nested (limit : Option Nat) (step : Pass PUnit) : Pass PUnit := do
  let state ← get
  if state.tooDeep || exceeds limit state.depth then
    modify fun state => { state with tooDeep := true }
  else
    modify fun state =>
      { state with depth := state.depth + 1, deepest := max state.deepest (state.depth + 1) }
    step
    modify fun state => { state with depth := state.depth - 1 }

/-! ## The end of the file -/

/-- Answers the references that waited. -/
def resolvePending (names : FileNames) (pending : List Pending) (tree : CursorTree) : CursorTree :=
  pending.foldr (fun entry tree =>
    match names.lookup entry.space entry.name with
    | some target => tree.setReferenced entry.id target
    | none => tree) tree

/-- Links declarations to the definition of the same name. -/
def linkDeclarations (decls defs : FirstTable) (tree : CursorTree) : CursorTree :=
  decls.foldl (fun tree entry =>
    match defs.find? entry.1 with
    | some target => tree.setDefinition entry.2 target
    | none => tree) tree

/-- The tree once the whole file has been seen. -/
def State.finish (state : State) : CursorTree :=
  let tree := resolvePending state.names state.pending state.tree
  let tree := linkDeclarations state.names.functionDecls state.names.functionDefs tree
  linkDeclarations state.names.tagDecls state.names.tagDefs tree

end Lowering
end SourceIndex
