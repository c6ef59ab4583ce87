import SourceIndex.Lowering.State

/-!
# Lowering rules

A rule lowers one form of parse tree node.  It does not see the children of the
node as trees but as parts: a part says what the rules ask about a child (its
label, the name it declares, whether it declares a function, the member it
names) and how the child is lowered.  So no rule is recursive; the recursion over
the parse tree is in `SourceIndex.Lowering.Basic` alone.
-/

namespace SourceIndex
namespace Lowering

/-- A child of a node as the rules see it. -/
structure Part where
  label : Label
  /-- The identifier that the child declares when read as a declarator. -/
  name? : Option Label
  /-- Whether the child declares a function when read as a declarator. -/
  declaresFunction : Bool
  /-- The member that the child selects when read as a member access. -/
  member? : Option Label
  /-- Lowers the child below a cursor. -/
  lower : NodeId → Pass PUnit
  /-- Lowers the child as a declarator: all of it but the declared name. -/
  lowerDeclarator : NodeId → Pass PUnit
  /-- Lowers the children of the child. -/
  lowerContents : NodeId → Pass PUnit

/-- Whether a part fills a field. -/
def Part.fills (part : Part) (field : String) : Bool :=
  part.label.field == some field

/-- The first part that fills a field. -/
def field? (parts : List Part) (field : String) : Option Part :=
  parts.find? fun part => part.fills field

/-- Lowers parts from left to right. -/
def lowerAll (parent : NodeId) : List Part → Pass PUnit
  | [] => pure ()
  | part :: rest => do
    part.lower parent
    lowerAll parent rest

/-- Lowers the named parts from left to right. -/
def lowerNamed (parts : List Part) (parent : NodeId) : Pass PUnit :=
  lowerAll parent (parts.filter fun part => part.label.named)

/-- Lowers the part that fills a field, if there is one. -/
def lowerField (parts : List Part) (field : String) (parent : NodeId) : Pass PUnit :=
  match field? parts field with
  | none => pure ()
  | some part => part.lower parent

/-! ## Declarators -/

/-- The kinds of nodes that spell a declared name. -/
def isNameKind (kind : String) : Bool :=
  ["identifier", "field_identifier", "type_identifier", "qualified_identifier",
    "destructor_name", "operator_name"].contains kind

/-- The kinds of nodes that can be part of a declarator. -/
def isDeclaratorKind (kind : String) : Bool :=
  "_declarator".toList.isSuffixOf kind.toList || isNameKind kind

/-- The declarator inside a declarator. -/
def innerDeclarator? (parts : List Part) : Option Part :=
  (field? parts "declarator").or
    (parts.find? fun part => part.label.named && isDeclaratorKind part.label.kind)

/-- The identifier that a declarator declares, behind pointers, arrays,
parentheses and initial values. -/
def declaredName? (label : Label) (parts : List Part) : Option Label :=
  if isNameKind label.kind then some label
  else (innerDeclarator? parts).bind fun part => part.name?

/-- Whether a declarator declares a function and not an object such as a pointer
to a function. -/
def declaresFunction (label : Label) (parts : List Part) : Bool :=
  match label.kind with
  | "function_declarator" =>
    (field? parts "declarator").any fun part => part.label.kind != "parenthesized_declarator"
  | "pointer_declarator" | "reference_declarator" | "attributed_declarator" =>
    (innerDeclarator? parts).any fun part => part.declaresFunction
  | _ => false

/-- Lowers the declarator that fills a field, if there is one. -/
def lowerDeclaratorField (parts : List Part) (parent : NodeId) : Pass PUnit :=
  match field? parts "declarator" with
  | none => pure ()
  | some part => part.lowerDeclarator parent

/-- Lowers parts of a declarator from left to right. -/
def lowerDeclaratorParts (parent : NodeId) : List Part → Pass PUnit
  | [] => pure ()
  | part :: rest => do
    if isDeclaratorKind part.label.kind then part.lowerDeclarator parent else part.lower parent
    lowerDeclaratorParts parent rest

/-- Lowers all of a declarator but the declared name. -/
def lowerDeclarator (label : Label) (parts : List Part) (parent : NodeId) : Pass PUnit :=
  if isNameKind label.kind then pure ()
  else
    match label.kind with
    | "function_declarator" => do
      lowerDeclaratorField parts parent
      match field? parts "parameters" with
      | none => pure ()
      | some parameters => parameters.lowerContents parent
    | "init_declarator" => do
      lowerDeclaratorField parts parent
      lowerField parts "value" parent
    | _ => lowerDeclaratorParts parent (parts.filter fun part => part.label.named)

/-! ## Declarations -/

/-- A function with a body. -/
def lowerFunctionDefinition (source : Source) (label : Label) (parts : List Part)
    (parent : NodeId) : Pass PUnit := do
  let name? := (field? parts "declarator").bind fun part => part.name?
  let name := (name?.map source.text).getD ""
  let id ← pushDefined source parent .function name (name?.getD label)
  if name != "" then
    changeNames fun names => { names with functionDefs := names.functionDefs.push (name, id) }
  lowerField parts "type" id
  inScope do
    lowerDeclaratorField parts id
    if !source.options.skipFunctionBodies then
      lowerField parts "body" id

/-- A declarator of a function without a body. -/
def lowerPrototype (source : Source) (declarator : Part) (nameLabel : Label)
    (parent : NodeId) : Pass PUnit := do
  let name := source.text nameLabel
  let id ← push source parent .function name nameLabel
  changeNames fun names => { names with functionDecls := names.functionDecls.push (name, id) }
  inScope (declarator.lowerDeclarator id)

/-- One declarator of a declaration of functions and variables. -/
def lowerDeclared (source : Source) (declarator : Part) (parent : NodeId) : Pass PUnit :=
  match declarator.name? with
  | none => declarator.lower parent
  | some nameLabel =>
    if declarator.declaresFunction then lowerPrototype source declarator nameLabel parent
    else do
      let name := source.text nameLabel
      let id ← push source parent .variable name nameLabel
      declareValue name id
      declarator.lowerDeclarator id

/-- One declarator of a declaration of members. -/
def lowerMemberDeclared (source : Source) (declarator : Part) (parent : NodeId) : Pass PUnit :=
  match declarator.name? with
  | none => pure ()
  | some nameLabel =>
    if declarator.declaresFunction then lowerPrototype source declarator nameLabel parent
    else do
      let name := source.text nameLabel
      let id ← pushDefined source parent .field name nameLabel
      changeNames fun names => { names with fields := names.fields.push (name, id) }
      declarator.lowerDeclarator id

/-- One declarator of a type definition. -/
def lowerTypedefDeclared (source : Source) (declarator : Part) (parent : NodeId) : Pass PUnit :=
  match declarator.name? with
  | none => pure ()
  | some nameLabel => do
    let name := source.text nameLabel
    let id ← pushDefined source parent .typedef name nameLabel
    changeNames fun names => { names with typedefs := names.typedefs.push (name, id) }
    inScope (declarator.lowerDeclarator id)

/-- Applies a rule to declarators from left to right. -/
def lowerEach (rule : Part → NodeId → Pass PUnit) (parent : NodeId) : List Part → Pass PUnit
  | [] => pure ()
  | part :: rest => do
    rule part parent
    lowerEach rule parent rest

/-- A type followed by declarators. -/
def lowerDeclaration (rule : Part → NodeId → Pass PUnit) (parts : List Part)
    (parent : NodeId) : Pass PUnit := do
  lowerField parts "type" parent
  lowerEach rule parent (parts.filter fun part => part.fills "declarator")

/-- A parameter of a function. -/
def lowerParameter (source : Source) (label : Label) (parts : List Part)
    (parent : NodeId) : Pass PUnit := do
  let name? := (field? parts "declarator").bind fun part => part.name?
  let name := (name?.map source.text).getD ""
  let id ← push source parent .parameter name (name?.getD label)
  if name != "" then
    declareValue name id
  lowerField parts "type" id
  lowerDeclaratorField parts id
  lowerField parts "default_value" id

/-! ## Tags -/

/-- The keyword of a specifier: its kind without `_specifier` at the end. -/
def specifierKeyword (kind : String) : String :=
  match kind with
  | "struct_specifier" => "struct"
  | "union_specifier" => "union"
  | "class_specifier" => "class"
  | "enum_specifier" => "enum"
  | _ => kind

/-- A tag that names a type. -/
def lowerTagRef (source : Source) (label : Label) (nameLabel : Label) (parent : NodeId) :
    Pass PUnit := do
  let name := source.text nameLabel
  let id ← push source parent .typeRef (specifierKeyword label.kind ++ " " ++ name) nameLabel
  refer id .tag name

/-- A `struct`, `union`, `class` or `enum` specifier: with a body it defines the
tag, without one it names a type if it stands where a type is used, and declares
the tag otherwise. -/
def lowerSpecifier (source : Source) (kind : CursorKind) (asType : Bool) (label : Label)
    (parts : List Part) (parent : NodeId) : Pass PUnit := do
  let name? := (field? parts "name").map fun part => part.label
  let name := (name?.map source.text).getD ""
  match field? parts "body" with
  | some body =>
    let id ← pushDefined source parent kind name (name?.getD label)
    if name != "" then
      changeNames fun names => { names with tagDefs := names.tagDefs.push (name, id) }
    body.lowerContents id
  | none =>
    if asType then
      match name? with
      | none => pure ()
      | some nameLabel => lowerTagRef source label nameLabel parent
    else
      let id ← push source parent kind name (name?.getD label)
      if name != "" then
        changeNames fun names => { names with tagDecls := names.tagDecls.push (name, id) }

/-- An enumerator. -/
def lowerEnumerator (source : Source) (parts : List Part) (parent : NodeId) : Pass PUnit :=
  match field? parts "name" with
  | none => pure ()
  | some namePart => do
    let name := source.text namePart.label
    let id ← pushDefined source parent .enumerator name namePart.label
    changeNames fun names => { names with enumerators := names.enumerators.push (name, id) }
    lowerField parts "value" id

/-! ## Preprocessing -/

/-- A macro definition. -/
def lowerMacroDefinition (source : Source) (parts : List Part) (parent : NodeId) : Pass PUnit :=
  if source.options.detailedPreprocessing then
    match field? parts "name" with
    | none => pure ()
    | some namePart => do
      let name := source.text namePart.label
      let id ← pushDefined source parent .macroDefinition name namePart.label
      changeNames fun names => { names with macros := (name, id) :: names.macros }
  else pure ()

/-- The marks around the file of an inclusion. -/
def isIncludeMark (c : Char) : Bool :=
  c == '"' || c == '<' || c == '>'

/-- A text without the marks at its ends. -/
def trimIncludeMarks (text : String) : String :=
  String.ofList ((text.toList.dropWhile isIncludeMark).reverse.dropWhile isIncludeMark).reverse

/-- An inclusion. -/
def lowerInclusion (source : Source) (label : Label) (parts : List Part)
    (parent : NodeId) : Pass PUnit :=
  if source.options.detailedPreprocessing then
    match field? parts "path" with
    | none => pure ()
    | some path => do
      let spelling := trimIncludeMarks (source.text path.label)
      let id ← push source parent .inclusion spelling label
      match source.includeTarget spelling (path.label.kind == "system_lib_string") with
      | none => pure ()
      | some file => changeTree fun tree => tree.setIncludedFile id file
  else pure ()

/-- A part of the file that depends on a macro: the name of the macro is not an
expansion of it. -/
def lowerConditional (source : Source) (label : Label) (parts : List Part)
    (parent : NodeId) : Pass PUnit := do
  let id ← push source parent (.unexposed label.kind) "" label
  lowerNamed (parts.eraseP fun part => part.fills "name") id

/-! ## Expressions -/

/-- The macro that a name means at this point of the file. -/
def macro? (source : Source) (name : String) : Pass (Option NodeId) := do
  let state ← get
  return if source.options.detailedPreprocessing then state.names.macros.lookup name else none

/-- The use of a macro. -/
def lowerExpansion (source : Source) (name : String) (place : Label) (target : NodeId)
    (parent : NodeId) : Pass NodeId := do
  let id ← push source parent .macroExpansion name place
  changeTree fun tree => tree.setReferenced id target
  return id

/-- The label that spells the function of a call. -/
def calleeName? (callee : Part) : Option Label :=
  match callee.label.kind with
  | "identifier" | "qualified_identifier" => some callee.label
  | "field_expression" => callee.member?
  | _ => none

/-- Lowers the arguments of a call. -/
def lowerArguments (parts : List Part) (parent : NodeId) : Pass PUnit :=
  match field? parts "arguments" with
  | none => pure ()
  | some arguments => arguments.lowerContents parent

/-- A call of a function. -/
def lowerFunctionCall (source : Source) (label : Label) (parts : List Part)
    (parent : NodeId) : Pass PUnit := do
  let name := (((field? parts "function").bind calleeName?).map source.text).getD ""
  let id ← push source parent .call name label
  if name != "" then
    refer id .call name
  lowerField parts "function" id
  lowerArguments parts id

/-- A call, or the use of a macro with arguments. -/
def lowerCall (source : Source) (label : Label) (parts : List Part)
    (parent : NodeId) : Pass PUnit :=
  match (field? parts "function").filter fun callee => callee.label.kind == "identifier" with
  | none => lowerFunctionCall source label parts parent
  | some callee => do
    let name := source.text callee.label
    match ← macro? source name with
    | none => lowerFunctionCall source label parts parent
    | some target =>
      let id ← lowerExpansion source name callee.label target parent
      lowerArguments parts id

/-- A member access. -/
def lowerMember (source : Source) (label : Label) (parts : List Part)
    (parent : NodeId) : Pass PUnit := do
  let field? := (field? parts "field").map fun part => part.label
  let name := (field?.map source.text).getD ""
  let id ← push source parent .memberRef name (field?.getD label)
  if name != "" then
    refer id .field name
  lowerField parts "argument" id

/-- An identifier in an expression. -/
def lowerIdentifier (source : Source) (label : Label) (parent : NodeId) : Pass PUnit := do
  let name := source.text label
  match ← macro? source name with
  | some target =>
    let _ ← lowerExpansion source name label target parent
  | none =>
    let id ← push source parent .valueRef name label
    refer id .value name

/-- A type name. -/
def lowerTypeName (source : Source) (label : Label) (parent : NodeId) : Pass PUnit := do
  let name := source.text label
  let id ← push source parent .typeRef name label
  refer id .type name

/-- A node the index does not distinguish. -/
def lowerOther (source : Source) (label : Label) (parts : List Part) (parent : NodeId) :
    Pass PUnit := do
  let id ← push source parent (.unexposed label.kind) "" label
  lowerNamed parts id

/-- A block, which is a scope. -/
def lowerBlock (source : Source) (label : Label) (parts : List Part) (parent : NodeId) :
    Pass PUnit := do
  let id ← push source parent (.unexposed label.kind) "" label
  inScope (lowerNamed parts id)

/-! ## All forms -/

/-- The forms of nodes that have a rule of their own. -/
inductive Form where
  | functionDefinition
  | declaration
  | memberDeclaration
  | parameter
  | typeDefinition
  | record
  | enumeration
  | enumerator
  | macroDefinition
  | inclusion
  | conditional
  | call
  | member
  | identifier
  | typeName
  | block
  | other
  deriving DecidableEq, Repr

/-- The form of a kind of node. -/
def Form.ofKind : String → Form
  | "function_definition" => .functionDefinition
  | "declaration" => .declaration
  | "field_declaration" => .memberDeclaration
  | "parameter_declaration" | "optional_parameter_declaration" => .parameter
  | "type_definition" => .typeDefinition
  | "struct_specifier" | "union_specifier" | "class_specifier" => .record
  | "enum_specifier" => .enumeration
  | "enumerator" => .enumerator
  | "preproc_def" | "preproc_function_def" => .macroDefinition
  | "preproc_include" => .inclusion
  | "preproc_ifdef" => .conditional
  | "call_expression" => .call
  | "field_expression" => .member
  | "identifier" | "qualified_identifier" => .identifier
  | "type_identifier" => .typeName
  | "compound_statement" => .block
  | _ => .other

/-- What a node has to know about where it stands. -/
structure Place where
  /-- Whether the parent asks if a macro is defined. -/
  underDefined : Bool
  /-- Whether the node is used as the type of its parent. -/
  asType : Bool
  deriving DecidableEq, Repr

/-- Lowers a node by the rule of its form. -/
def lowerNode (source : Source) (place : Place) (label : Label) (parts : List Part)
    (parent : NodeId) : Pass PUnit :=
  match Form.ofKind label.kind with
  | .functionDefinition => lowerFunctionDefinition source label parts parent
  | .declaration => lowerDeclaration (lowerDeclared source) parts parent
  | .memberDeclaration => lowerDeclaration (lowerMemberDeclared source) parts parent
  | .parameter => lowerParameter source label parts parent
  | .typeDefinition => lowerDeclaration (lowerTypedefDeclared source) parts parent
  | .record => lowerSpecifier source .record place.asType label parts parent
  | .enumeration => lowerSpecifier source .enumeration place.asType label parts parent
  | .enumerator => lowerEnumerator source parts parent
  | .macroDefinition => lowerMacroDefinition source parts parent
  | .inclusion => lowerInclusion source label parts parent
  | .conditional => lowerConditional source label parts parent
  | .call => lowerCall source label parts parent
  | .member => lowerMember source label parts parent
  | .identifier => if place.underDefined then pure () else lowerIdentifier source label parent
  | .typeName => lowerTypeName source label parent
  | .block => lowerBlock source label parts parent
  | .other => lowerOther source label parts parent

end Lowering
end SourceIndex
