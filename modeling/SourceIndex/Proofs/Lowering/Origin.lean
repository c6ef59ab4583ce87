import SourceIndex.Proofs.Lowering.Derivation

/-!
# Which node of the parse tree a cursor comes from

`Makes` lists, form by form, the cursors that the rule of a node adds for the node
itself, each with the place where the cursor starts.  Cursors that come from the
children of the node are NOT among them, since each child has a rule of its own;
declarators are the exception, because their cursors are added by the rule of the
declaration they stand in.

A cursor and its place arise from a file (`Arises`) if some node of the parse tree
makes them.
-/

namespace SourceIndex

/-- A tree is a part of a parse tree. -/
inductive ParseTree.Within (tree : ParseTree) : ParseTree → Prop
  | whole : Within tree tree
  | inside {child : ParseTree} {label : Label} {children : List ParseTree}
      (hchild : child ∈ children) (hwithin : Within tree child) :
      Within tree (.node label children)

namespace Lowering

/-- The name in the declarator of a node. -/
def declaratorName? (parts : List Part) : Option Label :=
  (field? parts "declarator").bind fun part => part.name?

/-- The label of the part that fills a field. -/
def fieldLabel? (parts : List Part) (field : String) : Option Label :=
  (field? parts field).map fun part => part.label

/-- The declarators of a declaration. -/
def declarators (parts : List Part) : List Part :=
  parts.filter fun part => part.fills "declarator"

/-- A name that may be left out; it is empty then. -/
def Source.name (source : Source) (label? : Option Label) : String :=
  (label?.map source.text).getD ""

/-- The kind of the cursors of a specifier. -/
def Form.tagKind? : Form → Option CursorKind
  | .record => some .record
  | .enumeration => some .enumeration
  | _ => none

theorem Form.tag_of_tagKind? {form : Form} {kind : CursorKind} (hkind : form.tagKind? = some kind) :
    kind = .record ∨ kind = .enumeration := by
  cases form <;> simp_all [Form.tagKind?]

/-- The cursors that a node makes, and where they start. -/
inductive Makes (source : Source) (label : Label) (parts : List Part) : Entry → Label → Prop
  | functionDefinition (hform : Form.ofKind label.kind = .functionDefinition) :
      Makes source label parts (.functionDefinition (source.name (declaratorName? parts)))
        ((declaratorName? parts).getD label)
  | prototype {declarator : Part} {name : Label}
      (hform : Form.ofKind label.kind = .declaration ∨
        Form.ofKind label.kind = .memberDeclaration)
      (hdeclarator : declarator ∈ declarators parts) (hname : declarator.name? = some name)
      (hfunction : declarator.declaresFunction = true) :
      Makes source label parts (.prototype (source.text name)) name
  | variable {declarator : Part} {name : Label} (hform : Form.ofKind label.kind = .declaration)
      (hdeclarator : declarator ∈ declarators parts) (hname : declarator.name? = some name)
      (hobject : declarator.declaresFunction = false) :
      Makes source label parts (.variable (source.text name)) name
  | field {declarator : Part} {name : Label}
      (hform : Form.ofKind label.kind = .memberDeclaration)
      (hdeclarator : declarator ∈ declarators parts) (hname : declarator.name? = some name)
      (hobject : declarator.declaresFunction = false) :
      Makes source label parts (.field (source.text name)) name
  | typedef {declarator : Part} {name : Label}
      (hform : Form.ofKind label.kind = .typeDefinition)
      (hdeclarator : declarator ∈ declarators parts) (hname : declarator.name? = some name) :
      Makes source label parts (.typedef (source.text name)) name
  | parameter (hform : Form.ofKind label.kind = .parameter) :
      Makes source label parts (.parameter (source.name (declaratorName? parts)))
        ((declaratorName? parts).getD label)
  /-- A specifier with a body. -/
  | tagDefinition {kind : CursorKind} {body : Part}
      (hform : (Form.ofKind label.kind).tagKind? = some kind)
      (hbody : field? parts "body" = some body) :
      Makes source label parts (.tagDefinition kind (source.name (fieldLabel? parts "name")))
        ((fieldLabel? parts "name").getD label)
  /-- A specifier without a body, where no type is used. -/
  | tagDeclaration {kind : CursorKind} (hform : (Form.ofKind label.kind).tagKind? = some kind)
      (hbody : field? parts "body" = none) :
      Makes source label parts (.tagDeclaration kind (source.name (fieldLabel? parts "name")))
        ((fieldLabel? parts "name").getD label)
  /-- A specifier without a body, where a type is used. -/
  | tagRef {kind : CursorKind} {name : Label}
      (hform : (Form.ofKind label.kind).tagKind? = some kind)
      (hbody : field? parts "body" = none) (hname : fieldLabel? parts "name" = some name) :
      Makes source label parts (.tagRef (specifierKeyword label.kind) (source.text name)) name
  | enumerator {name : Part} (hform : Form.ofKind label.kind = .enumerator)
      (hname : field? parts "name" = some name) :
      Makes source label parts (.enumerator (source.text name.label)) name.label
  | macroDefinition {name : Part} (hform : Form.ofKind label.kind = .macroDefinition)
      (hname : field? parts "name" = some name) :
      Makes source label parts (.macroDefinition (source.text name.label)) name.label
  | inclusion {path : Part} (hform : Form.ofKind label.kind = .inclusion)
      (hpath : field? parts "path" = some path) :
      Makes source label parts (.inclusion (trimIncludeMarks (source.text path.label))
        (path.label.kind == "system_lib_string")) label
  /-- The use of a macro with arguments. -/
  | callExpansion {callee : Part} {target : NodeId} (hform : Form.ofKind label.kind = .call)
      (hcallee : field? parts "function" = some callee) :
      Makes source label parts (.expansion (source.text callee.label) target) callee.label
  | call (hform : Form.ofKind label.kind = .call) :
      Makes source label parts
        (.call ((field? parts "function").map fun callee => callee.label.kind)
          (source.name ((field? parts "function").bind calleeName?))) label
  | member (hform : Form.ofKind label.kind = .member) :
      Makes source label parts (.member (source.name (fieldLabel? parts "field")))
        ((fieldLabel? parts "field").getD label)
  | expansion {target : NodeId} (hform : Form.ofKind label.kind = .identifier) :
      Makes source label parts (.expansion (source.text label) target) label
  | valueRef (hform : Form.ofKind label.kind = .identifier) :
      Makes source label parts (.valueRef (source.text label)) label
  | typeName (hform : Form.ofKind label.kind = .typeName) :
      Makes source label parts (.typeName (source.text label)) label
  | other (hform : Form.ofKind label.kind ∈ [.conditional, .block, .other]) :
      Makes source label parts (.other label.kind) label

/-- All that a node makes is of an origin. -/
def MakesOnly (source : Source) (origin : Entry → Label → Prop) (label : Label)
    (parts : List Part) : Prop :=
  ∀ {entry : Entry} {place : Label}, Makes source label parts entry place → origin entry place

/-- Cursors of these kinds are their own definitions, whatever makes them. -/
theorem Makes.isDefinition {source : Source} {label : Label} {parts : List Part} {entry : Entry}
    {place : Label} (hmade : Makes source label parts entry place)
    (hkind : entry.kind ∈ [CursorKind.field, .typedef, .enumerator, .macroDefinition]) :
    entry.isDefinition = true := by
  cases hmade with
  | functionDefinition | field | typedef | tagDefinition | enumerator | macroDefinition => rfl
  | tagDeclaration hform =>
      rcases Form.tag_of_tagKind? hform with rfl | rfl <;> simp [Entry.kind] at hkind
  | _ => simp [Entry.kind] at hkind

/-- The children of a node of the parse tree as its rule sees them. -/
def partsOf (source : Source) (label : Label) (children : List ParseTree) : List Part :=
  placeChildren label (usesType label (meanings source children)) (meanings source children)

/-- A cursor comes from a place of the file. -/
def Arises (source : Source) (file : ParseTree) (entry : Entry) (place : Label) : Prop :=
  ∃ label children, (ParseTree.node label children).Within file ∧
    Makes source label (partsOf source label children) entry place

/-- A cursor comes from the type of a function with a body. -/
def ArisesInType (source : Source) (file : ParseTree) (entry : Entry) (place : Label) : Prop :=
  ∃ label children type, (ParseTree.node label children).Within file ∧
    Form.ofKind label.kind = .functionDefinition ∧ type ∈ children ∧
    type.label.field = some "type" ∧ Arises source type entry place

section Inside

variable {source : Source} {label : Label} {children : List ParseTree} {child : ParseTree}
  {entry : Entry} {place : Label}

theorem Arises.inside (hchild : child ∈ children) (harises : Arises source child entry place) :
    Arises source (.node label children) entry place := by
  obtain ⟨found, below, hwithin, hmade⟩ := harises
  exact ⟨found, below, .inside hchild hwithin, hmade⟩

theorem ArisesInType.inside (hchild : child ∈ children)
    (harises : ArisesInType source child entry place) :
    ArisesInType source (.node label children) entry place := by
  obtain ⟨found, below, type, hwithin, hrest⟩ := harises
  exact ⟨found, below, type, .inside hchild hwithin, hrest⟩

end Inside

end Lowering
end SourceIndex
