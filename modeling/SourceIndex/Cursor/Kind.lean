/-!
# Kinds of cursors

A cursor is a node of a lowered source file.  Its kind says what it contributes
to an index.  Everything the index does not distinguish is `unexposed` and
carries the grammar's own name for it, so that it can still be counted.
-/

namespace SourceIndex

/-- What a cursor stands for. -/
inductive CursorKind where
  | unit
  | function
  | record
  | field
  | typedef
  | enumeration
  | enumerator
  | macroDefinition
  | variable
  | parameter
  | call
  | valueRef
  | typeRef
  | memberRef
  | macroExpansion
  | inclusion
  | unexposed (name : String)
  deriving DecidableEq, Repr, Inhabited

namespace CursorKind

/-- The kinds without a carried name, in the order of their numbers. -/
def exposed : List CursorKind :=
  [.unit, .function, .record, .field, .typedef, .enumeration, .enumerator, .macroDefinition,
    .variable, .parameter, .call, .valueRef, .typeRef, .memberRef, .macroExpansion, .inclusion]

/-- The number of the kind that carries a name. -/
def unexposedNumber : Nat := 16

/-- The word that marks a kind that carries a name. -/
def unexposedTag : String := "Unexposed"

/-- The name of a kind; for an unexposed kind, the name it carries. -/
def name : CursorKind → String
  | .unit => "TranslationUnit"
  | .function => "FunctionDecl"
  | .record => "StructDecl"
  | .field => "FieldDecl"
  | .typedef => "TypedefDecl"
  | .enumeration => "EnumDecl"
  | .enumerator => "EnumConstantDecl"
  | .macroDefinition => "MacroDefinition"
  | .variable => "VarDecl"
  | .parameter => "ParmDecl"
  | .call => "CallExpr"
  | .valueRef => "DeclRefExpr"
  | .typeRef => "TypeRef"
  | .memberRef => "MemberRefExpr"
  | .macroExpansion => "MacroExpansion"
  | .inclusion => "InclusionDirective"
  | .unexposed name => name

/-- The kind without a carried name that is called `name`. -/
def ofName? (name : String) : Option CursorKind :=
  exposed.find? fun kind => kind.name == name

/-- The kind without a carried name that has this number. -/
def ofNumber? (number : Nat) : Option CursorKind :=
  exposed[number]?

end CursorKind

/-- What a kind of cursor contributes to the record of a file. -/
inductive Classification where
  /-- A declaration entry, or a definition entry if it is defined elsewhere. -/
  | declared
  /-- A definition entry that points to itself. -/
  | selfDefined
  /-- Always a declaration entry. -/
  | variable
  /-- A declaration entry if the parameter has a name. -/
  | parameter
  /-- A reference entry. -/
  | reference (isCall : Bool)
  /-- A header entry. -/
  | header
  /-- Nothing. -/
  | ignored
  deriving DecidableEq, Repr

/-- The contribution of each kind of cursor. -/
def CursorKind.classification : CursorKind → Classification
  | .function | .record | .field | .typedef | .enumeration | .enumerator => .declared
  | .macroDefinition => .selfDefined
  | .variable => .variable
  | .parameter => .parameter
  | .call => .reference true
  | .valueRef | .typeRef | .memberRef | .macroExpansion => .reference false
  | .inclusion => .header
  | .unit | .unexposed _ => .ignored

end SourceIndex
