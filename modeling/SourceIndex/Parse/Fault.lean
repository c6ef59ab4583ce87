import SourceIndex.Cursor.Saved
import SourceIndex.FileTree

/-!
# What goes wrong between a file and its tree

Faults are causes.  Their wording is in one function.
-/

namespace SourceIndex

/-- Why a readable file has no tree. -/
inductive ParseReason where
  /-- The file does not follow its grammar, and this is not accepted. -/
  | syntaxErrors
  /-- Nodes are nested deeper than the limit. -/
  | tooDeep (limit : Nat)
  /-- The grammar gave no answer. -/
  | noTree
  /-- A reason in the words of whoever parses. -/
  | stated (text : String)
  deriving DecidableEq, Repr

/-- The wording of a reason. -/
def ParseReason.message : ParseReason → String
  | .syntaxErrors => "source has syntax errors"
  | .tooDeep limit => "nesting deeper than " ++ toString limit ++ " levels"
  | .noTree => "tree-sitter returned no tree"
  | .stated text => text

/-- Why a tree is not saved. -/
inductive SaveReason where
  /-- The file of the tree does not follow its grammar, and this is not accepted. -/
  | hasErrors (spelling : String)
  /-- The tree could not be written. -/
  | unwritable (path : String) (fault : IoFault)
  /-- The unit does not let itself be saved. -/
  | refused (spelling : String)
  deriving DecidableEq, Repr

/-- The wording of a reason. -/
def SaveReason.message : SaveReason → String
  | .hasErrors spelling => spelling ++ " has errors and keep-going was not requested"
  | .unwritable path fault => path ++ ": " ++ fault.message
  | .refused spelling => "refusing to save " ++ spelling

/-- Why a tree cannot be had or saved. -/
inductive UnitFault where
  | unreadable (path : String) (fault : IoFault)
  | unparsable (path : String) (reason : ParseReason)
  | unsaved (reason : SaveReason)
  | malformed (path : String) (fault : TreeFault)
  deriving DecidableEq, Repr

/-- The wording of a fault. -/
def UnitFault.message : UnitFault → String
  | .unreadable path fault => "failed to read " ++ path ++ ": " ++ fault.message
  | .unparsable path reason => "failed to parse " ++ path ++ ": " ++ reason.message
  | .unsaved reason => "failed to save translation unit: " ++ reason.message
  | .malformed path fault => "malformed AST file " ++ path ++ ": " ++ fault.message

end SourceIndex
