import SourceIndex.Lowering.Basic
import SourceIndex.Parse.Fault
import SourceIndex.Parse.Include

/-!
# From a file to its tree of cursors

Reading a file, choosing its grammar, and lowering what the grammar answers.  The
grammars themselves are a parameter: a function from the bytes of a file to its
parse tree.
-/

namespace SourceIndex

/-- The grammars: what they make of the bytes of a file, if they answer at all. -/
abbrev Grammars := Dialect → Bytes → Option Parsed

/-- How deep nodes may be nested. -/
def maxNesting : Nat := 512

/-- What lowering a file reads. -/
def loweringSource (tree : FileTree) (file : String) (flags : List String) (content : Bytes)
    (options : ParseOptions) (limit : Option Nat) : Lowering.Source :=
  let bytes : ByteArray := ⟨content.toArray⟩
  { file := file
    bytes := bytes
    lineEnds := Lowering.lineEnds bytes
    options := options
    limit := limit
    includeTarget := (IncludeSearch.ofFlags file flags).resolve tree.isFile }

/-- Lowers what a grammar answered. -/
def lowerParsed (source : Lowering.Source) (parsed : Parsed) : Except ParseReason CursorTree :=
  if parsed.hasErrors && !source.options.keepGoing then .error .syntaxErrors
  else
    match Lowering.lowerFile? source parsed.tree with
    | none => .error (.tooDeep (source.limit.getD 0))
    | some tree => .ok (if parsed.hasErrors then tree.markErrors else tree)

/-- The tree of cursors of a file compiled with `flags`. -/
def parseFile (grammars : Grammars) (tree : FileTree) (file : String) (flags : List String)
    (options : ParseOptions) : Except UnitFault CursorTree :=
  match tree.read file with
  | .error fault => .error (.unreadable file fault)
  | .ok content =>
    match grammars (Dialect.choose file flags) content with
    | none => .error (.unparsable file .noTree)
    | some parsed =>
      match lowerParsed (loweringSource tree file flags content options (some maxNesting)) parsed with
      | .error reason => .error (.unparsable file reason)
      | .ok tree => .ok tree

end SourceIndex
