import SourceIndex.Proofs.Lowering.Nesting
import SourceIndex.Proofs.Parse.Preorder

/-!
# Files that are nested too deep

A parse fails because of nesting exactly if lowering the file with no limit would have more
than `maxNesting` nodes open at once.  Every other file that can be read, and whose syntax is
accepted, has the tree that it would have without the limit.

The limit is NOT one on the depth of the parse tree: nodes without a name and comments do not
count, and neither does a list of parameters or arguments, whose elements are lowered in place.
-/

namespace SourceIndex

open Lowering (activation unlimited runBy run guarded runBy_guarded deepest_guarded_le
  lowerFile?_eq_unlimited)

/-- A file that can be read and has a parse tree is refused if it is nested too deep.  If it is
not, and if its syntax is accepted, it has the tree of the lowering without a limit. -/
theorem parseFile_eq_unlimited {grammars : Grammars} {files : FileTree} {file : String}
    {flags : List String} {options : ParseOptions} {content : Bytes} {parsed : Parsed}
    (hread : files.read file = .ok content)
    (hparsed : grammars (Dialect.choose file flags) content = some parsed)
    (haccepted : parsed.hasErrors = true → options.keepGoing = true) {source : Lowering.Source}
    (hsource : source = loweringSource files file flags content options (some maxNesting)) :
    parseFile grammars files file flags options =
      if maxNesting < (unlimited source parsed.tree).deepest then
        .error (.unparsable file (.tooDeep maxNesting))
      else
        .ok (if parsed.hasErrors then (unlimited source parsed.tree).finish.markErrors
          else (unlimited source parsed.tree).finish) := by
  have hlimit : source.limit = some maxNesting := by rw [hsource]; rfl
  have hgoes : (parsed.hasErrors && !source.options.keepGoing) = false := by
    cases herrors : parsed.hasErrors with
    | false => rfl
    | true =>
        rw [hsource]
        simp [loweringSource, haccepted herrors]
  have hlowered := lowerFile?_eq_unlimited hlimit parsed.tree
  simp only [parseFile, hread, hparsed, ← hsource, lowerParsed, hgoes, hlimit, Option.getD_some,
    Bool.false_eq_true, if_false]
  by_cases hdeep : maxNesting < (unlimited source parsed.tree).deepest
  · rw [if_pos hdeep] at hlowered ⊢
    rw [hlowered]
  · rw [if_neg hdeep] at hlowered ⊢
    rw [hlowered]

/-- **The limit on nesting changes nothing below it.**  Let `free` be the lowering of a file
without the limit.  The parse fails because of nesting exactly if `free` had more than
`maxNesting` nodes open at once, and otherwise gives the tree of `free`.  In both cases the
lowering with the limit has no more than `maxNesting` nodes open at once, by a measure that does
not depend on its counter. -/
theorem parseFile_limit_transparent {grammars : Grammars} {files : FileTree} {file : String}
    {flags : List String} {options : ParseOptions} {content : Bytes} {parsed : Parsed}
    (hread : files.read file = .ok content)
    (hparsed : grammars (Dialect.choose file flags) content = some parsed)
    (haccepted : parsed.hasErrors = true → options.keepGoing = true) :
    let source := loweringSource files file flags content options (some maxNesting)
    let free := unlimited source parsed.tree
    let limited := runBy (guarded (some maxNesting)) source parsed.tree
    (parseFile grammars files file flags options =
        .error (.unparsable file (.tooDeep maxNesting)) ↔ maxNesting < free.deepest) ∧
      (free.deepest ≤ maxNesting → parseFile grammars files file flags options =
        .ok (if parsed.hasErrors then free.finish.markErrors else free.finish)) ∧
      limited = run source parsed.tree ∧ limited.deepest ≤ maxNesting := by
  intro source free limited
  have hlimit : source.limit = some maxNesting := rfl
  have hparse : parseFile grammars files file flags options = if maxNesting < free.deepest then _
    else _ := parseFile_eq_unlimited hread hparsed haccepted rfl
  refine ⟨?_, fun hkept => ?_, runBy_guarded source parsed.tree, ?_⟩
  · rw [hparse]
    split
    next hdeep => exact ⟨fun _ => hdeep, fun _ => rfl⟩
    next hkept => exact ⟨nofun, fun hdeep => absurd hdeep hkept⟩
  · rw [hparse, if_neg (Nat.not_lt.mpr hkept)]
  · exact deepest_guarded_le hlimit parsed.tree

/-! ## A file -/

namespace NestingSample

/-- The label of a node of a kind, with no text of its own. -/
def labelOf (kind : String) : Label where
  kind := kind
  named := true
  field := none
  start := 0
  stop := 0

/-- An expression in as many pairs of parentheses. -/
def brackets : Nat → ParseTree
  | 0 => .node (labelOf "number_literal") []
  | count + 1 => .node (labelOf "parenthesized_expression") [brackets count]

/-- Grammars that answer with an expression in as many pairs of parentheses. -/
def grammars (count : Nat) : Grammars := fun _ _ =>
  some { hasErrors := false, tree := .node (labelOf "translation_unit") [brackets count] }

def files : FileTree where
  entries := [(["f.c"], .file [])]

theorem lowerNamed_at {inner : Lowering.Meaning} (hnamed : inner.label.named = true)
    (place : Lowering.Place) (parent : NodeId) (state : Lowering.State) :
    (Lowering.lowerNamed [inner.at place] parent state).2 = (inner.lower place parent state).2 := by
  have hpart : (inner.at place).label.named = true := hnamed
  simp only [Lowering.lowerNamed, List.filter_cons, hpart, if_true, List.filter_nil]
  rfl

/-- A pair of parentheses is one level around what it holds. -/
theorem deepest_parenthesized {source : Lowering.Source} {inner : Lowering.Meaning} {count : Nat}
    (hnamed : inner.label.named = true)
    (hinner : ∀ place parent state,
      (inner.lower place parent state).2.deepest = max state.deepest count)
    (place : Lowering.Place) (parent : NodeId) (state : Lowering.State) :
    ((Lowering.Meaning.ofNodeBy activation source (labelOf "parenthesized_expression")
      [inner]).lower place parent state).2.deepest = max state.deepest (count + 1) := by
  have hinside : ∀ place state,
      (Lowering.lowerOther source (labelOf "parenthesized_expression") [inner.at place] parent
        state).2.deepest = max state.deepest count := by
    intro place state
    rw [Lowering.lowerOther, Lowering.Pass.bind_apply, Lowering.push_apply, lowerNamed_at hnamed]
    exact hinner place _ _
  exact congrArg (max state.deepest <| · + 1) ((hinside _ _).trans (Nat.zero_max count))

theorem named_brackets (enter : Lowering.Pass PUnit → Lowering.Pass PUnit)
    (source : Lowering.Source) (count : Nat) :
    (Lowering.meaningBy enter source (brackets count)).label.named = true := by
  cases count <;> rfl

theorem deepest_brackets (source : Lowering.Source) (count : Nat) (place : Lowering.Place)
    (parent : NodeId) (state : Lowering.State) :
    ((Lowering.meaningBy activation source (brackets count)).lower place parent
      state).2.deepest = max state.deepest (count + 1) := by
  induction count generalizing place parent state with
  | zero => rfl
  | succ count ih =>
      exact deepest_parenthesized (named_brackets activation source count) ih place parent state

theorem deepest_unlimited (source : Lowering.Source) (count : Nat) :
    (unlimited source (.node (labelOf "translation_unit") [brackets count])).deepest =
      count + 1 := by
  have hbelow : ∀ place, (Lowering.lowerNamed
      [(Lowering.meaningBy activation source (brackets count)).at place] CursorTree.root
        (Lowering.State.start source.file)).2.deepest = count + 1 := by
    intro place
    rw [lowerNamed_at (named_brackets activation source count), deepest_brackets]
    exact Nat.zero_max _
  exact hbelow _

end NestingSample

/-- The limit is met by as many pairs of parentheses around a number as it allows, less one for
the number. -/
theorem parseFile_limit_transparent_brackets :
    parseFile (NestingSample.grammars 512) NestingSample.files "f.c" [] {} =
        .error (.unparsable "f.c" (.tooDeep 512)) ∧
      ∃ tree, parseFile (NestingSample.grammars 511) NestingSample.files "f.c" [] {} =
        .ok tree := by
  have hread : NestingSample.files.read "f.c" = .ok [] := by rfl
  constructor
  · obtain ⟨hfails, -⟩ := @parseFile_limit_transparent (NestingSample.grammars 512)
      NestingSample.files "f.c" [] {} [] _ hread rfl nofun
    refine hfails.mpr ?_
    rw [NestingSample.deepest_unlimited]
    decide
  · obtain ⟨-, hkept, -⟩ := @parseFile_limit_transparent (NestingSample.grammars 511)
      NestingSample.files "f.c" [] {} [] _ hread rfl nofun
    exact ⟨_, hkept (Nat.le_of_eq (NestingSample.deepest_unlimited _ 511))⟩

end SourceIndex
