import SourceIndex.Parse.File
import SourceIndex.Proofs.Lowering.Preorder

/-!
# Parsed files are numbered in pre-order

Whatever the grammars answer and whatever the options are: if a file has a tree at
all, the positions of its cursors are their numbers in pre-order, and the links of
the tree pass the link check.  The grammars are a parameter, so nothing is assumed
about the parse trees they give.
-/

namespace SourceIndex

open CursorTree (root)

theorem lowerParsed_preordered {source : Lowering.Source} {parsed : Parsed} {tree : CursorTree}
    (hlowered : lowerParsed source parsed = .ok tree) : tree.Preordered ∧ tree.WellLinked := by
  rw [lowerParsed] at hlowered
  split at hlowered
  · cases hlowered
  · cases hfile : Lowering.lowerFile? source parsed.tree with
    | none =>
        rw [hfile] at hlowered
        cases hlowered
    | some lowered =>
        rw [hfile] at hlowered
        obtain ⟨hpre, hlinked⟩ := Lowering.lowerFile?_preordered hfile
        obtain rfl := Except.ok.inj hlowered
        split
        · exact ⟨hpre.congr fun _ _ _ => rfl, ⟨hlinked.1, hlinked.2, hlinked.3, hlinked.4⟩⟩
        · exact ⟨hpre, hlinked⟩

theorem parseFile_preordered {grammars : Grammars} {files : FileTree} {file : String}
    {flags : List String} {options : ParseOptions} {tree : CursorTree}
    (hparse : parseFile grammars files file flags options = .ok tree) :
    tree.Preordered ∧ tree.WellLinked := by
  rw [parseFile] at hparse
  split at hparse
  · cases hparse
  split at hparse
  · cases hparse
  split at hparse
  · cases hparse
  next hlowered =>
    cases hparse
    exact lowerParsed_preordered hlowered

/-- **A parsed file is an arena in pre-order.**  The tree passes the link check;
every cursor but the root is the child of exactly one cursor, at a smaller
position; and a walk that always goes on below a cursor visits the positions after
the root in ascending order, each once. -/
theorem parseFile_numbers_in_preorder {grammars : Grammars} {files : FileTree} {file : String}
    {flags : List String} {options : ParseOptions} {tree : CursorTree}
    (hparse : parseFile grammars files file flags options = .ok tree) :
    tree.linkFault? = none ∧
      (∀ id < tree.size, id ≠ root → ∃ parent < id, ∀ p, id ∈ tree.childrenOf p ↔ p = parent) ∧
      ∀ (σ : Type) (see : σ → NodeId → Node → σ) (start : σ),
        tree.traverse (fun state id node => some (see state id node, .descend)) start =
          ((List.range' 1 (tree.size - 1)).foldl (tree.visitAt see) start, .finished) := by
  obtain ⟨hpre, hlinked⟩ := parseFile_preordered hparse
  refine ⟨(CursorTree.linkFault?_eq_none_iff tree).mpr hlinked, ?_, ?_⟩
  · intro id hid hne
    exact hpre.exists_parent hid hne
  · intro σ see start
    exact hpre.traverse_eq hlinked (fun _ _ _ _ => rfl) start

/-! ## A file -/

namespace ParseSample

/-- The parse tree of a function with one parameter that returns it. -/
def tree : ParseTree :=
  let node (kind : String) (field : Option String) (start stop : Nat)
      (children : List ParseTree) : ParseTree :=
    .node { kind, named := true, field, start, stop } children
  node "translation_unit" none 0 26
    [node "function_definition" none 0 25
      [node "primitive_type" (some "type") 0 3 [],
        node "function_declarator" (some "declarator") 4 12
          [node "identifier" (some "declarator") 4 5 [],
            node "parameter_list" (some "parameters") 5 12
              [node "parameter_declaration" none 6 11
                [node "primitive_type" (some "type") 6 9 [],
                  node "identifier" (some "declarator") 10 11 []]]],
        node "compound_statement" (some "body") 13 25
          [node "return_statement" none 15 24 [node "identifier" none 22 23 []]]]]

/-- The bytes that were parsed. -/
def content : Bytes :=
  Bytes.ofText "int f(int a) { return a; }\n"

/-- Grammars that know one file. -/
def grammars : Grammars := fun _ bytes =>
  if bytes = content then some { hasErrors := false, tree } else none

def files : FileTree where
  entries := [(["f.c"], .file content)]

end ParseSample

theorem parseFile_numbers_in_preorder_sample :
    ∃ tree, parseFile ParseSample.grammars ParseSample.files "f.c" [] {} = .ok tree ∧
      tree.size = 8 ∧ tree.linkFault? = none ∧
      tree.traverse (fun seen id _ => some (seen ++ [id], .descend)) [] =
        ((List.range' 1 7).foldl (tree.visitAt fun seen id _ => seen ++ [id]) [], .finished) := by
  have hsize : (parseFile ParseSample.grammars ParseSample.files "f.c" [] {}).toOption.map
      CursorTree.size = some 8 := by
    decide +kernel
  cases hparse : parseFile ParseSample.grammars ParseSample.files "f.c" [] {} with
  | error fault =>
      rw [hparse] at hsize
      cases hsize
  | ok tree =>
      rw [hparse] at hsize
      have height : tree.size = 8 := Option.some.inj hsize
      obtain ⟨hlinks, -, hwalk⟩ := parseFile_numbers_in_preorder hparse
      refine ⟨tree, rfl, height, hlinks, ?_⟩
      rw [hwalk, height]
end SourceIndex
