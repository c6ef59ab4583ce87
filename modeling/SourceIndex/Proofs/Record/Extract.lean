import SourceIndex.Proofs.Cursor.Preorder
import SourceIndex.Proofs.Record.Stored
import SourceIndex.Record.Extract

/-!
# What is extracted from a tree

On a tree that is numbered in pre-order and whose links are sound, an extraction
comes to its end and is a fold over the positions (`extract_eq`).  Each visit adds
one entry at most to the record, and every text of an entry is a text of the tree
(`Contributes`).  So the record of a tree that fits the format fits it too
(`fits_extract`).
-/

namespace SourceIndex

open CursorTree (root)
open Wire (ShortText sizeLimit)

namespace Extraction

/-- What is found once a cursor has been visited. -/
def see (tree : CursorTree) (found : Extraction) (id : NodeId) (node : Node) : Extraction :=
  if node.location.isIndexable then (addCursor? tree found id node).getD found else found

/-- A cursor whose links have targets contributes. -/
theorem exists_addCursor? {tree : CursorTree} {node : Node}
    (htargets : ∀ target ∈ node.entities, target < tree.size) (found : Extraction) (id : NodeId) :
    ∃ after, addCursor? tree found id node = some after := by
  have hnode : ∀ target ∈ node.entities, ∃ linked, tree.nodes[target]? = some linked :=
    fun target htarget => ⟨_, Array.getElem?_eq_getElem (htargets target htarget)⟩
  unfold addCursor?
  split
  · split
    · exact ⟨_, rfl⟩
    next target hdefinition =>
      obtain ⟨linked, hlinked⟩ := hnode target (by simp [Node.entities, hdefinition])
      split
      · exact ⟨_, rfl⟩
      · simp [hlinked]
  · exact ⟨_, rfl⟩
  · exact ⟨_, rfl⟩
  · exact ⟨_, rfl⟩
  · split
    · exact ⟨_, rfl⟩
    next target hreferenced =>
      obtain ⟨linked, hlinked⟩ := hnode target (by simp [Node.entities, hreferenced])
      simp [hlinked]
  · exact ⟨_, rfl⟩
  · exact ⟨_, rfl⟩

theorem visit_eq {tree : CursorTree} (htargeted : tree.Targeted) (found : Extraction)
    (id : NodeId) (node : Node) (hnode : tree.nodes[id]? = some node) :
    visit tree found id node = some (see tree found id node, .descend) := by
  unfold visit see
  split
  · obtain ⟨after, hafter⟩ := exists_addCursor? (htargeted id node hnode) found id
    rw [hafter]
    rfl
  · rfl

end Extraction

/-! ## Entries -/

/-- What one cursor can add to a record. -/
inductive Contributes (tree : CursorTree) (node : Node) (record : Record) : Record → Prop
  | nothing : Contributes tree node record record
  | declaration : Contributes tree node record (record.addDeclaration node.location)
  | definition {id : NodeId} {target : Node} (htarget : tree.nodes[id]? = some target) :
      Contributes tree node record (record.addDefinition node.location target.location)
  | unresolved (isCall : Bool) :
      Contributes tree node record (record.addReference node.location .nowhere isCall)
  | reference (isCall : Bool) {id : NodeId} {target : Node}
      (htarget : tree.nodes[id]? = some target) :
      Contributes tree node record (record.addReference node.location target.location isCall)
  | header : Contributes tree node record
      (record.addHeader node.spelling (node.includedFile.getD ""))

theorem Extraction.contributes_see {tree : CursorTree} {id : NodeId} {node : Node}
    (hnode : tree.nodes[id]? = some node) (found : Extraction) :
    Contributes tree node found.record (see tree found id node).record := by
  unfold see
  split
  · unfold addCursor?
    split
    · split
      · exact .declaration
      next target _ =>
        split
        · exact .declaration
        · cases hlinked : tree.nodes[target]? with
          | none => exact .nothing
          | some linked => exact .definition hlinked
    · exact .definition hnode
    · exact .declaration
    · dsimp only [Option.getD_some]
      split
      · exact .nothing
      · exact .declaration
    next isCall _ =>
      split
      · exact .unresolved isCall
      next target _ =>
        cases hlinked : tree.nodes[target]? with
        | none => exact .nothing
        | some linked => exact .reference isCall hlinked
    · exact .header
    · exact .nothing
  · exact .nothing

/-- An extraction from `tree` for a path and flags has made a record with `count`
entries at most. -/
structure Gathered (tree : CursorTree) (path : String) (flags : List String) (count : Nat)
    (record : Record) : Prop where
  path_eq : record.path = path
  flags_eq : record.flags = flags
  savedTree_eq : record.savedTree = []
  entryCount_le : record.entryCount ≤ count
  texts : ∀ text ∈ record.texts, text ∈ path :: flags ∨ text = "" ∨ text ∈ tree.texts

theorem Gathered.start (tree : CursorTree) (path : String) (flags : List String) :
    Gathered tree path flags 0 { path, flags } where
  path_eq := rfl
  flags_eq := rfl
  savedTree_eq := rfl
  entryCount_le := Nat.le_refl 0
  texts := by
    intro text htext
    exact .inl (by simpa [Record.texts] using htext)

theorem CursorTree.mem_texts {tree : CursorTree} {id : NodeId} {node : Node}
    (hnode : tree.nodes[id]? = some node) {text : String} (htext : text ∈ node.texts) :
    text ∈ tree.texts :=
  List.mem_cons_of_mem _ (List.mem_flatMap.mpr
    ⟨node, Array.mem_toList_iff.mpr (Array.mem_of_getElem? hnode), htext⟩)

theorem CursorTree.file_mem_texts {tree : CursorTree} {id : NodeId} {node : Node}
    (hnode : tree.nodes[id]? = some node) : node.location.file ∈ tree.texts :=
  tree.mem_texts hnode (by simp [Node.texts])

/-- A contribution has no texts but those of the tree. -/
theorem Contributes.texts {tree : CursorTree} {id : NodeId} {node : Node} {record after : Record}
    (hadds : Contributes tree node record after) (hnode : tree.nodes[id]? = some node)
    {text : String} (htext : text ∈ after.texts) :
    text ∈ record.texts ∨ text = "" ∨ text ∈ tree.texts := by
  have hfile := CursorTree.file_mem_texts hnode
  cases hadds with
  | nothing => exact .inl htext
  | declaration =>
      simp only [Record.texts, Record.addDeclaration, Array.toList_push, List.map_append,
        List.mem_append, List.map_cons, List.map_nil, List.mem_singleton] at htext ⊢
      grind
  | definition htarget =>
      have htargetFile := CursorTree.file_mem_texts htarget
      simp only [Record.texts, Record.addDefinition, Array.toList_push, List.flatMap_append,
        List.mem_append, List.flatMap_singleton, List.mem_cons, List.not_mem_nil] at htext ⊢
      grind
  | unresolved isCall =>
      have hnowhere : Location.nowhere.file = "" := rfl
      simp only [Record.texts, Record.addReference, Array.toList_push, List.flatMap_append,
        List.mem_append, List.flatMap_singleton, List.mem_cons, List.not_mem_nil] at htext ⊢
      grind
  | reference isCall htarget =>
      have htargetFile := CursorTree.file_mem_texts htarget
      simp only [Record.texts, Record.addReference, Array.toList_push, List.flatMap_append,
        List.mem_append, List.flatMap_singleton, List.mem_cons, List.not_mem_nil] at htext ⊢
      grind
  | header =>
      have hspelling : node.spelling ∈ tree.texts :=
        tree.mem_texts hnode (by simp [Node.texts])
      have hincluded : node.includedFile.getD "" = "" ∨
          node.includedFile.getD "" ∈ tree.texts := by
        cases hfound : node.includedFile with
        | none => exact .inl rfl
        | some included =>
            exact .inr (tree.mem_texts hnode (by simp [Node.texts, hfound]))
      simp only [Record.texts, Record.addHeader, Array.toList_push, List.flatMap_append,
        List.mem_append, List.flatMap_singleton, List.mem_cons, List.not_mem_nil] at htext ⊢
      grind

theorem Contributes.entryCount_le {tree : CursorTree} {node : Node} {record after : Record}
    (hadds : Contributes tree node record after) :
    after.entryCount ≤ record.entryCount + 1 := by
  cases hadds with
  | nothing => exact Nat.le_succ _
  | _ =>
      simp only [Record.entryCount, Record.addDeclaration, Record.addDefinition,
        Record.addReference, Record.addHeader, Array.size_push]
      omega

/-- A visit adds one entry at most. -/
theorem Gathered.add {tree : CursorTree} {path : String} {flags : List String} {count : Nat}
    {record after : Record} {id : NodeId} {node : Node}
    (hgathered : Gathered tree path flags count record) (hnode : tree.nodes[id]? = some node)
    (hadds : Contributes tree node record after) :
    Gathered tree path flags (count + 1) after := by
  have hkept : after.path = record.path ∧ after.flags = record.flags ∧
      after.savedTree = record.savedTree := by
    cases hadds <;> exact ⟨rfl, rfl, rfl⟩
  refine ⟨hkept.1.trans hgathered.path_eq, hkept.2.1.trans hgathered.flags_eq,
    hkept.2.2.trans hgathered.savedTree_eq, ?_, ?_⟩
  · exact Nat.le_trans hadds.entryCount_le (Nat.succ_le_succ hgathered.entryCount_le)
  · intro text htext
    rcases hadds.texts hnode htext with hold | hnew
    · exact hgathered.texts text hold
    · exact .inr hnew

theorem Gathered.foldl {tree : CursorTree} {path : String} {flags : List String} {count : Nat}
    (found : Extraction) (ids : List NodeId)
    (hgathered : Gathered tree path flags count found.record) :
    Gathered tree path flags (count + ids.length)
      (ids.foldl (tree.visitAt (Extraction.see tree)) found).record := by
  -- a missing cursor is not visited, so the number of positions bounds the visits
  induction ids generalizing found count with
  | nil => exact hgathered
  | cons id rest ih =>
      have hnext : Gathered tree path flags (count + 1)
          (tree.visitAt (Extraction.see tree) found id).record := by
        unfold CursorTree.visitAt
        split
        · exact { hgathered with entryCount_le := Nat.le_succ_of_le hgathered.entryCount_le }
        next hnode => exact hgathered.add hnode (Extraction.contributes_see hnode found)
      have hrest := ih _ hnext
      rwa [Nat.add_assoc, Nat.add_comm 1] at hrest

/-! ## Extractions -/

/-- An extraction is a fold over the positions. -/
theorem extract_eq {tree : CursorTree} (hpre : tree.Preordered) (hlinked : tree.WellLinked)
    (path : String) (flags : List String) (tally : Option Tally) :
    extract tree path flags tally =
      ((List.range' 1 (tree.size - 1)).foldl (tree.visitAt (Extraction.see tree))
        { record := { path, flags }, tally }, .finished) :=
  hpre.traverse_eq hlinked (Extraction.visit_eq hlinked.targeted) _

theorem extract_gathered {tree : CursorTree} (hpre : tree.Preordered)
    (hlinked : tree.WellLinked) (path : String) (flags : List String) (tally : Option Tally) :
    Gathered tree path flags (tree.size - 1) (extract tree path flags tally).1.record := by
  rw [extract_eq hpre hlinked]
  have hall := Gathered.foldl { record := { path, flags }, tally }
    (List.range' 1 (tree.size - 1)) (Gathered.start tree path flags)
  simpa using hall

/-- The record of a tree fits the format if the tree, its saved form, the path and
the flags do. -/
theorem fits_extract {tree : CursorTree} (hpre : tree.Preordered) (hlinked : tree.WellLinked)
    (hsize : tree.size < sizeLimit) (htexts : ∀ text ∈ tree.texts, ShortText text)
    {path : String} {flags : List String} (hpath : ShortText path)
    (hflags : ∀ flag ∈ flags, ShortText flag) (hcount : flags.length < sizeLimit)
    (tally : Option Tally) {saved : Bytes} (hsaved : saved.length < sizeLimit) :
    ({ (extract tree path flags tally).1.record with savedTree := saved } : Record).Fits := by
  obtain ⟨hpathEq, hflagsEq, -, hentries, hfound⟩ := extract_gathered hpre hlinked path flags tally
  rw [Record.entryCount] at hentries
  refine ⟨fun text htext => ?_, by rw [hflagsEq]; exact hcount, ?_, ?_, ?_, ?_, hsaved⟩
  · rcases hfound text htext with hcommand | hempty | htree
    · rcases List.mem_cons.mp hcommand with hpathText | hflag
      · rw [hpathText]
        exact hpath
      · exact hflags text hflag
    · rw [hempty]
      decide
    · exact htexts text htree
  all_goals
    dsimp only
    omega

end SourceIndex
