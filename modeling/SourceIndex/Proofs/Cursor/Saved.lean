import SourceIndex.Cursor.Saved
import SourceIndex.Proofs.Cursor.Links
import SourceIndex.Proofs.Wire.Shape

/-!
# Saved trees are read back exactly

A tree that fits the format (`CursorTree.Fits`) is found again in its saved form,
whatever bytes follow, exactly if its links are sound.  The reader never repairs
a tree and never returns a different one: if the links are not sound, it reports
the first fault of the link check.

`Fits` is about sizes only.  It says nothing about what the links lead to, so the
exactness statement also covers trees whose links are wrong in any way.
-/

namespace SourceIndex

open Wire (Value ShortText sizeLimit)

theorem Bytes.ofText_inj {a b : String} : Bytes.ofText a = Bytes.ofText b ↔ a = b := by
  constructor
  · intro h
    have htexts := congrArg Bytes.text? h
    simpa using htexts
  · rintro rfl
    rfl

@[simp] theorem Bytes.ofText_beq (a b : String) : (Bytes.ofText a == Bytes.ofText b) = (a == b) := by
  rw [Bool.eq_iff_iff, beq_iff_eq, beq_iff_eq]
  exact Bytes.ofText_inj

/-! ## The values of a tree are recognized -/

@[simp] theorem Location.ofValue?_toValue (location : Location) :
    Location.ofValue? location.toValue = some location := by
  simp [Location.ofValue?, Location.toValue, Value.fields?_array, Location.fieldNames]

@[simp] theorem CursorKind.ofValue?_toValue (kind : CursorKind) :
    CursorKind.ofValue? kind.toValue = some kind := by
  -- kinds without a payload are found in the list of their names
  cases kind with
  | unexposed name =>
      simp [CursorKind.toValue, CursorKind.ofValue?, CursorKind.select?, Value.text, Value.text?]
  | _ =>
      simp [CursorKind.toValue, CursorKind.ofValue?, CursorKind.select?, Value.text,
        CursorKind.exposed, CursorKind.unexposedTag, CursorKind.name]

theorem Node.ofValue?_toValue {node : Node} (hlinks : ∀ target ∈ node.links, target < sizeLimit) :
    Node.ofValue? node.toValue = some node := by
  have hchildren : (Value.array (node.children.toList.map .uint)).list? Value.index? =
      some node.children.toList := by
    refine Value.list?_array_map fun child hchild => Value.index?_uint (hlinks child ?_)
    simp [Node.links, Array.mem_toList_iff.mp hchild]
  have hdefinition : ((node.definition.map Value.uint).getD .nil).option? Value.index? =
      some node.definition := by
    refine Value.option?_getD (fun target htarget => Value.index?_uint (hlinks target ?_)) ?_
    · simp [Node.links, Option.mem_toList.mpr htarget]
    · simp
  have hreferenced : ((node.referenced.map Value.uint).getD .nil).option? Value.index? =
      some node.referenced := by
    refine Value.option?_getD (fun target htarget => Value.index?_uint (hlinks target ?_)) ?_
    · simp [Node.links, Option.mem_toList.mpr htarget]
    · simp
  have hincluded : ((node.includedFile.map Value.text).getD .nil).option? Value.text? =
      some node.includedFile :=
    Value.option?_getD (fun file _ => Value.text?_text file) (fun _ => by simp [Value.text])
  simp [Node.ofValue?, Node.toValue, Value.fields?_array, Node.fieldNames, Node.optional?,
    hchildren, hdefinition, hreferenced, hincluded]

theorem CursorTree.ofValue?_toValue {tree : CursorTree}
    (hlinks : ∀ node ∈ tree.nodes.toList, ∀ target ∈ node.links, target < sizeLimit) :
    CursorTree.ofValue? tree.toValue = some tree := by
  have hnodes : (Value.array (tree.nodes.toList.map Node.toValue)).list? Node.ofValue? =
      some tree.nodes.toList :=
    Value.list?_array_map fun node hnode => Node.ofValue?_toValue (hlinks node hnode)
  simp [CursorTree.ofValue?, CursorTree.toValue, Value.fields?_array, CursorTree.fieldNames,
    Value.bool?, hnodes]

/-! ## The sizes of a tree -/

/-- The texts of a node. -/
def Node.texts (node : Node) : List String :=
  [node.kind.name, node.spelling, node.location.file] ++ node.includedFile.toList

namespace CursorTree

/-- The texts of a tree. -/
def texts (tree : CursorTree) : List String :=
  tree.spelling :: tree.nodes.toList.flatMap Node.texts

/-- The sizes of a tree fit the format: texts and lists can be counted in a size,
and links, which are 32-bit words in a saved tree, are below `2 ^ 32`. -/
structure Fits (tree : CursorTree) : Prop where
  texts : ∀ text ∈ tree.texts, ShortText text
  size : tree.nodes.size < sizeLimit
  children : ∀ node ∈ tree.nodes.toList, node.children.size < sizeLimit
  links : ∀ node ∈ tree.nodes.toList, ∀ target ∈ node.links, target < sizeLimit

instance (tree : CursorTree) : Decidable tree.Fits :=
  decidable_of_iff
    ((∀ text ∈ tree.texts, ShortText text) ∧ tree.nodes.size < sizeLimit ∧
      (∀ node ∈ tree.nodes.toList, node.children.size < sizeLimit) ∧
      ∀ node ∈ tree.nodes.toList, ∀ target ∈ node.links, target < sizeLimit)
    ⟨fun h => ⟨h.1, h.2.1, h.2.2.1, h.2.2.2⟩, fun h => ⟨h.texts, h.size, h.children, h.links⟩⟩

end CursorTree

theorem Location.portable_toValue (depth : Nat) {location : Location}
    (hfile : ShortText location.file) : location.toValue.Portable (depth + 2) := by
  refine .array (by simp [sizeLimit]) ?_
  intro value hvalue
  simp only [List.mem_cons, List.not_mem_nil, or_false] at hvalue
  rcases hvalue with rfl | rfl | rfl | rfl
  · exact .text depth hfile
  · exact .word depth location.line
  · exact .word depth location.column
  · exact .word depth location.offset

/-- A kind is a text, or a map with one entry. -/
theorem CursorKind.portable_toValue (depth : Nat) {kind : CursorKind}
    (hname : ShortText kind.name) : kind.toValue.Portable (depth + 2) := by
  cases kind with
  | unexposed name =>
      refine .map 1 rfl (by decide) ?_
      intro value hvalue
      simp only [List.mem_cons, List.not_mem_nil, or_false] at hvalue
      rcases hvalue with rfl | rfl
      · exact .text depth (by decide)
      · exact .text depth hname
  | _ => exact .text (depth + 1) hname

theorem Node.portable_toValue (depth : Nat) {node : Node}
    (htexts : ∀ text ∈ node.texts, ShortText text) (hchildren : node.children.size < sizeLimit)
    (hlinks : ∀ target ∈ node.links, target < sizeLimit) :
    node.toValue.Portable (depth + 3) := by
  refine .array (by simp [sizeLimit]) ?_
  intro value hvalue
  simp only [List.mem_cons, List.not_mem_nil, or_false] at hvalue
  rcases hvalue with rfl | rfl | rfl | rfl | rfl | rfl | rfl
  · exact CursorKind.portable_toValue depth (htexts _ (by simp [Node.texts]))
  · exact .text (depth + 1) (htexts _ (by simp [Node.texts]))
  · exact Location.portable_toValue depth (htexts _ (by simp [Node.texts]))
  · refine .list (by simpa using hchildren) fun child hchild => .index depth (hlinks child ?_)
    simp [Node.links, Array.mem_toList_iff.mp hchild]
  · refine .option fun target htarget => .index (depth + 1) (hlinks target ?_)
    simp [Node.links, Option.mem_toList.mpr htarget]
  · refine .option fun target htarget => .index (depth + 1) (hlinks target ?_)
    simp [Node.links, Option.mem_toList.mpr htarget]
  · refine .option fun file hfile => .text (depth + 1) (htexts file ?_)
    simp [Node.texts, Option.mem_toList.mpr hfile]

namespace CursorTree

theorem portable_toValue (depth : Nat) {tree : CursorTree} (hfits : tree.Fits) :
    tree.toValue.Portable (depth + 5) := by
  refine .array (by simp [sizeLimit]) ?_
  intro value hvalue
  simp only [List.mem_cons, List.not_mem_nil, or_false] at hvalue
  rcases hvalue with rfl | rfl | rfl
  · exact .text (depth + 3) (hfits.texts _ (by simp [texts]))
  · refine .list (by simpa using hfits.size) fun node hnode => ?_
    refine Node.portable_toValue depth (fun text htext => hfits.texts text ?_)
      (hfits.children node hnode) (hfits.links node hnode)
    exact List.mem_cons_of_mem _ (List.mem_flatMap.mpr ⟨node, hnode, htext⟩)
  · exact .bool (depth + 3) tree.hasErrors

/-! ## The saved form -/

/-- A tree that fits the format is found behind its marks, and then only its
links count. -/
theorem ofBytes_toBytes_eq {tree : CursorTree} (hfits : tree.Fits) (rest : Bytes) :
    ofBytes (tree.toBytes ++ rest) =
      match tree.linkFault? with
      | some fault => .error (.links fault)
      | none => .ok tree := by
  have hdecode : Wire.decode (tree.toValue.write ++ rest) = some tree.toValue :=
    Wire.decode_write_append (portable_toValue 1019 hfits) rest
  -- the tree is whole before its links are looked at, so the check sees `tree` itself
  rw [ofBytes, toBytes, Wire.Envelope.unwrap_wrap_append]
  cases hfault : tree.linkFault? with
  | none => simp [ofBody, hdecode, ofValue?_toValue hfits.links, hfault]
  | some fault => simp [ofBody, hdecode, ofValue?_toValue hfits.links, hfault]

/-- **The saved form of trees is exact.**  A tree that fits the format is read
back from its saved form, whatever bytes follow, exactly if its links are sound,
and otherwise the first fault of the link check is reported.  The link check
finds no fault exactly in trees with sound links. -/
theorem ofBytes_toBytes_append_eq_ok_iff (tree : CursorTree) (hfits : tree.Fits) (rest : Bytes) :
    (ofBytes (tree.toBytes ++ rest) = .ok tree ↔ tree.WellLinked) ∧
      (¬tree.WellLinked → ∃ fault, tree.linkFault? = some fault ∧
        ofBytes (tree.toBytes ++ rest) = .error (.links fault)) ∧
      (tree.linkFault? = none ↔ tree.WellLinked) := by
  have hlinks := linkFault?_eq_none_iff tree
  rw [ofBytes_toBytes_eq hfits rest, ← hlinks]
  cases tree.linkFault? with
  | none => simp
  | some fault => simp

/-- A call that lists the function around it as a child: the function has two
parents and is its own descendant. -/
def loopSample : CursorTree where
  spelling := "t.c"
  nodes := #[{ kind := .unit, spelling := "t.c", location := .nowhere, children := #[1] },
    { kind := .function, spelling := "f", location := { file := "t.c", line := 1, column := 1 },
      children := #[2], definition := some 1 },
    { kind := .unexposed "call", spelling := "", location := { file := "t.c", line := 70000 },
      children := #[1], referenced := some 1 }]

theorem ofBytes_toBytes_append_loopSample :
    loopSample.Fits ∧ ¬loopSample.WellLinked ∧
      ∃ fault, loopSample.linkFault? = some fault ∧
        ofBytes (loopSample.toBytes ++ [0xc1]) = .error (.links fault) := by
  have hfits : loopSample.Fits := by decide
  have hlost : ¬loopSample.WellLinked := by decide
  exact ⟨hfits, hlost, (ofBytes_toBytes_append_eq_ok_iff loopSample hfits [0xc1]).2.1 hlost⟩

end CursorTree
end SourceIndex
