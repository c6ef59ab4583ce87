import SourceIndex.Proofs.Cursor.Reachable
import SourceIndex.Proofs.Record.Extract

/-!
# What a record has of a tree

Each cursor gives one entry to a record, or none (`CursorTree.entryOf?`).  The record of a
tree is made of the entries of the cursors below the root, in the order of their listing,
without those that stand nowhere (`extract_contents`): nothing is left out, nothing is
added, and nothing is there twice.

Whether a cursor is defined elsewhere is a matter of positions, NOT of places in a file:
a definition at the place of the cursor itself is still a definition elsewhere.
-/

namespace SourceIndex

open CursorTree (root Listing)

/-- One entry of a record. -/
inductive RecordEntry where
  | declaration (location : Location)
  | definition (entry : DefinitionEntry)
  | reference (entry : ReferenceEntry)
  | header (entry : HeaderEntry)
  deriving DecidableEq, Repr

namespace RecordEntry

/-- The place of a declaration. -/
def declaration? : RecordEntry → Option Location
  | .declaration location => some location
  | _ => none

/-- The entry of a definition. -/
def definition? : RecordEntry → Option DefinitionEntry
  | .definition entry => some entry
  | _ => none

/-- The entry of a reference. -/
def reference? : RecordEntry → Option ReferenceEntry
  | .reference entry => some entry
  | _ => none

/-- The entry of a header. -/
def header? : RecordEntry → Option HeaderEntry
  | .header entry => some entry
  | _ => none

end RecordEntry

/-- The record of some entries, each sort in the order of the entries. -/
def Record.ofEntries (path : String) (flags : List String) (entries : List RecordEntry) :
    Record where
  path := path
  flags := flags
  declarations := (entries.filterMap RecordEntry.declaration?).toArray
  definitions := (entries.filterMap RecordEntry.definition?).toArray
  references := (entries.filterMap RecordEntry.reference?).toArray
  headers := (entries.filterMap RecordEntry.header?).toArray

/-- Adds an entry. -/
def Record.add (record : Record) : RecordEntry → Record
  | .declaration location => record.addDeclaration location
  | .definition entry => record.addDefinition entry.location entry.definition
  | .reference entry => record.addReference entry.location entry.referenced entry.isCall
  | .header entry => record.addHeader entry.spelling entry.includedFile

theorem Record.ofEntries_concat (path : String) (flags : List String)
    (entries : List RecordEntry) (entry : RecordEntry) :
    Record.ofEntries path flags (entries ++ [entry]) =
      (Record.ofEntries path flags entries).add entry := by
  cases entry <;>
    simp [ofEntries, add, addDeclaration, addDefinition, addReference, addHeader,
      RecordEntry.declaration?, RecordEntry.definition?, RecordEntry.reference?,
      RecordEntry.header?]

/-- Every entry is counted once. -/
theorem Record.entryCount_ofEntries (path : String) (flags : List String)
    (entries : List RecordEntry) :
    (Record.ofEntries path flags entries).entryCount = entries.length := by
  simp only [entryCount, ofEntries, List.size_toArray]
  induction entries with
  | nil => rfl
  | cons entry rest ih =>
      rw [List.length_cons]
      cases entry <;>
        simp only [List.filterMap_cons, RecordEntry.declaration?, RecordEntry.definition?,
          RecordEntry.reference?, RecordEntry.header?, List.length_cons] <;>
        omega

namespace CursorTree

/-- Where a cursor stands; a missing one stands nowhere. -/
def locationOf (tree : CursorTree) (id : NodeId) : Location :=
  match tree.nodes[id]? with
  | none => .nowhere
  | some node => node.location

/-- The entry of an entity that can be defined elsewhere: a definition if that is so, and
a declaration if it has no definition or is its own. -/
def declaredEntry (tree : CursorTree) (id : NodeId) (node : Node) : RecordEntry :=
  match node.definition with
  | none => .declaration node.location
  | some target =>
    if target = id then .declaration node.location
    else .definition ⟨node.location, tree.locationOf target⟩

/-- The entry of an occurrence that refers to an entity, which stands nowhere if it is not
known. -/
def referenceEntry (tree : CursorTree) (node : Node) (isCall : Bool) : RecordEntry :=
  .reference ⟨node.location, (node.referenced.map tree.locationOf).getD .nowhere, isCall⟩

/-- The entry that the cursor `node` at position `id` gives. -/
def entryOf? (tree : CursorTree) (id : NodeId) (node : Node) : Option RecordEntry :=
  match node.kind with
  | .function | .record | .field | .typedef | .enumeration | .enumerator =>
    some (tree.declaredEntry id node)
  | .macroDefinition => some (.definition ⟨node.location, node.location⟩)
  | .variable => some (.declaration node.location)
  | .parameter => if node.spelling = "" then none else some (.declaration node.location)
  | .call => some (tree.referenceEntry node true)
  | .valueRef | .typeRef | .memberRef | .macroExpansion => some (tree.referenceEntry node false)
  | .inclusion => some (.header ⟨node.spelling, node.includedFile.getD ""⟩)
  | .unit | .unexposed _ => none

theorem entryOf?_of_declared {tree : CursorTree} {id : NodeId} {node : Node}
    (hclass : node.kind.classification = .declared) :
    tree.entryOf? id node = some (tree.declaredEntry id node) := by
  rw [entryOf?]
  cases hkind : node.kind <;> rw [hkind] at hclass <;> first | rfl | cases hclass

/-- The entry of the cursor at a position. -/
def entryAt? (tree : CursorTree) (id : NodeId) : Option RecordEntry :=
  tree.nodes[id]?.bind (tree.entryOf? id)

/-- Whether the cursor at a position stands in a file. -/
def isIndexed (tree : CursorTree) (id : NodeId) : Bool :=
  tree.nodes[id]?.any fun node => node.location.file ≠ "" ∧ node.location.file ≠ "."

theorem isIndexed_of_getElem? {tree : CursorTree} {id : NodeId} {node : Node}
    (hnode : tree.nodes[id]? = some node) : tree.isIndexed id = node.location.isIndexable := by
  rw [isIndexed, hnode, Option.any_some, Bool.eq_iff_iff]
  simp [Location.isIndexable]

/-- Whether the cursor at a position is a parameter without a name. -/
def isUnnamedParameter (tree : CursorTree) (id : NodeId) : Bool :=
  tree.nodes[id]?.any fun node => node.kind = .parameter ∧ node.spelling = ""

/-- Whether the kind of the cursor at a position is one that gives no entries. -/
def isUnclassified (tree : CursorTree) (id : NodeId) : Bool :=
  tree.nodes[id]?.any fun node =>
    match node.kind with
    | .unit | .unexposed _ => true
    | _ => false

/-- A cursor gives an entry, or is a parameter without a name, or of a kind that gives
none, and only one of the three. -/
theorem length_entryAt? {tree : CursorTree} {id : Nat} (hid : id < tree.size) :
    (tree.entryAt? id).toList.length + (tree.isUnnamedParameter id).toNat +
      (tree.isUnclassified id).toNat = 1 := by
  have hsize : id < tree.nodes.size := hid
  have hnode : tree.nodes[id]? = some tree.nodes[id] := Array.getElem?_eq_getElem hsize
  rw [entryAt?, isUnnamedParameter, isUnclassified, hnode]
  simp only [Option.bind_some, Option.any_some]
  generalize tree.nodes[id] = node
  cases hkind : node.kind with
  | parameter => by_cases hname : node.spelling = "" <;> simp [entryOf?, hkind, hname]
  | _ => simp [entryOf?, hkind]

/-- Every cursor is accounted for. -/
theorem length_filterMap_entryAt? {tree : CursorTree} {ids : List NodeId}
    (hids : ∀ id ∈ ids, id < tree.size) :
    (ids.filterMap tree.entryAt?).length + ids.countP tree.isUnnamedParameter +
      ids.countP tree.isUnclassified = ids.length := by
  induction ids with
  | nil => rfl
  | cons id rest ih =>
      have hone := length_entryAt? (hids id List.mem_cons_self)
      have hrest := ih fun later hlater => hids later (List.mem_cons_of_mem _ hlater)
      have hentries : ((id :: rest).filterMap tree.entryAt?).length =
          (tree.entryAt? id).toList.length + (rest.filterMap tree.entryAt?).length := by
        rw [List.filterMap_cons]
        cases tree.entryAt? id with
        | none => simp
        | some entry => simp [Nat.add_comm]
      have hcount : ∀ p : NodeId → Bool, (id :: rest).countP p = rest.countP p + (p id).toNat := by
        intro p
        rw [List.countP_cons]
        cases p id <;> rfl
      rw [hentries, hcount, hcount, List.length_cons]
      omega

end CursorTree

/-! ## Extractions -/

namespace Extraction

variable {tree : CursorTree} {path : String} {flags : List String} {entries : List RecordEntry}

theorem record_addCursor?_declared {found after : Extraction} {id : NodeId} {node : Node}
    (hclass : node.kind.classification = .declared)
    (hadded : addCursor? tree found id node = some after) :
    after.record = found.record.add (tree.declaredEntry id node) := by
  cases hdefinition : node.definition with
  | none =>
      simp only [addCursor?, hclass, hdefinition, Option.some.injEq] at hadded
      rw [← hadded, CursorTree.declaredEntry, hdefinition]
      rfl
  | some target =>
      simp only [addCursor?, hclass, hdefinition] at hadded
      rw [CursorTree.declaredEntry, hdefinition]
      by_cases hself : target = id
      · rw [if_pos hself, Option.some.injEq] at hadded
        rw [← hadded]
        simp only [hself, if_true]
        rfl
      · rw [if_neg hself, Option.map_eq_some_iff] at hadded
        obtain ⟨linked, hlinked, rfl⟩ := hadded
        simp only [hself, if_false, CursorTree.locationOf, hlinked]
        rfl

theorem record_addCursor?_reference {found after : Extraction} {id : NodeId} {node : Node}
    {isCall : Bool} (hclass : node.kind.classification = .reference isCall)
    (hadded : addCursor? tree found id node = some after) :
    after.record = found.record.add (tree.referenceEntry node isCall) := by
  cases hreferenced : node.referenced with
  | none =>
      simp only [addCursor?, hclass, hreferenced, Option.some.injEq] at hadded
      rw [← hadded, CursorTree.referenceEntry, hreferenced]
      rfl
  | some target =>
      simp only [addCursor?, hclass, hreferenced, Option.map_eq_some_iff] at hadded
      obtain ⟨linked, hlinked, rfl⟩ := hadded
      simp only [CursorTree.referenceEntry, hreferenced, CursorTree.locationOf, hlinked,
        Option.map_some]
      rfl

/-- A cursor adds its entry, if it gives one. -/
theorem record_addCursor? {found after : Extraction} {id : NodeId} {node : Node}
    (hadded : addCursor? tree found id node = some after) :
    after.record = (tree.entryOf? id node).elim found.record found.record.add := by
  cases hkind : node.kind with
  | function | record | field | typedef | enumeration | enumerator =>
      rw [CursorTree.entryOf?, hkind]
      exact record_addCursor?_declared (by rw [hkind]; rfl) hadded
  | call | valueRef | typeRef | memberRef | macroExpansion =>
      rw [CursorTree.entryOf?, hkind]
      exact record_addCursor?_reference (by rw [hkind]; rfl) hadded
  | parameter =>
      simp only [addCursor?, hkind, CursorKind.classification, Option.some.injEq] at hadded
      rw [CursorTree.entryOf?, hkind, ← hadded]
      by_cases hname : node.spelling = "" <;> simp [hname, withRecord, Record.add]
  | _ =>
      simp only [addCursor?, hkind, CursorKind.classification, Option.some.injEq] at hadded
      rw [CursorTree.entryOf?, hkind, ← hadded]
      rfl

/-- A visit adds the entry of a cursor that is indexed. -/
theorem record_visitAt (htargeted : tree.Targeted) {found : Extraction}
    (hfound : found.record = .ofEntries path flags entries) (id : NodeId) :
    (tree.visitAt (see tree) found id).record =
      .ofEntries path flags (entries ++ ([id].filter tree.isIndexed).filterMap tree.entryAt?) := by
  have hnothing : found.record = .ofEntries path flags (entries ++ []) := by
    rw [List.append_nil]
    exact hfound
  cases hnode : tree.nodes[id]? with
  | none => simpa [CursorTree.visitAt, hnode, CursorTree.isIndexed] using hnothing
  | some node =>
      have hplace := CursorTree.isIndexed_of_getElem? hnode
      cases hindexed : node.location.isIndexable with
      | false => simpa [CursorTree.visitAt, hnode, hplace, see, hindexed] using hnothing
      | true =>
          obtain ⟨after, hafter⟩ := exists_addCursor? (htargeted id node hnode) found id
          have hadds := record_addCursor? hafter
          have hentry : ([id].filter tree.isIndexed).filterMap tree.entryAt? =
              (tree.entryOf? id node).toList := by
            cases hgiven : tree.entryOf? id node <;>
              simp [hplace, hnode, hindexed, CursorTree.entryAt?, hgiven]
          rw [hentry]
          simp only [CursorTree.visitAt, hnode, see, hindexed, hafter, if_true, Option.getD_some,
            hadds]
          cases tree.entryOf? id node with
          | none => exact hnothing
          | some entry =>
              rw [Option.toList_some, Record.ofEntries_concat, ← hfound]
              rfl

theorem record_foldl_visitAt (htargeted : tree.Targeted) {found : Extraction}
    (hfound : found.record = .ofEntries path flags entries) (ids : List NodeId) :
    (ids.foldl (tree.visitAt (see tree)) found).record =
      .ofEntries path flags (entries ++ (ids.filter tree.isIndexed).filterMap tree.entryAt?) := by
  induction ids generalizing found entries with
  | nil => simpa using hfound
  | cons id rest ih =>
      rw [List.foldl_cons, ih (record_visitAt htargeted hfound id), List.append_assoc,
        ← List.filterMap_append, ← List.filter_append, List.singleton_append]

end Extraction

/-- On a tree with sound links, the record is that of the indexed cursors of the listing. -/
theorem CursorTree.WellLinked.extract_eq {tree : CursorTree} (hlinked : tree.WellLinked)
    {cursors : List NodeId} (hlisting : tree.Listing (tree.childrenOf root) cursors)
    (path : String) (flags : List String) (tally : Option Tally) :
    ∃ found, extract tree path flags tally = (found, .finished) ∧
      found.record = .ofEntries path flags
        ((cursors.filter tree.isIndexed).filterMap tree.entryAt?) := by
  have hway := hlinked.underway_listing hlisting
  have hids : ∀ id ∈ cursors, id < tree.size :=
    fun id hid => hway.lt_size hlinked (List.mem_append_left _ hid)
  have hroom := hway.length_lt hlinked
  have hbound : tree.size = tree.size - cursors.length + cursors.length := by omega
  have hwalk := hlisting.walk_append (Extraction.visit_eq hlinked.targeted) hids
    (tree.size - cursors.length) [] { record := { path, flags }, tally }
  have hstart : ({ record := { path, flags }, tally } : Extraction).record =
    .ofEntries path flags [] := rfl
  refine ⟨_, ?_, Extraction.record_foldl_visitAt hlinked.targeted hstart cursors⟩
  rw [extract, hlinked.traverse_eq, ← List.append_nil (tree.childrenOf root), hbound, hwalk]
  -- the cursors have been used up, and the bound has not
  obtain ⟨bound, hleft⟩ : ∃ bound, tree.size - cursors.length = bound + 1 :=
    ⟨tree.size - cursors.length - 1, by omega⟩
  rw [hleft]
  rfl

/-- An entity that another cursor defines is found as a definition, also where the two
stand at the same place. -/
theorem CursorTree.mem_definitions_ofEntries {tree : CursorTree} {seen : List NodeId}
    {id target : NodeId} {node : Node} (hid : id ∈ seen) (hnode : tree.nodes[id]? = some node)
    (hclass : node.kind.classification = .declared) (hdefinition : node.definition = some target)
    (hother : target ≠ id) (path : String) (flags : List String) :
    ⟨node.location, tree.locationOf target⟩ ∈
      (Record.ofEntries path flags (seen.filterMap tree.entryAt?)).definitions := by
  have hentry : tree.entryAt? id =
      some (.definition ⟨node.location, tree.locationOf target⟩) := by
    rw [entryAt?, hnode, Option.bind_some, entryOf?_of_declared hclass, declaredEntry, hdefinition]
    simp only [if_neg hother]
  simp only [Record.ofEntries, List.mem_toArray, List.mem_filterMap]
  exact ⟨_, ⟨id, hid, hentry⟩, rfl⟩

/-- **A record has what the tree has, neither less nor more.**  On a tree that passes the
link check an extraction comes to its end.  Let `cursors` be the cursors that are reached
from the root by child links, in depth first order, and `seen` those of them that stand in
a file.  Then the entries of the record are those of `seen`, in that order, and each cursor
in `seen` gives one entry or is one of the two sorts that give none. -/
theorem extract_contents {tree : CursorTree} (hlinks : tree.linkFault? = none) (path : String)
    (flags : List String) (tally : Option Tally) :
    ∃ cursors seen found,
      (∀ others, tree.Listing (tree.childrenOf root) others ↔ others = cursors) ∧
      (∀ id, id ∈ cursors ↔ id ≠ root ∧ tree.Under root id) ∧ cursors.Nodup ∧
      seen = cursors.filter tree.isIndexed ∧
      extract tree path flags tally = (found, .finished) ∧
      found.record = .ofEntries path flags (seen.filterMap tree.entryAt?) ∧
      found.record.entryCount + seen.countP tree.isUnnamedParameter +
        seen.countP tree.isUnclassified = seen.length ∧
      ∀ id ∈ seen, ∀ node target, tree.nodes[id]? = some node →
        node.kind.classification = .declared → node.definition = some target → target ≠ id →
          ⟨node.location, tree.locationOf target⟩ ∈ found.record.definitions := by
  have hlinked := (CursorTree.linkFault?_eq_none_iff tree).mp hlinks
  obtain ⟨cursors, hlisting⟩ := hlinked.exists_listing
  obtain ⟨found, hfound, hrecord⟩ := hlinked.extract_eq hlisting path flags tally
  have hway := hlinked.underway_listing hlisting
  have hseen : ∀ id ∈ cursors.filter tree.isIndexed, id < tree.size :=
    fun id hid => hway.lt_size hlinked (List.mem_append_left _ (List.mem_of_mem_filter hid))
  refine ⟨cursors, _, found, fun others => ⟨fun hother => hother.unique hlisting, fun hsame => ?_⟩,
    fun id => hlinked.mem_listing_iff hlisting, hway.fresh.of_cons, rfl, hfound, hrecord, ?_, ?_⟩
  · rw [hsame]
    exact hlisting
  · rw [hrecord, Record.entryCount_ofEntries]
    exact CursorTree.length_filterMap_entryAt? hseen
  · intro id hid node target hnode hclass hdefinition hother
    rw [hrecord]
    exact CursorTree.mem_definitions_ofEntries hid hnode hclass hdefinition hother path flags

/-- A function below a cursor that stands nowhere, defined by another cursor at the same
place, which has a parameter without a name and a call below it. -/
def samePlaceSample : CursorTree where
  spelling := "t.c"
  nodes := #[{ kind := .unit, spelling := "t.c", location := .nowhere, children := #[1, 3] },
    { kind := .unexposed "linkage_specification", spelling := "", location := .nowhere,
      children := #[2] },
    { kind := .function, spelling := "f", location := { file := "t.c", line := 1 },
      definition := some 3 },
    { kind := .function, spelling := "f", location := { file := "t.c", line := 1 },
      definition := some 3, children := #[4, 5] },
    { kind := .parameter, spelling := "", location := { file := "t.c", line := 1 } },
    { kind := .call, spelling := "f", location := { file := "t.c", line := 2 },
      referenced := some 1 }]

theorem extract_contents_samePlaceSample :
    samePlaceSample.linkFault? = none ∧
      ∃ found, extract samePlaceSample "t.c" [] none = (found, .finished) ∧
        found.record = .ofEntries "t.c" []
          [.definition ⟨{ file := "t.c", line := 1 }, { file := "t.c", line := 1 }⟩,
            .declaration { file := "t.c", line := 1 },
            .reference ⟨{ file := "t.c", line := 2 }, .nowhere, true⟩] ∧
        found.record.entryCount + 1 + 0 = 4 := by
  have hlinks : samePlaceSample.linkFault? = none := by decide
  have hdeclared : samePlaceSample.Listing [2] [2] := @Listing.cons _ 2 [] [] [] .nil .nil
  have hbody : samePlaceSample.Listing [4, 5] [4, 5] :=
    @Listing.cons _ 4 [5] [] [5] .nil (@Listing.cons _ 5 [] [] [] .nil .nil)
  have hlisting : samePlaceSample.Listing (samePlaceSample.childrenOf root) [1, 2, 3, 4, 5] :=
    @Listing.cons _ 1 [3] [2] [3, 4, 5] hdeclared (@Listing.cons _ 3 [] [4, 5] [] hbody .nil)
  obtain ⟨cursors, seen, found, hunique, -, -, hseen, hfound, hrecord, hcount, -⟩ :=
    extract_contents hlinks "t.c" [] none
  rw [← (hunique _).mp hlisting] at hseen
  subst hseen
  exact ⟨hlinks, found, hfound, hrecord, hcount⟩

end SourceIndex
