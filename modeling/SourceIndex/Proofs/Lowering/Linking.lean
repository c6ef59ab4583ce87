import SourceIndex.Proofs.Lowering.Preorder

/-!
# Linking declarations

Functions, and tags, can be declared in one place of a file and defined in another.
Each of the two families has a table of definitions and a table of declarations.

* `FirstTable.Lists` says that a table has the cursors with some property, under
  their spellings and in the order of their positions.  Then what it finds for a
  spelling is the first such cursor of the whole tree (`FirstTable.Lists.find?_eq`).
* `card?_linkDeclarations` says what linking does to each cursor.  It does NOT
  depend on where the cursor stands in the table, and so the declarations may as well
  be linked in any other order (`linkDeclarations_perm`).
-/

namespace SourceIndex

/-- What can be declared in one place and defined in another. -/
inductive Family where
  | functions
  /-- What `struct`, `union`, `class` and `enum` name; they share their names. -/
  | tags
  deriving DecidableEq, Repr

/-- The family of a kind of cursors. -/
def CursorKind.family? : CursorKind → Option Family
  | .function => some .functions
  | .record | .enumeration => some .tags
  | _ => none

namespace Lowering

/-- The definitions of a family. -/
def FileNames.defs (names : FileNames) : Family → FirstTable
  | .functions => names.functionDefs
  | .tags => names.tagDefs

/-- The declarations of a family. -/
def FileNames.decls (names : FileNames) : Family → FirstTable
  | .functions => names.functionDecls
  | .tags => names.tagDecls

/-! ## Tables -/

/-- A table has the cursors with a property, under their spellings and in order. -/
structure FirstTable.Lists (table : FirstTable) (tree : CursorTree) (listed : Card → Bool) :
    Prop where
  ascending : table.toList.Pairwise fun earlier later => earlier.2 < later.2
  mem_iff : ∀ name id, (name, id) ∈ table.toList ↔
    ∃ card, tree.card? id = some card ∧ card.spelling = name ∧ listed card = true

namespace FirstTable.Lists

variable {table : FirstTable} {tree : CursorTree} {listed : Card → Bool}

/-- An entry has the spelling of its cursor, and the cursor has the property. -/
theorem of_mem (hlists : table.Lists tree listed) {entry : String × NodeId}
    (hentry : entry ∈ table.toList) {card : Card} (hcard : tree.card? entry.2 = some card) :
    card.spelling = entry.1 ∧ listed card = true := by
  obtain ⟨found, hfound, hlisted⟩ := (hlists.mem_iff entry.1 entry.2).mp hentry
  rw [hcard, Option.some.injEq] at hfound
  exact hfound ▸ hlisted

/-- The positions in a table are those of the cursors with the property. -/
theorem mem_ids_iff (hlists : table.Lists tree listed) {id : NodeId} {card : Card}
    (hcard : tree.card? id = some card) :
    id ∈ table.toList.map Prod.snd ↔ listed card = true := by
  constructor
  · intro hmem
    obtain ⟨entry, hentry, rfl⟩ := List.mem_map.mp hmem
    exact (hlists.of_mem hentry hcard).2
  · intro hlisted
    have hentry := (hlists.mem_iff card.spelling id).mpr ⟨card, hcard, rfl, hlisted⟩
    exact List.mem_map.mpr ⟨_, hentry, rfl⟩

/-- A position stands in a table once at most. -/
theorem eq_of_id_eq (hlists : table.Lists tree listed) {first second : String × NodeId}
    (hfirst : first ∈ table.toList) (hsecond : second ∈ table.toList)
    (hid : first.2 = second.2) : first = second := by
  obtain ⟨card, hcard, hname, -⟩ := (hlists.mem_iff first.1 first.2).mp hfirst
  have hother := (hlists.of_mem hsecond (hid ▸ hcard)).1
  exact Prod.ext (hname.symm.trans hother) hid

/-- A table finds the first cursor of the tree with the property and the spelling. -/
theorem find?_eq (hlists : table.Lists tree listed) (name : String) :
    table.find? name = (List.range tree.size).find? fun id =>
      (tree.card? id).any fun card => card.spelling == name && listed card := by
  have hany : ∀ id, ((tree.card? id).any fun card => card.spelling == name && listed card) = true ↔
      (name, id) ∈ table.toList := by
    intro id
    rw [hlists.mem_iff]
    simp [Option.any_eq_true]
  rw [FirstTable.find?, ← Array.find?_toList]
  cases hfind : table.toList.find? fun entry => entry.1 == name with
  | none =>
      refine (List.find?_eq_none.mpr fun id _ hid => ?_).symm
      have hname := List.find?_eq_none.mp hfind _ ((hany id).mp hid)
      simp at hname
  | some entry =>
      obtain ⟨hname, before, after, hsplit, hbefore⟩ := List.find?_eq_some_iff_append.mp hfind
      have hentry : entry ∈ table.toList := List.mem_of_find?_eq_some hfind
      obtain ⟨found, id⟩ := entry
      obtain rfl : found = name := by simpa using hname
      symm
      refine List.find?_range_eq_some.mpr ⟨(hany id).mpr hentry, ?_, fun earlier hearlier => ?_⟩
      · obtain ⟨card, hcard, -⟩ := (hlists.mem_iff _ _).mp hentry
        exact List.mem_range.mpr (CursorTree.lt_size_of_card? hcard)
      · -- an earlier cursor would stand before the entry, where no entry has the name
        rw [Bool.not_eq_true', Bool.eq_false_iff, ne_eq, hany, hsplit, List.mem_append,
          List.mem_cons]
        have hascending := hlists.ascending
        rw [hsplit, List.pairwise_append, List.pairwise_cons] at hascending
        rintro (hmem | hsame | hmem)
        · simpa using hbefore _ hmem
        · simp only [Prod.mk.injEq, true_and] at hsame
          exact Nat.ne_of_lt hearlier hsame
        · exact Nat.lt_asymm hearlier (hascending.2.1.1 _ hmem)

/-- What a table finds is a cursor with the property. -/
theorem card?_of_find? (hlists : table.Lists tree listed) {name : String} {id : NodeId}
    (hfind : table.find? name = some id) :
    ∃ card, tree.card? id = some card ∧ card.spelling = name ∧ listed card = true :=
  (hlists.mem_iff name id).mp (FirstTable.mem_of_find? hfind)

theorem empty {tree : CursorTree} {listed : Card → Bool}
    (hnone : ∀ id card, tree.card? id = some card → listed card = false) :
    Lists #[] tree listed where
  ascending := List.Pairwise.nil
  mem_iff := by
    intro name id
    refine ⟨fun hmem => absurd hmem List.not_mem_nil, ?_⟩
    rintro ⟨card, hcard, -, hlisted⟩
    rw [hnone id card hcard] at hlisted
    cases hlisted

/-- A new cursor comes last in the table. -/
theorem push {parent : Nat} {node : Node} {after : FirstTable}
    (hlists : table.Lists tree listed) (hparent : parent < tree.size)
    (hafter : after.toList = table.toList ++
      if listed node.card then [(node.spelling, tree.size)] else []) :
    after.Lists (tree.push parent node) listed where
  ascending := by
    rw [hafter, List.pairwise_append]
    refine ⟨hlists.ascending, by split <;> simp, ?_⟩
    intro earlier hearlier later hlater
    obtain ⟨card, hcard, -⟩ := (hlists.mem_iff earlier.1 earlier.2).mp hearlier
    split at hlater
    · rw [List.mem_singleton.mp hlater]
      exact CursorTree.lt_size_of_card? hcard
    · cases hlater
  mem_iff := by
    intro name id
    rw [hafter, List.mem_append, hlists.mem_iff, CursorTree.card?_push hparent]
    by_cases hid : id = tree.size
    · subst hid
      have hnew : tree.card? tree.size = none := by simp [CursorTree.card?, CursorTree.size]
      have hspelling : node.card.spelling = node.spelling := rfl
      cases hlisted : listed node.card <;> simp [hnew, hlisted, hspelling, @eq_comm _ name]
    · cases hlisted : listed node.card <;> simp [hid]

end FirstTable.Lists

/-! ## Links -/

section Links

variable {defs : FirstTable} {tree : CursorTree}

/-- The card of a cursor that was linked to what a table has for its spelling. -/
def linkedCard (defs : FirstTable) (card : Card) : Card :=
  { card with definition := (defs.find? card.spelling).or card.definition }

@[simp] theorem linkedCard_linkedCard (card : Card) :
    linkedCard defs (linkedCard defs card) = linkedCard defs card := by
  unfold linkedCard
  cases defs.find? card.spelling <;> rfl

/-- Links the cursor of one declaration. -/
def linkDeclaration (defs : FirstTable) (tree : CursorTree) (entry : String × NodeId) :
    CursorTree :=
  match defs.find? entry.1 with
  | some target => tree.setDefinition entry.2 target
  | none => tree

theorem linkDeclarations_eq (decls defs : FirstTable) (tree : CursorTree) :
    linkDeclarations decls defs tree = decls.toList.foldl (linkDeclaration defs) tree :=
  (Array.foldl_toList _).symm

theorem card?_linkDeclaration {entry : String × NodeId}
    (hnamed : ∀ card, tree.card? entry.2 = some card → card.spelling = entry.1) (id : NodeId) :
    (linkDeclaration defs tree entry).card? id =
      if entry.2 = id then (tree.card? id).map (linkedCard defs) else tree.card? id := by
  unfold linkDeclaration
  by_cases hid : entry.2 = id
  · subst hid
    cases hcard : tree.card? entry.2 with
    | none => cases defs.find? entry.1 <;> simp [CursorTree.card?_setDefinition, hcard]
    | some card =>
        rw [← hnamed card hcard, if_pos rfl]
        cases hfind : defs.find? card.spelling <;>
          simp [CursorTree.card?_setDefinition, hcard, linkedCard, hfind]
  · rw [if_neg hid]
    cases defs.find? entry.1 <;> simp [CursorTree.card?_setDefinition, hid]

/-- Linking changes the cursors in the table, each by its own spelling. -/
theorem card?_linkDeclarations {decls : FirstTable}
    (hnamed : ∀ entry ∈ decls.toList, ∀ card, tree.card? entry.2 = some card →
      card.spelling = entry.1) (id : NodeId) :
    (linkDeclarations decls defs tree).card? id =
      (tree.card? id).map fun card =>
        if id ∈ decls.toList.map Prod.snd then linkedCard defs card else card := by
  rw [linkDeclarations_eq]
  generalize decls.toList = entries at hnamed
  induction entries generalizing tree with
  | nil => simp
  | cons entry rest ih =>
      have hstep := @card?_linkDeclaration defs _ _ (hnamed entry (by simp))
      rw [List.foldl_cons, ih, hstep, List.map_cons]
      · by_cases hid : entry.2 = id
        · cases tree.card? id <;> simp [hid]
        · have hrest : id ∈ entry.2 :: rest.map Prod.snd ↔ id ∈ rest.map Prod.snd := by
            simp [Ne.symm hid]
          rw [if_neg hid]
          simp only [hrest]
      · -- a link changes no spelling
        intro later hlater card hcard
        rw [hstep] at hcard
        split at hcard
        · obtain ⟨before, hbefore, rfl⟩ := Option.map_eq_some_iff.mp hcard
          exact hnamed later (by simp [hlater]) before hbefore
        · exact hnamed later (by simp [hlater]) card hcard

/-- The declarations may be linked in any order. -/
theorem linkDeclarations_perm {decls order : FirstTable} {listed : Card → Bool} {first : CursorTree}
    (hlists : decls.Lists first listed) (hperm : order.toList.Perm decls.toList)
    (defs : FirstTable) (tree : CursorTree) :
    linkDeclarations order defs tree = linkDeclarations decls defs tree := by
  rw [linkDeclarations_eq, linkDeclarations_eq]
  refine (hperm.symm.foldl_eq' ?_ tree).symm
  intro one hone two htwo tree
  by_cases hid : one.2 = two.2
  · rw [hlists.eq_of_id_eq hone htwo hid]
  · unfold linkDeclaration
    cases defs.find? one.1 <;> cases defs.find? two.1 <;> simp [CursorTree.setDefinition_comm hid]

end Links

end Lowering
end SourceIndex
