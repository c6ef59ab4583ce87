import SourceIndex.Proofs.Record.Stored
import SourceIndex.Proofs.Wire.Size

/-!
# Short files fit the format

A record or tree whose file is shorter than `sizeLimit` fits the format: its texts
and lists are parts of the written value, and so no longer than the file.  The
links of a tree are NOT bounded by the length of its file, a single byte can stand
for any of a hundred positions; for them the links have to be sound.
-/

namespace SourceIndex

open Wire (Value ShortText sizeLimit)

/-- A text within a file is no longer than the file. -/
theorem shortText_of_within {text : String} {value : Value} {envelope : Wire.Envelope}
    (hpart : (Value.text text).Within value) (hfile : (envelope.wrap value).length < sizeLimit) :
    ShortText text := by
  have hextent : text.utf8ByteSize ≤ value.write.length := by
    rw [← Bytes.length_ofText]
    exact hpart.extent_le
  exact Nat.lt_of_le_of_lt (Nat.le_trans hextent (envelope.length_write_le value)) hfile

/-- A list within a file has no more items than the file has bytes. -/
theorem length_lt_of_within {items : List Value} {value : Value} {envelope : Wire.Envelope}
    (hpart : (Value.array items).Within value)
    (hfile : (envelope.wrap value).length < sizeLimit) : items.length < sizeLimit :=
  Nat.lt_of_le_of_lt (Nat.le_trans hpart.extent_le (envelope.length_write_le value)) hfile

/-! ## Saved trees -/

theorem Location.within_file (location : Location) :
    (Value.text location.file).Within location.toValue :=
  .field 0 rfl (.self _)

theorem CursorKind.within_name (kind : CursorKind) :
    (Value.text kind.name).Within kind.toValue := by
  cases kind with
  | unexposed name => exact .map (by simp) (.self (.text name))
  | _ => exact .self _

theorem Node.within_of_mem_texts {node : Node} {text : String} (htext : text ∈ node.texts) :
    (Value.text text).Within node.toValue := by
  simp only [Node.texts, List.mem_append, List.mem_cons, List.not_mem_nil, or_false,
    Option.mem_toList] at htext
  rcases htext with (rfl | rfl | rfl) | hincluded
  · exact .field 0 rfl node.kind.within_name
  · exact .field 1 rfl (.self _)
  · exact .field 2 rfl node.location.within_file
  · refine .field 6 rfl ?_
    rw [hincluded]
    exact .self _

namespace CursorTree

theorem within_node {tree : CursorTree} {node : Node} (hnode : node ∈ tree.nodes.toList)
    {part : Value} (hpart : part.Within node.toValue) : part.Within tree.toValue :=
  .field 1 rfl (.list hnode hpart)

theorem within_of_mem_texts {tree : CursorTree} {text : String} (htext : text ∈ tree.texts) :
    (Value.text text).Within tree.toValue := by
  rcases List.mem_cons.mp htext with rfl | hnodes
  · exact .field 0 rfl (.self _)
  · obtain ⟨node, hnode, hmem⟩ := List.mem_flatMap.mp hnodes
    exact within_node hnode (Node.within_of_mem_texts hmem)

/-- A well linked tree with a short file fits the format. -/
theorem WellLinked.fits {tree : CursorTree} (hlinked : tree.WellLinked)
    (hfile : tree.toBytes.length < sizeLimit) : tree.Fits := by
  have hsize : tree.nodes.size < sizeLimit := by
    have hnodes := length_lt_of_within (.field 1 rfl (.self _)) hfile
    rwa [List.length_map, Array.length_toList] at hnodes
  refine ⟨fun text htext => shortText_of_within (within_of_mem_texts htext) hfile, hsize, ?_, ?_⟩
  · intro node hnode
    have hchildren := length_lt_of_within (within_node hnode (.field 3 rfl (.self _))) hfile
    rwa [List.length_map, Array.length_toList] at hchildren
  · intro node hnode target htarget
    exact Nat.lt_trans (hlinked.targets node hnode target htarget) hsize

end CursorTree

/-! ## Stored records -/

namespace Record

theorem within_of_mem_texts {record : Record} {text : String} (htext : text ∈ record.texts) :
    (Value.text text).Within record.toValue := by
  simp only [texts, List.mem_append, List.mem_cons, List.mem_map, List.mem_flatMap,
    List.not_mem_nil, or_false] at htext
  rcases htext with ((((rfl | hflag) | ⟨location, hlocation, rfl⟩) | ⟨entry, hentry, hfile⟩) |
    ⟨entry, hentry, hfile⟩) | ⟨entry, hentry, hfile⟩
  · exact .field 0 rfl (.self _)
  · exact .field 1 rfl (.list hflag (.self _))
  · exact .field 2 rfl (.list hlocation (.field 0 rfl location.within_file))
  · refine .field 3 rfl (.list hentry ?_)
    rcases hfile with rfl | rfl
    · exact .field 0 rfl entry.location.within_file
    · exact .field 1 rfl entry.definition.within_file
  · refine .field 4 rfl (.list hentry ?_)
    rcases hfile with rfl | rfl
    · exact .field 0 rfl entry.location.within_file
    · exact .field 1 rfl entry.referenced.within_file
  · refine .field 5 rfl (.list hentry ?_)
    rcases hfile with rfl | rfl
    · exact .field 0 rfl (.self _)
    · exact .field 1 rfl (.self _)

theorem length_savedTree_le (record : Record) :
    record.savedTree.length ≤ record.toBytes.length := by
  have hpart : (Value.bin record.savedTree).Within record.toValue := .field 6 rfl (.self _)
  exact Nat.le_trans hpart.extent_le (envelope.length_write_le record.toValue)

/-- A record with a short file fits the format. -/
theorem fits_of_length_lt {record : Record} (hfile : record.toBytes.length < sizeLimit) :
    record.Fits := by
  refine ⟨fun text htext => shortText_of_within (within_of_mem_texts htext) hfile, ?_, ?_, ?_, ?_,
    ?_, Nat.lt_of_le_of_lt record.length_savedTree_le hfile⟩
  · have hflags := length_lt_of_within (.field 1 rfl (.self _)) hfile
    rwa [List.length_map] at hflags
  · have hdeclarations := length_lt_of_within (.field 2 rfl (.self _)) hfile
    rwa [List.length_map, Array.length_toList] at hdeclarations
  · have hdefinitions := length_lt_of_within (.field 3 rfl (.self _)) hfile
    rwa [List.length_map, Array.length_toList] at hdefinitions
  · have hreferences := length_lt_of_within (.field 4 rfl (.self _)) hfile
    rwa [List.length_map, Array.length_toList] at hreferences
  · have hheaders := length_lt_of_within (.field 5 rfl (.self _)) hfile
    rwa [List.length_map, Array.length_toList] at hheaders

end Record
end SourceIndex
