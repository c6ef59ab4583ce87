import SourceIndex.Proofs.Record.Stored
import SourceIndex.Proofs.Wire.Truncation

/-!
# Cut files are refused

A stored record or a saved tree that was only written in part is refused: within
its marks because they are not whole, and behind them because the value is not
read.  So it is never taken for a shorter file.

This holds for what fits the format.  It does NOT hold beyond: a part of `2 ^ 32`
bytes is written under the size zero, and then the file starts with the whole file
of a smaller record (`not_every_cut_refused`).
-/

namespace SourceIndex

open Wire (sizeWord)

namespace Record

/-- A stored record that was cut within its marks. -/
theorem ofBytes_of_length_lt {cut : Bytes} (hshort : cut.length < 5) :
    ofBytes cut = .error .badMagic := by
  rw [ofBytes, Wire.Envelope.unwrap_of_length_le envelope (Nat.le_of_lt_succ hshort)]

/-- A stored record that was cut behind its marks. -/
theorem ofBytes_of_cut {record : Record} (hfits : record.Fits) {cut : Bytes}
    (hcut : cut <+: record.toBytes) (hless : cut ≠ record.toBytes) (hlong : 5 ≤ cut.length) :
    ofBytes cut = .error .undecodable := by
  obtain ⟨body, hunwrap, hbody, hpart⟩ :=
    Wire.Envelope.exists_unwrap_of_cut envelope hcut hless hlong
  have hdecode : Wire.decode body = none :=
    Wire.decode_eq_none_of_cut (portable_toValue 1019 hfits) hbody hpart
  simp [ofBytes, hunwrap, hdecode]

end Record

namespace CursorTree

/-- A saved tree that was cut within its marks. -/
theorem ofBytes_of_length_lt {cut : Bytes} (hshort : cut.length < 5) :
    ofBytes cut = .error .missingHeader := by
  rw [ofBytes, Wire.Envelope.unwrap_of_length_le envelope (Nat.le_of_lt_succ hshort)]

/-- A saved tree that was cut behind its marks, whatever its links are. -/
theorem ofBytes_of_cut {tree : CursorTree} (hfits : tree.Fits) {cut : Bytes}
    (hcut : cut <+: tree.toBytes) (hless : cut ≠ tree.toBytes) (hlong : 5 ≤ cut.length) :
    ofBytes cut = .error .undecodable := by
  obtain ⟨body, hunwrap, hbody, hpart⟩ :=
    Wire.Envelope.exists_unwrap_of_cut envelope hcut hless hlong
  have hdecode : Wire.decode body = none :=
    Wire.decode_eq_none_of_cut (portable_toValue 1019 hfits) hbody hpart
  simp [ofBytes, ofBody, hunwrap, hdecode]

end CursorTree

/-- **Cut files are refused.**  No part of a stored record or of a saved tree is
accepted, wherever the cut falls: a part of fewer than five bytes has no marks, and
a longer one cannot be decoded. -/
theorem cut_files_refused :
    (∀ record : Record, record.Fits → ∀ cut, cut <+: record.toBytes → cut ≠ record.toBytes →
      Record.ofBytes cut = .error (if cut.length < 5 then .badMagic else .undecodable)) ∧
    ∀ tree : CursorTree, tree.Fits → ∀ cut, cut <+: tree.toBytes → cut ≠ tree.toBytes →
      CursorTree.ofBytes cut = .error (if cut.length < 5 then .missingHeader else .undecodable) := by
  constructor
  · intro record hfits cut hcut hless
    split
    next hshort => exact Record.ofBytes_of_length_lt hshort
    next hlong => exact Record.ofBytes_of_cut hfits hcut hless (Nat.le_of_not_lt hlong)
  · intro tree hfits cut hcut hless
    split
    next hshort => exact CursorTree.ofBytes_of_length_lt hshort
    next hlong => exact CursorTree.ofBytes_of_cut hfits hcut hless (Nat.le_of_not_lt hlong)

theorem cut_files_refused_samples :
    Record.widthSample.Fits ∧ CursorTree.loopSample.Fits ∧
      Record.ofBytes Record.widthSample.toBytes.dropLast = .error .undecodable ∧
      CursorTree.ofBytes (CursorTree.loopSample.toBytes.take 4) = .error .missingHeader := by
  have hrecord : Record.widthSample.Fits := by decide
  have htree : CursorTree.loopSample.Fits := by decide
  refine ⟨hrecord, htree, ?_, ?_⟩
  · rw [cut_files_refused.1 _ hrecord _ (List.dropLast_prefix _) (by decide +kernel),
      if_neg (by decide +kernel)]
  · rw [cut_files_refused.2 _ htree _ (List.take_prefix 4 _) (by decide +kernel),
      if_pos (by decide +kernel)]

/-! ## Sizes that do not fit -/

/-- A record of nothing but a saved tree of zero bytes. -/
def paddedSample (size : Nat) : Record where
  path := ""
  savedTree := List.replicate size 0

/-- The stored form of such a record starts with that of an empty record if the low
order bits of its size are zero. -/
theorem toBytes_paddedSample {size : Nat} (hsize : sizeWord size = 0) :
    (paddedSample size).toBytes = (paddedSample 0).toBytes ++ List.replicate size 0 := by
  have hzero : sizeWord 0 = 0 := rfl
  simp [paddedSample, Record.toBytes, Wire.Envelope.wrap, Wire.Value.write, Record.toValue,
    Wire.Value.text, Wire.Value.writeBefore, Wire.writeAllBefore, hsize, hzero]

/-- A record of `2 ^ 32` bytes and more can be cut so that an empty record is
left. -/
theorem not_every_cut_refused :
    ¬∀ (record : Record) (cut : Bytes), cut <+: record.toBytes → cut ≠ record.toBytes →
      ∃ fault, Record.ofBytes cut = .error fault := by
  intro hrefused
  have hsize : sizeWord 0x100000000 = 0 := rfl
  have hbytes := toBytes_paddedSample hsize
  generalize hpadding : List.replicate 0x100000000 (0 : UInt8) = padding at hbytes
  have hmore : padding ≠ [] := by
    intro hnil
    have hlength := congrArg List.length hpadding
    rw [hnil, List.length_replicate, List.length_nil] at hlength
    omega
  obtain ⟨fault, hfault⟩ := hrefused (paddedSample 0x100000000) (paddedSample 0).toBytes
    ⟨padding, hbytes.symm⟩ (by rw [hbytes]; simpa using hmore)
  have haccepted := Record.ofBytes_toBytes_append (show (paddedSample 0).Fits by decide) []
  rw [List.append_nil] at haccepted
  rw [haccepted] at hfault
  cases hfault

end SourceIndex
