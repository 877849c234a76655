import SourceLint.Text.Offset

/-!
# Pieces of a text

A piece of a text is named by its first byte and its number of bytes. It is copied out of the text in one
go, without a walk over the characters before it. The main statement says that it is what cutting the
list of characters gives: `sliceBytes?_eq`.
-/

namespace SourceLint

/-- The piece of a text with the given first byte and number of bytes, if it lies in the text and cuts
no character. -/
def sliceBytes? (s : String) (start length : Nat) : Option String :=
  if h : (String.Pos.Raw.mk start).IsValid s ∧ (String.Pos.Raw.mk (start + length)).IsValid s then
    some (String.extract ⟨_, h.1⟩ ⟨_, h.2⟩)
  else none

/-- A position is valid when the text splits there. -/
theorem isValid_iff_exists {s : String} {n : Nat} :
    (String.Pos.Raw.mk n).IsValid s ↔
      ∃ front back, s.toList = front ++ back ∧ byteLength front = n := by
  rw [String.Pos.Raw.isValid_iff_exists_append]
  constructor
  · rintro ⟨front, back, rfl, hn⟩
    refine ⟨front.toList, back.toList, String.toList_append, ?_⟩
    rw [byteLength_toList, ← String.byteIdx_rawEndPos, ← hn]
  · rintro ⟨front, back, hs, hn⟩
    refine ⟨String.ofList front, String.ofList back, ?_, ?_⟩
    · rw [← String.ofList_append, ← hs, String.ofList_toList]
    · apply String.Pos.Raw.ext
      rw [String.byteIdx_rawEndPos, ← byteLength_toList, String.toList_ofList, hn]

/-- What is copied from behind the first of three parts up to the last one is the middle one. -/
theorem extract_eq {s front piece back : String} (hs : s = front ++ piece ++ back) {b e : s.Pos}
    (hb : b.offset.byteIdx = front.utf8ByteSize)
    (he : e.offset.byteIdx = front.utf8ByteSize + piece.utf8ByteSize) :
    String.extract b e = piece := by
  have hb : b.offset.byteIdx = front.toByteArray.size + 0 := hb
  have he : e.offset.byteIdx = front.toByteArray.size + piece.toByteArray.size := he
  rw [← String.toByteArray_inj, String.toByteArray_extract, hb, he, hs, String.append_assoc,
    String.toByteArray_append, String.toByteArray_append, ByteArray.extract_append_size_add,
    ByteArray.extract_append_eq_left rfl]

/-- Copying a piece of a text is cutting its list of characters twice. -/
theorem sliceBytes?_eq (s : String) (start length : Nat) :
    sliceBytes? s start length =
      ((dropBytes? start s.toList).bind (takeBytes? length)).map String.ofList := by
  rw [sliceBytes?]
  split
  · rename_i h
    obtain ⟨front, rest, hs, hstart⟩ := isValid_iff_exists.1 h.1
    obtain ⟨front', back, hs', hstop⟩ := isValid_iff_exists.1 h.2
    obtain ⟨piece, rfl, rfl⟩ : ∃ piece, front' = front ++ piece ∧ rest = piece ++ back := by
      rcases List.append_eq_append_iff.1 (hs.symm.trans hs') with h | ⟨piece, hfront, hback⟩
      · exact h
      · have hlen : byteLength piece = 0 := by
          rw [hfront, byteLength_append] at hstart; omega
        obtain rfl := byteLength_eq_zero_iff.1 hlen
        exact ⟨[], by simpa using hfront.symm, by simpa using hback.symm⟩
    obtain rfl : length = byteLength piece := by
      rw [byteLength_append] at hstop; omega
    have hcut : (dropBytes? start s.toList).bind (takeBytes? (byteLength piece)) = some piece := by
      rw [hs, ← hstart, dropBytes?_append, Option.bind_some, takeBytes?_append]
    have hparts : s = String.ofList front ++ String.ofList piece ++ String.ofList back := by
      rw [← String.ofList_append, ← String.ofList_append, List.append_assoc, ← hs,
        String.ofList_toList]
    rw [hcut, Option.map_some, extract_eq hparts]
    · rw [← byteLength_toList, String.toList_ofList, hstart]
    · rw [← byteLength_toList, ← byteLength_toList, String.toList_ofList, String.toList_ofList,
        hstart]
  · rename_i h
    symm
    rw [Option.map_eq_none_iff, Option.bind_eq_none_iff]
    intro rest hrest
    rw [Option.eq_none_iff_forall_ne_some]
    intro piece hpiece
    obtain ⟨front, hs, hstart⟩ := eq_append_of_dropBytes? hrest
    obtain ⟨back, rfl, hlength⟩ := eq_append_of_takeBytes? hpiece
    refine h ⟨isValid_iff_exists.2 ⟨front, _, hs, hstart⟩,
      isValid_iff_exists.2 ⟨front ++ piece, back, ?_, ?_⟩⟩
    · rw [hs, List.append_assoc]
    · rw [byteLength_append, hstart, hlength]

end SourceLint
