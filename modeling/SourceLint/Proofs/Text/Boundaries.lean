import SourceLint.Span

/-!
# Places between characters

An offset is a place between two characters of a text, or at one of its ends, when the text splits there. Any
offset has a last such place at or before it, which is the end of the text for offsets past the end and the
first byte of the character for offsets inside a character.
-/

namespace SourceLint

theorem isBoundary_iff {n : Nat} {cs : List Char} :
    IsBoundary n cs ↔ ∃ front back, cs = front ++ back ∧ byteLength front = n := by
  rw [IsBoundary, Option.isSome_iff_exists]
  constructor
  · rintro ⟨back, hback⟩
    obtain ⟨front, hcs, hlength⟩ := eq_append_of_dropBytes? hback
    exact ⟨front, back, hcs, hlength⟩
  · rintro ⟨front, back, rfl, rfl⟩
    exact ⟨back, dropBytes?_append front back⟩

/-- A place that comes no earlier than the end of a first part is a place of the rest. -/
theorem isBoundary_of_append {n : Nat} {front rest : List Char} (h : IsBoundary n (front ++ rest))
    (hle : byteLength front ≤ n) : IsBoundary (n - byteLength front) rest := by
  obtain ⟨before, behind, hparts, rfl⟩ := isBoundary_iff.1 h
  rcases List.append_eq_append_iff.1 hparts with ⟨piece, rfl, rfl⟩ | ⟨piece, rfl, rfl⟩
  · exact isBoundary_iff.2 ⟨piece, behind, rfl, by rw [byteLength_append, Nat.add_sub_cancel_left]⟩
  · rw [byteLength_append] at hle ⊢
    exact isBoundary_iff.2 ⟨[], rest, rfl, by rw [byteLength_nil]; omega⟩

theorem IsBoundary.le {n : Nat} {source : String} (h : IsBoundary n source.toList) :
    n ≤ source.utf8ByteSize := by
  obtain ⟨front, back, hsource, hlength⟩ := isBoundary_iff.1 h
  calc
    n = byteLength front := hlength.symm
    _ ≤ byteLength (front ++ back) := by rw [byteLength_append]; exact Nat.le_add_right _ _
    _ = source.utf8ByteSize := by rw [← hsource, byteLength_toList]

/-- The piece stands in the text at the offset. -/
def StandsAt (piece : List Char) (offset : Nat) (cs : List Char) : Prop :=
  ∃ front back, cs = front ++ piece ++ back ∧ byteLength front = offset

theorem StandsAt.isBoundary {piece cs : List Char} {offset : Nat} (h : StandsAt piece offset cs) :
    IsBoundary offset cs := by
  obtain ⟨front, back, hcs, hlength⟩ := h
  exact isBoundary_iff.2 ⟨front, piece ++ back, by rw [hcs, List.append_assoc], hlength⟩

/-- The place is the last one between characters that comes at the offset or before it. -/
structure IsLastBoundary (offset : Nat) (cs : List Char) (place : Nat) : Prop where
  isBoundary : IsBoundary place cs
  le : place ≤ offset
  last : ∀ n, IsBoundary n cs → n ≤ offset → n ≤ place

theorem IsLastBoundary.eq_of_isBoundary {offset place : Nat} {cs : List Char}
    (h : IsLastBoundary offset cs place) (hoffset : IsBoundary offset cs) : place = offset :=
  Nat.le_antisymm h.le (h.last offset hoffset (Nat.le_refl offset))

/-- The first character of the rest goes on beyond the offset, if there is a rest. -/
def EndsBeyond (offset : Nat) (front rest : List Char) : Prop :=
  ∀ c ∈ rest.head?, offset < byteLength front + c.utf8Size

theorem EndsBeyond.isLastBoundary {offset : Nat} {front rest : List Char}
    (h : EndsBeyond offset front rest) (hle : byteLength front ≤ offset) :
    IsLastBoundary offset (front ++ rest) (byteLength front) := by
  refine ⟨isBoundary_iff.2 ⟨front, rest, rfl, rfl⟩, hle, fun n hn hoffset => ?_⟩
  obtain ⟨front', rest', hsplit, rfl⟩ := isBoundary_iff.1 hn
  rcases List.append_eq_append_iff.1 hsplit with ⟨piece, rfl, rfl⟩ | ⟨piece, rfl, -⟩
  · cases piece with
    | nil => simp
    | cons c piece =>
        have hbeyond := h c rfl
        rw [byteLength_append, byteLength_cons] at hoffset
        omega
  · rw [byteLength_append]
    exact Nat.le_add_right _ _

/-- A text is cut at the last place at an offset or before it. -/
theorem exists_endsBeyond (offset : Nat) (cs : List Char) :
    ∃ front rest, cs = front ++ rest ∧ byteLength front ≤ offset ∧ EndsBeyond offset front rest := by
  induction cs generalizing offset with
  | nil => exact ⟨[], [], rfl, Nat.zero_le _, by simp [EndsBeyond]⟩
  | cons c cs ih =>
      by_cases hc : c.utf8Size ≤ offset
      · obtain ⟨front, rest, rfl, hle, hbeyond⟩ := ih (offset - c.utf8Size)
        refine ⟨c :: front, rest, rfl, by rw [byteLength_cons]; omega, fun d hd => ?_⟩
        have := hbeyond d hd
        rw [byteLength_cons]
        omega
      · refine ⟨[], c :: cs, rfl, Nat.zero_le _, fun d hd => ?_⟩
        obtain rfl := Option.some.inj hd
        simpa using hc

end SourceLint
