import Mathlib.Data.List.Basic
import SourceLint.Example
import SourceLint.Proofs.Text.Boundaries

/-!
# Marks in a text

A text with marks and a text with a list of offsets tell the same. Reading takes the marks out and notes where they
stood, and writing puts them back; each undoes the other. Not every list of offsets comes from marks: they ascend,
one for each mark that stands in one place, and each is a place between characters of a text that has no mark left.

## Main results

* `Example.marks_inverse`: reading and writing marks are inverse to each other, and what reading gives.

## Implementation notes

The offsets of a part of a text count from the beginning of the whole. So the lemmas here are about a text that begins
at some offset, without its marks, and the induction moves that offset on.
-/

namespace SourceLint.Example

/-- The offsets are those of marks in the text: places between characters of a text without marks, in ascending order.
A place comes more than once when several marks stand there. -/
structure WellPlaced (e : Example) : Prop where
  plain : violationMark ∉ e.text.toList
  ascending : e.offsets.Pairwise (· ≤ ·)
  isBoundary : ∀ o ∈ e.offsets, IsBoundary o e.text.toList

/-! ### Taking marks out -/

theorem unmarked_eq_filter (cs : List Char) : unmarked cs = cs.filter (· != violationMark) := by
  induction cs with
  | nil => rfl
  | cons c cs ih =>
      by_cases hc : c = violationMark
      · simp [unmarked, hc, ih]
      · simp [unmarked, hc, ih]

theorem unmarked_append (front rest : List Char) :
    unmarked (front ++ rest) = unmarked front ++ unmarked rest := by
  simp only [unmarked_eq_filter, List.filter_append]

theorem unmarked_of_not_mem {cs : List Char} (h : violationMark ∉ cs) : unmarked cs = cs := by
  rw [unmarked_eq_filter, List.filter_eq_self]
  intro c hc
  exact bne_iff_ne.2 (ne_of_mem_of_not_mem hc h)

theorem markOffsets_append (offset : Nat) (front rest : List Char) :
    markOffsets offset (front ++ rest) =
      markOffsets offset front ++ markOffsets (offset + byteLength (unmarked front)) rest := by
  induction front generalizing offset with
  | nil => rfl
  | cons c front ih =>
      by_cases hc : c = violationMark
      · simp [markOffsets, unmarked, hc, ih]
      · simp [markOffsets, unmarked, hc, ih, Nat.add_assoc]

theorem markOffsets_of_not_mem {cs : List Char} (h : violationMark ∉ cs) (offset : Nat) :
    markOffsets offset cs = [] := by
  induction cs generalizing offset with
  | nil => rfl
  | cons c cs ih =>
      rw [List.mem_cons, not_or] at h
      rw [markOffsets, if_neg (Ne.symm h.1), ih h.2]

/-- A mark stands behind some part of the text. -/
theorem exists_of_mem_markOffsets {offset o : Nat} {cs : List Char} (h : o ∈ markOffsets offset cs) :
    ∃ n, o = offset + n ∧ IsBoundary n (unmarked cs) := by
  induction cs generalizing offset with
  | nil => cases h
  | cons c cs ih =>
      rw [markOffsets] at h
      rw [unmarked]
      split
      · rename_i hc
        rw [if_pos hc] at h
        rcases List.mem_cons.1 h with rfl | h
        · exact ⟨0, rfl, isBoundary_iff.2 ⟨[], _, rfl, rfl⟩⟩
        · exact ih h
      · rename_i hc
        rw [if_neg hc] at h
        obtain ⟨n, rfl, hn⟩ := ih h
        obtain ⟨front, back, hparts, rfl⟩ := isBoundary_iff.1 hn
        exact ⟨byteLength (c :: front), by rw [byteLength_cons, Nat.add_assoc],
          isBoundary_iff.2 ⟨c :: front, back, by rw [hparts, List.cons_append], rfl⟩⟩

theorem le_of_mem_markOffsets {offset o : Nat} {cs : List Char} (h : o ∈ markOffsets offset cs) : offset ≤ o := by
  obtain ⟨n, rfl, -⟩ := exists_of_mem_markOffsets h
  exact Nat.le_add_right offset n

theorem pairwise_markOffsets (offset : Nat) (cs : List Char) : (markOffsets offset cs).Pairwise (· ≤ ·) := by
  induction cs generalizing offset with
  | nil => exact .nil
  | cons c cs ih =>
      rw [markOffsets]
      split
      · exact List.pairwise_cons.2 ⟨fun o ho => le_of_mem_markOffsets ho, ih offset⟩
      · exact ih _

theorem wellPlaced_ofMarked (m : String) : (ofMarked m).WellPlaced where
  plain := by simp [ofMarked, unmarked_eq_filter]
  ascending := pairwise_markOffsets 0 m.toList
  isBoundary := by
    intro o ho
    obtain ⟨n, rfl, hn⟩ := exists_of_mem_markOffsets ho
    rwa [Nat.zero_add, ofMarked, String.toList_ofList]

/-! ### Putting marks in -/

theorem insertMarks_nil (offset : Nat) (cs : List Char) : insertMarks offset [] cs = cs := by
  rw [insertMarks]

/-- The text goes on unchanged up to the place of the first mark. -/
theorem insertMarks_append (offset : Nat) (marks : List Nat) (front rest : List Char) :
    insertMarks offset ((offset + byteLength front) :: marks) (front ++ rest) =
      front ++ violationMark :: insertMarks (offset + byteLength front) marks rest := by
  induction front generalizing offset with
  | nil => cases rest <;> simp [insertMarks]
  | cons c front ih =>
      have hpos := c.utf8Size_pos
      have hlater : offset + byteLength (c :: front) ≠ offset := by
        rw [byteLength_cons]
        omega
      rw [List.cons_append, insertMarks, if_neg hlater, byteLength_cons, ← Nat.add_assoc, ih, List.cons_append]

/-- Before the first mark a character is copied. -/
theorem insertMarks_cons {offset : Nat} {c : Char} {marks : List Nat}
    (h : ∀ mark ∈ marks, offset + c.utf8Size ≤ mark) (cs : List Char) :
    insertMarks offset marks (c :: cs) = c :: insertMarks (offset + c.utf8Size) marks cs := by
  cases marks with
  | nil => rw [insertMarks_nil, insertMarks_nil]
  | cons mark marks =>
      have hpos := c.utf8Size_pos
      have hle := h mark List.mem_cons_self
      rw [insertMarks, if_neg (by omega)]

/-- Marks put back where they stood. -/
theorem insertMarks_markOffsets (offset : Nat) (cs : List Char) :
    insertMarks offset (markOffsets offset cs) (unmarked cs) = cs := by
  induction cs generalizing offset with
  | nil => exact insertMarks_nil offset []
  | cons c cs ih =>
      rw [markOffsets, unmarked]
      split
      · rename_i hc
        have hput := insertMarks_append offset (markOffsets offset cs) [] (unmarked cs)
        simp only [byteLength_nil, Nat.add_zero, List.nil_append] at hput
        rw [hput, ih, hc]
      · rw [insertMarks_cons fun mark hmark => le_of_mem_markOffsets hmark, ih]

theorem marked_ofMarked (m : String) : (ofMarked m).marked = m := by
  rw [marked, ofMarked, String.toList_ofList, insertMarks_markOffsets, String.ofList_toList]

/-- Marks put in at places of a text without marks are found there again, and the text is left. The induction is on
the marks; each splits the text, and later marks have places in the rest. -/
theorem unmarked_insertMarks {offset : Nat} {marks : List Nat} {cs : List Char} (hplain : violationMark ∉ cs)
    (hascending : marks.Pairwise (· ≤ ·)) (hplaces : ∀ mark ∈ marks, ∃ n, mark = offset + n ∧ IsBoundary n cs) :
    unmarked (insertMarks offset marks cs) = cs ∧ markOffsets offset (insertMarks offset marks cs) = marks := by
  induction marks generalizing offset cs with
  | nil =>
      rw [insertMarks_nil]
      exact ⟨unmarked_of_not_mem hplain, markOffsets_of_not_mem hplain offset⟩
  | cons mark marks ih =>
      obtain ⟨hfirst, hlater⟩ := List.pairwise_cons.1 hascending
      obtain ⟨_, rfl, hplace⟩ := hplaces mark List.mem_cons_self
      obtain ⟨front, rest, rfl, rfl⟩ := isBoundary_iff.1 hplace
      rw [List.mem_append, not_or] at hplain
      have hrest : ∀ mark ∈ marks, ∃ n, mark = offset + byteLength front + n ∧ IsBoundary n rest := by
        intro mark hmark
        obtain ⟨n, rfl, hn⟩ := hplaces mark (List.mem_cons_of_mem _ hmark)
        have hle := hfirst _ hmark
        refine ⟨n - byteLength front, by omega, ?_⟩
        exact isBoundary_of_append hn (by omega)
      obtain ⟨htext, hmarks⟩ := ih hplain.2 hlater hrest
      rw [insertMarks_append, unmarked_append, markOffsets_append, unmarked_of_not_mem hplain.1,
        markOffsets_of_not_mem hplain.1]
      simp [unmarked, markOffsets, htext, hmarks]

theorem ofMarked_marked {e : Example} (h : e.WellPlaced) : ofMarked e.marked = e := by
  obtain ⟨text, offsets⟩ := e
  have hplaces : ∀ o ∈ offsets, ∃ n, o = 0 + n ∧ IsBoundary n text.toList :=
    fun o ho => ⟨o, (Nat.zero_add o).symm, h.isBoundary o ho⟩
  obtain ⟨htext, hoffsets⟩ := unmarked_insertMarks h.plain h.ascending hplaces
  rw [marked, ofMarked, String.toList_ofList, htext, hoffsets, String.ofList_toList]

/-- Reading a text with marks gives a text without marks and offsets of places in it, none beyond its end, and the
marks put back there give the text that was read. And marks put into any text at any such offsets are read as that
text with those offsets. -/
theorem marks_inverse :
    (∀ m : String, (ofMarked m).WellPlaced ∧ (∀ o ∈ (ofMarked m).offsets, o ≤ (ofMarked m).text.utf8ByteSize) ∧
      (ofMarked m).marked = m) ∧
    ∀ e : Example, e.WellPlaced → ofMarked e.marked = e := by
  constructor
  · intro m
    have hplaced := wellPlaced_ofMarked m
    exact ⟨hplaced, fun o ho => (hplaced.isBoundary o ho).le, marked_ofMarked m⟩
  · intro e he
    exact ofMarked_marked he

/-- Two marks at the beginning, one at the end, and a character of two bytes between them. -/
theorem marks_inverse_accents :
    let e : Example := ⟨"é;", [0, 0, 3]⟩
    ofMarked "↓↓é;↓" = e ∧ e.WellPlaced ∧ e.marked = "↓↓é;↓" ∧ ofMarked e.marked = e := by
  intro e
  have hread : ofMarked "↓↓é;↓" = e := by decide +kernel
  obtain ⟨hplaced, -, hmarked⟩ := marks_inverse.1 "↓↓é;↓"
  rw [hread] at hplaced hmarked
  exact ⟨hread, hplaced, hmarked, marks_inverse.2 e hplaced⟩

end SourceLint.Example
