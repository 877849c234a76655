import SourceLint.Proofs.Text.Remarks

/-!
# White space in texts

A text is cut into words at its white space. Where white space begins a part of a text, the words before it are those
of the first part alone. A trimmed text is what is left between white space. White space around a text does not change
what trimming leaves, and neither does it matter whether characters are replaced before or after it, as long as white
space stays white space.
-/

namespace SourceLint

variable {word gap cs ds before after : List Char}

/-! ### Words -/

/-- A word that has begun ends where white space begins. -/
theorem collect_append (word cs : List Char) (hds : ∀ c ∈ ds.head?, isBlank c = true) :
    blankSeparated.collect word (cs ++ ds) = blankSeparated.collect word cs ++ blankSeparated.collect [] ds := by
  induction cs generalizing word with
  | nil =>
      cases word with
      | nil => rfl
      | cons w word =>
          cases ds with
          | nil => rfl
          | cons d ds => simp [blankSeparated.collect, hds d rfl]
  | cons c cs ih =>
      rw [List.cons_append, blankSeparated.collect, blankSeparated.collect]
      split
      · split
        · exact ih []
        · rw [ih [], List.cons_append]
      · exact ih (word ++ [c])

/-- Where white space begins, the words before it end. -/
theorem blankSeparated_append (cs : List Char) (hds : ∀ c ∈ ds.head?, isBlank c = true) :
    blankSeparated (cs ++ ds) = blankSeparated cs ++ blankSeparated ds :=
  collect_append [] cs hds

/-- White space before the first word is passed over. -/
theorem blankSeparated_blank_append (hgap : ∀ c ∈ gap, isBlank c = true) (cs : List Char) :
    blankSeparated (gap ++ cs) = blankSeparated cs := by
  induction gap with
  | nil => rfl
  | cons c gap ih =>
      rw [← ih fun d hd => hgap d (List.mem_cons_of_mem c hd)]
      simp [blankSeparated, blankSeparated.collect, hgap c List.mem_cons_self]

theorem collect_plain (word : List Char) (hplain : ∀ c ∈ cs, isBlank c = false) :
    blankSeparated.collect word cs = if (word ++ cs).isEmpty then [] else [word ++ cs] := by
  induction cs generalizing word with
  | nil => simp [blankSeparated.collect]
  | cons c cs ih =>
      have hrest := ih (word ++ [c]) fun d hd => hplain d (List.mem_cons_of_mem c hd)
      rw [blankSeparated.collect, hplain c List.mem_cons_self, hrest, List.append_assoc]
      rfl

/-- A text without white space is one word. -/
theorem blankSeparated_plain (hne : word ≠ []) (hplain : ∀ c ∈ word, isBlank c = false) :
    blankSeparated word = [word] := by
  rw [blankSeparated, collect_plain [] hplain, List.nil_append, if_neg (by simpa using hne)]

/-! ### Trimming -/

/-- What trimming takes away is white space on both sides. -/
theorem exists_of_trimBlanks (cs : List Char) :
    ∃ before after, cs = before ++ trimBlanks cs ++ after ∧ (∀ c ∈ before, isBlank c = true) ∧
      ∀ c ∈ after, isBlank c = true := by
  obtain ⟨after, hafter, hblank, -⟩ := exists_of_trimBlanksRight (cs.dropWhile isBlank)
  refine ⟨cs.takeWhile isBlank, after, ?_, fun c hc => List.mem_takeWhile_imp hc, hblank⟩
  calc
    cs = cs.takeWhile isBlank ++ cs.dropWhile isBlank := List.takeWhile_append_dropWhile.symm
    _ = cs.takeWhile isBlank ++ (trimBlanks cs ++ after) := congrArg _ hafter
    _ = cs.takeWhile isBlank ++ trimBlanks cs ++ after := (List.append_assoc _ _ _).symm

theorem trimBlanksRight_append (cs : List Char) (hafter : ∀ c ∈ after, isBlank c = true) :
    trimBlanksRight (cs ++ after) = trimBlanksRight cs := by
  have hreverse : ∀ c ∈ after.reverse, isBlank c = true := fun c hc => hafter c (List.mem_reverse.1 hc)
  rw [trimBlanksRight, List.reverse_append, List.dropWhile_append_of_pos hreverse, trimBlanksRight]

/-- White space around a text does not matter. -/
theorem trimBlanks_padded (hbefore : ∀ c ∈ before, isBlank c = true) (cs : List Char)
    (hafter : ∀ c ∈ after, isBlank c = true) : trimBlanks (before ++ cs ++ after) = trimBlanks cs := by
  rw [trimBlanks, List.append_assoc, List.dropWhile_append_of_pos hbefore, List.dropWhile_append]
  split
  · rename_i hempty
    -- the text is white space itself
    rw [List.dropWhile_eq_nil_iff.2 hafter, trimBlanks, List.isEmpty_iff.1 hempty]
  · exact trimBlanksRight_append _ hafter

theorem trimBlanks_trimBlanks (cs : List Char) : trimBlanks (trimBlanks cs) = trimBlanks cs := by
  obtain ⟨before, after, hcs, hbefore, hafter⟩ := exists_of_trimBlanks cs
  calc
    trimBlanks (trimBlanks cs) = trimBlanks (before ++ trimBlanks cs ++ after) :=
      (trimBlanks_padded hbefore _ hafter).symm
    _ = trimBlanks cs := congrArg trimBlanks hcs.symm

theorem trimBlanks_eq_self (h : ∀ c ∈ cs, isBlank c = false) : trimBlanks cs = cs := by
  obtain ⟨before, after, hcs, hbefore, hafter⟩ := exists_of_trimBlanks cs
  have hnone : ∀ {piece : List Char}, piece ⊆ cs → (∀ c ∈ piece, isBlank c = true) → piece = [] := by
    intro piece hsub hblank
    refine List.eq_nil_iff_forall_not_mem.2 fun c hc => Bool.false_ne_true ?_
    exact (h c (hsub hc)).symm.trans (hblank c hc)
  have hleft : before = [] := hnone (hcs ▸ by simp) hbefore
  have hright : after = [] := hnone (hcs ▸ by simp) hafter
  rw [hleft, hright, List.nil_append, List.append_nil] at hcs
  exact hcs.symm

/-- Replacing characters that are not white space by others that are not commutes with trimming. -/
theorem trimBlanks_map {f : Char → Char} (hf : ∀ c, isBlank (f c) = isBlank c) (cs : List Char) :
    trimBlanks (cs.map f) = (trimBlanks cs).map f := by
  have hcomp : isBlank ∘ f = isBlank := funext hf
  rw [trimBlanks, trimBlanks, trimBlanksRight, trimBlanksRight, List.dropWhile_map, hcomp,
    ← List.map_reverse, List.dropWhile_map, hcomp, ← List.map_reverse]

end SourceLint
