import Mathlib.Data.List.DropRight
import SourceLint.Proofs.Text.Occurrences
import SourceLint.Text.Blank

/-!
# What a comment says from some place on

A remark goes up to the end of a line or up to a delimiter that closes a comment, whichever comes first.
-/

namespace SourceLint

/-- A remark does not go on with the text: the text is over, or the line is, or a closing delimiter follows. -/
inductive EndsRemark : (cs : List Char) → Prop
  | nothing : EndsRemark []
  | line {c : Char} (cs : List Char) (newline : c = '\n' ∨ c = '\r') : EndsRemark (c :: cs)
  | delimiter (cs : List Char) : EndsRemark ('*' :: '/' :: cs)

/-- A remark that ends where some text begins ends there whatever comes behind the text. -/
theorem EndsRemark.append {cs : List Char} (h : EndsRemark cs) (hne : cs ≠ []) (ds : List Char) :
    EndsRemark (cs ++ ds) := by
  cases h with
  | nothing => exact absurd rfl hne
  | line cs newline => exact .line (cs ++ ds) newline
  | delimiter cs => exact .delimiter (cs ++ ds)

/-- What is before the first occurrence of a piece does not have it. -/
theorem exists_of_beforeFirst {piece : List Char} (hpiece : piece ≠ []) (cs : List Char) :
    ∃ rest, cs = beforeFirst piece cs ++ rest ∧ (rest = [] ∨ piece <+: rest) ∧ ¬piece <:+: beforeFirst piece cs := by
  induction cs with
  | nil => exact ⟨[], rfl, .inl rfl, fun h => hpiece (List.infix_nil.1 h)⟩
  | cons c cs ih =>
      rw [beforeFirst]
      split
      · rename_i hprefix
        exact ⟨c :: cs, rfl, .inr (List.isPrefixOf_iff_prefix.1 hprefix), fun h => hpiece (List.infix_nil.1 h)⟩
      · rename_i hprefix
        obtain ⟨rest, hparts, hrest, hnone⟩ := ih
        refine ⟨rest, congrArg (c :: ·) hparts, hrest, fun h => ?_⟩
        rcases List.infix_cons_iff.1 h with hstarts | hlater
        · refine hprefix (List.isPrefixOf_iff_prefix.2 (hstarts.trans ?_))
          exact ⟨rest, congrArg (c :: ·) hparts.symm⟩
        · exact hnone hlater

/-- A remark is the part of a text that ends where it does not go on, and has neither a line break nor a closing
delimiter in it. -/
theorem exists_of_restOfRemark (cs : List Char) :
    ∃ rest, cs = restOfRemark cs ++ rest ∧ EndsRemark rest ∧ (∀ c ∈ restOfRemark cs, c ≠ '\n' ∧ c ≠ '\r') ∧
      ¬['*', '/'] <:+: restOfRemark cs := by
  obtain ⟨line, behind, hline, hplain, hends⟩ := exists_span (fun c => c != '\n' && c != '\r') cs
  have hrest : restOfLine cs = line := by rw [hline, restOfLine, takeWhile_span hplain hends]
  obtain ⟨rest, hparts, hstops, hnone⟩ := exists_of_beforeFirst (by simp : ['*', '/'] ≠ []) line
  rw [restOfRemark, hrest]
  refine ⟨rest ++ behind, ?_, ?_, fun c hc => ?_, hnone⟩
  · rw [← List.append_assoc, ← hparts, hline]
  · rcases hstops with rfl | ⟨more, rfl⟩
    · cases behind with
      | nil => exact .nothing
      | cons c behind =>
          refine .line behind ?_
          have hc := hends c rfl
          rw [Bool.and_eq_false_iff] at hc
          simpa using hc
    · exact .delimiter _
  · have hmem : c ∈ line := by
      rw [hparts]
      exact List.mem_append_left rest hc
    simpa using hplain c hmem

theorem restOfLine_append {said : List Char} (hline : ∀ c ∈ said, c ≠ '\n' ∧ c ≠ '\r') (rest : List Char) :
    restOfLine (said ++ rest) = said ++ restOfLine rest := by
  refine List.takeWhile_append_of_pos fun c hc => ?_
  simpa using hline c hc

/-- Conversely, such a part is the remark. -/
theorem restOfRemark_append {said rest : List Char} (hline : ∀ c ∈ said, c ≠ '\n' ∧ c ≠ '\r')
    (hnone : ¬['*', '/'] <:+: said) (hrest : EndsRemark rest) : restOfRemark (said ++ rest) = said := by
  rw [restOfRemark, restOfLine_append hline]
  refine beforeFirst_append (by decide) hnone ?_
  cases hrest with
  | nothing => exact .inl rfl
  | line cs newline =>
      left
      rcases newline with rfl | rfl <;> rfl
  | delimiter cs => exact .inr ⟨restOfLine cs, rfl⟩

/-- White space is cut off from the end of a text. -/
theorem exists_of_trimBlanksRight (cs : List Char) :
    ∃ blank, cs = trimBlanksRight cs ++ blank ∧ (∀ c ∈ blank, isBlank c = true) ∧
      ∀ c ∈ (trimBlanksRight cs).getLast?, isBlank c = false := by
  have htrim : trimBlanksRight cs = cs.rdropWhile isBlank := rfl
  refine ⟨cs.rtakeWhile isBlank, List.rdropWhile_append_rtakeWhile.symm, fun c hc => ?_, fun c hc => ?_⟩
  · exact List.mem_takeWhile_imp (List.mem_reverse.1 hc)
  · rw [htrim] at hc
    obtain ⟨hne, rfl⟩ := List.mem_getLast?_eq_getLast hc
    exact Bool.eq_false_iff.2 (List.rdropWhile_last_not isBlank cs hne)

end SourceLint
