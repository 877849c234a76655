import SourceLint.Correction.Passes
import SourceLint.Proofs.Basic
import SourceLint.Proofs.SortedTable

/-!
# Runs of correction one after the other

A run with a limit on its passes may be cut anywhere: running up to one limit and then, from what that
has left, up to another one comes to running up to the sum of both. A run that stops before its limit
stands at a text that no further run changes. This needs nothing of the rules: they may be any, and they
may never settle.
-/

namespace SourceLint

/-- What came of one run and of a later one that goes on with its text. -/
def CorrectedText.andThen (first later : CorrectedText) : CorrectedText where
  content := later.content
  applied := SortedTable.addCounts first.applied later.applied
  skipped := first.skipped + later.skipped
  passes := first.passes + later.passes

namespace Corrector

variable {corrector : Corrector} {linter : Linter} {source : String} {violations : List Violation}
  {limit : Nat} {result : CorrectedText}

/-! ### Passes that change nothing -/

/-- Without a correction that may be applied the text stays. -/
theorem content_of_not_canFix (h : ∀ v ∈ violations, corrector.canFix v = false) :
    (corrector.apply source violations).content = source := by
  have hnone : violations.filterMap corrector.proposal? = [] := by
    rw [List.filterMap_eq_nil_iff]
    intro v hv
    have hfix := h v hv
    rw [canFix, Violation.isCorrectable, Bool.and_eq_false_iff] at hfix
    rw [proposal?]
    rcases hfix with hplain | hunfixable
    · rw [Option.isSome_eq_false_iff, Option.isNone_iff_eq_none] at hplain
      rw [hplain, Option.map_none, ite_self]
    · rw [hunfixable]
      rfl
  rw [apply, proposals, hnone]
  exact String.ofList_toList

/-- One pass of a run and what follows it: the run ends when no violation is left that may be fixed, and
when the pass changes nothing. -/
theorem correct_succ_eq (corrector : Corrector) (linter : Linter) (limit : Nat) (source : String) :
    corrector.correct linter (limit + 1) source = (do
      let violations ← linter.lint source
      if violations.any corrector.canFix then
        let outcome := corrector.apply source violations
        if outcome.content = source then return { content := source }
        else
          let later ← corrector.correct linter limit outcome.content
          return later.behind outcome
      else return { content := source }) := by
  rw [correct, pass]
  cases linter.lint source with
  | error e => rfl
  | ok violations =>
      cases hfix : violations.any corrector.canFix with
      | true => simp [Except.map, bind, Except.bind, hfix]
      | false =>
          have hcontent : (corrector.apply source violations).content = source := by
            refine content_of_not_canFix fun v hv => ?_
            simpa using List.any_eq_false.1 hfix v hv
          simp [Except.map, bind, Except.bind, hfix, hcontent]

/-- A text that a pass does not change is not changed by any run. -/
theorem correct_of_content_eq (hlint : linter.lint source = .ok violations)
    (h : (corrector.apply source violations).content = source) (limit : Nat) :
    corrector.correct linter limit source = .ok { content := source } := by
  cases limit with
  | zero => rfl
  | succ limit =>
      rw [correct, pass, hlint]
      simp only [Except.map, bind, Except.bind, h, if_true]
      rfl

/-- A text that a pass changes is left to the rest of the run. -/
theorem correct_of_content_ne (hlint : linter.lint source = .ok violations)
    (h : (corrector.apply source violations).content ≠ source) (limit : Nat) :
    corrector.correct linter (limit + 1) source =
      (corrector.correct linter limit (corrector.apply source violations).content).map fun later =>
        later.behind (corrector.apply source violations) := by
  rw [correct, pass, hlint]
  simp only [Except.map, bind, Except.bind, h, if_false]
  split <;> simp_all [pure, Except.pure]

/-- What a run with some passes left does: it lints the text, and either nothing changes or the rest of
the run goes on with the corrected text. -/
theorem correct_succ (h : corrector.correct linter (limit + 1) source = .ok result) :
    ∃ violations, linter.lint source = .ok violations ∧
      ((corrector.apply source violations).content = source ∧ result = { content := source } ∨
        (corrector.apply source violations).content ≠ source ∧
          ∃ later,
            corrector.correct linter limit (corrector.apply source violations).content = .ok later ∧
              result = later.behind (corrector.apply source violations)) := by
  cases hlint : linter.lint source with
  | error e =>
      rw [correct, pass, hlint] at h
      cases h
  | ok violations =>
      refine ⟨violations, rfl, ?_⟩
      by_cases hcontent : (corrector.apply source violations).content = source
      · rw [correct_of_content_eq hlint hcontent] at h
        exact .inl ⟨hcontent, (Except.ok.inj h).symm⟩
      · rw [correct_of_content_ne hlint hcontent] at h
        obtain ⟨later, hlater, hresult⟩ := exceptMap_eq_ok_iff.1 h
        exact .inr ⟨hcontent, later, hlater, hresult.symm⟩

/-! ### Counts -/

theorem ascending_applied (corrector : Corrector) (source : String) (violations : List Violation) :
    (corrector.apply source violations).applied.Ascending := by
  have hfold : ∀ (accepted : List Proposal) (counts : SortedTable Nat), counts.Ascending →
      (accepted.foldl (fun counts p => SortedTable.addCount p.rule 1 counts) counts).Ascending := by
    intro accepted
    induction accepted with
    | nil => exact fun _ h => h
    | cons p accepted ih => exact fun counts h => ih _ (h.addCount p.rule 1)
  exact hfold _ [] SortedTable.ascending_nil

/-- A run counts what it has applied in order. -/
theorem ascending_of_correct (h : corrector.correct linter limit source = .ok result) :
    result.applied.Ascending := by
  induction limit generalizing source result with
  | zero =>
      obtain rfl := Except.ok.inj h
      exact SortedTable.ascending_nil
  | succ limit ih =>
      obtain ⟨violations, -, ⟨-, rfl⟩ | ⟨-, later, -, rfl⟩⟩ := correct_succ h
      · exact SortedTable.ascending_nil
      · exact (corrector.ascending_applied source violations).addCounts later.applied

/-- A run that comes after a run without a pass is the whole run. -/
theorem andThen_of_unchanged (h : result.applied.Ascending)
    (source : String) : ({ content := source } : CorrectedText).andThen result = result := by
  rw [CorrectedText.andThen, SortedTable.addCounts_nil_left h, Nat.zero_add, Nat.zero_add]

/-- A pass before two runs. -/
theorem behind_andThen (corrector : Corrector) {first later : CorrectedText}
    (hfirst : first.applied.Ascending) (hlater : later.applied.Ascending) (source : String)
    (violations : List Violation) :
    (first.behind (corrector.apply source violations)).andThen later =
      (first.andThen later).behind (corrector.apply source violations) := by
  rw [CorrectedText.andThen, CorrectedText.behind, CorrectedText.behind, CorrectedText.andThen,
    SortedTable.addCounts_assoc (corrector.ascending_applied source violations) hfirst hlater,
    Nat.add_assoc, Nat.add_right_comm]

/-! ### Runs -/

/-- A run may be cut at any pass. -/
theorem correct_add_eq (corrector : Corrector) (linter : Linter) (m n : Nat) (source : String) :
    corrector.correct linter (m + n) source = (do
      let first ← corrector.correct linter m source
      let later ← corrector.correct linter n first.content
      return first.andThen later) := by
  induction m generalizing source with
  | zero =>
      rw [Nat.zero_add, correct]
      cases hrun : corrector.correct linter n source with
      | error e => simp [bind, Except.bind, hrun]
      | ok result =>
          simp [bind, Except.bind, hrun, pure, Except.pure,
            andThen_of_unchanged (ascending_of_correct hrun)]
  | succ m ih =>
      cases hlint : linter.lint source with
      | error e =>
          rw [Nat.add_right_comm, correct, correct, pass, hlint]
          rfl
      | ok violations =>
          by_cases hcontent : (corrector.apply source violations).content = source
          · have hstays := correct_of_content_eq hlint hcontent
            rw [hstays, hstays]
            simp only [bind, Except.bind, hstays]
            rfl
          · have hchanges := correct_of_content_ne hlint hcontent
            rw [Nat.add_right_comm, hchanges, hchanges, ih]
            -- both sides are the pass and two runs, put together in the two ways
            cases hfirst : corrector.correct linter m (corrector.apply source violations).content with
            | error e => rfl
            | ok first =>
                cases hlater : corrector.correct linter n first.content with
                | error e =>
                    simp only [bind, Except.bind, Except.map, hlater, CorrectedText.behind]
                | ok later =>
                    have hjoined := behind_andThen corrector
                      (ascending_of_correct hfirst) (ascending_of_correct hlater) source violations
                    have hcontent : (first.behind (corrector.apply source violations)).content =
                        first.content := rfl
                    simp only [bind, Except.bind, Except.map, pure, Except.pure, hcontent, hlater,
                      hjoined]

/-- A run that stops before its limit stands at a text that a pass does not change. -/
theorem exists_content_eq_of_passes_lt
    (h : corrector.correct linter limit source = .ok result) (hlt : result.passes < limit) :
    ∃ violations, linter.lint result.content = .ok violations ∧
      (corrector.apply result.content violations).content = result.content := by
  induction limit generalizing source result with
  | zero => exact absurd hlt (Nat.not_lt_zero _)
  | succ limit ih =>
      obtain ⟨violations, hlint, ⟨hcontent, rfl⟩ | ⟨-, later, hlater, rfl⟩⟩ := correct_succ h
      · exact ⟨violations, hlint, hcontent⟩
      · have hrest : later.passes + 1 < limit + 1 := hlt
        exact @ih _ later hlater (Nat.lt_of_succ_lt_succ hrest)

/-- Running up to `m + n` passes is running up to `m` passes and then, from the text that these have left,
up to `n` passes. The counts of the two runs are added under each rule, those of skipped corrections and
of passes are added too, and a text that cannot be read ends the whole run. So a run that has stopped
before its limit stands at a text that every further run returns as it is, without a pass. -/
theorem correct_add (corrector : Corrector) (linter : Linter) (source : String) (m n : Nat) :
    corrector.correct linter (m + n) source = (do
        let first ← corrector.correct linter m source
        let later ← corrector.correct linter n first.content
        return first.andThen later) ∧
      ∀ result, corrector.correct linter m source = .ok result →
        (∀ later, corrector.correct linter n result.content = .ok later → ∀ rule,
          (result.andThen later).applied.get? rule =
            Option.merge (· + ·) (result.applied.get? rule) (later.applied.get? rule)) ∧
        (result.passes < m → ∀ limit,
          corrector.correct linter limit result.content = .ok { content := result.content }) := by
  refine ⟨corrector.correct_add_eq linter m n source, fun result hresult => ⟨?_, ?_⟩⟩
  · intro later hlater rule
    exact SortedTable.get?_addCounts _ (ascending_of_correct hlater) rule
  · intro hlt limit
    obtain ⟨violations, hlint, hcontent⟩ := exists_content_eq_of_passes_lt hresult hlt
    exact correct_of_content_eq hlint hcontent limit

/-- A rule that never settles: it puts a letter before any text. -/
def growing : Rule where
  description := { identifier := "growing", name := "Growing", explanation := "", category := .lint }
  check := .file fun _ => [⟨"growing", .warning, 0, "", some ⟨⟨0, 0⟩, "a"⟩⟩]

/-- A run that does not settle, cut behind its second pass, and one that stops at once since its only
rule may not be corrected. -/
theorem correct_add_growing :
    ∃ first later, correct {} { rules := [growing] } 2 "b" = .ok first ∧
      correct {} { rules := [growing] } 3 first.content = .ok later ∧
      correct {} { rules := [growing] } (2 + 3) "b" = .ok (first.andThen later) ∧
      (first.andThen later).content = "aaaaab" ∧
      (first.andThen later).applied.get? "growing" = some 5 ∧
      correct ⟨["growing"]⟩ { rules := [growing] } 7 "b" = .ok { content := "b" } := by
  have hrun : ((correct {} { rules := [growing] } 2 "b").toOption.any fun first =>
      (correct {} { rules := [growing] } 3 first.content).toOption.any fun later =>
        later.content == "aaaaab" && first.applied.get? "growing" == some 2 &&
          later.applied.get? "growing" == some 3) = true := by decide +kernel
  obtain ⟨first, hfirst, hrun⟩ := exists_of_toOption_any hrun
  obtain ⟨later, hlater, hrun⟩ := exists_of_toOption_any hrun
  simp only [Bool.and_eq_true, beq_iff_eq] at hrun
  obtain ⟨⟨hcontent, htwo⟩, hthree⟩ := hrun
  have hjoined := correct_add {} { rules := [growing] } "b" 2 3
  have hcount := (hjoined.2 first hfirst).1 later hlater "growing"
  have hunfixable := correct_add ⟨["growing"]⟩ { rules := [growing] } "b" 1 0
  refine ⟨first, later, hfirst, hlater, ?_, hcontent, ?_, ?_⟩
  · rw [hjoined.1, hfirst]
    simp only [bind, Except.bind, hlater]
    rfl
  · rw [hcount, htwo, hthree]
    rfl
  · exact (hunfixable.2 { content := "b" } (by decide +kernel)).2 Nat.one_pos 7

end Corrector

end SourceLint
