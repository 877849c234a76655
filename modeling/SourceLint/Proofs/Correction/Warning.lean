import SourceLint.Proofs.Correction.Composition
import SourceLint.Rules.Standard

/-!
# When a run says that it did not settle

A run counts the passes that change the text and gives a warning when it has made as many as it was allowed.
It does not look at the text that its last pass leaves. So a warning says that none of the texts before the
last pass was settled, and a run without a warning ends at a settled text. About the text at the end a warning
says nothing: it is given for a settled text just when the run settles in exactly as many passes as it was
allowed.

## Main results

* `Corrector.warning?_isSome_iff`: what a warning says.
* `Corrector.isSettled_of_warning?_eq_none`: what it says when there is none.
* `Corrector.isSettled_iff_correct_succ`: one more pass shows whether a warning is right.
* `Corrector.warning?_isSettled_iff`: which runs give a warning about a settled text.
* `Corrector.warning?_isSettled_semicolon`: there is such a run.
-/

namespace SourceLint

theorem CorrectedText.isSome_warning?_iff {result : CorrectedText} {limit : Nat} :
    (result.warning? limit).isSome = true ↔ result.passes = limit ∧ 0 < limit := by
  rw [warning?]
  split <;> simp [*]

namespace Corrector

variable {corrector : Corrector} {linter : Linter} {source : String} {limit : Nat}
  {result : CorrectedText}

/-- One more pass over the text neither fails nor changes it. -/
def IsSettled (corrector : Corrector) (linter : Linter) (text : String) : Prop :=
  ∃ violations outcome, corrector.pass linter text = .ok (violations, outcome) ∧ outcome.content = text

theorem isSettled_iff {text : String} :
    corrector.IsSettled linter text ↔
      ∃ violations, linter.lint text = .ok violations ∧
        (corrector.apply text violations).content = text := by
  simp only [IsSettled, pass, exceptMap_eq_ok_iff, Prod.mk.injEq]
  constructor
  · rintro ⟨_, _, ⟨violations, hlint, rfl, rfl⟩, hcontent⟩
    exact ⟨violations, hlint, hcontent⟩
  · rintro ⟨violations, hlint, hcontent⟩
    exact ⟨violations, _, ⟨violations, hlint, rfl, rfl⟩, hcontent⟩

/-- A run makes no more passes than it is allowed. -/
theorem passes_le_limit (h : corrector.correct linter limit source = .ok result) :
    result.passes ≤ limit := by
  induction limit generalizing source result with
  | zero =>
      obtain rfl := Except.ok.inj h
      exact Nat.le_refl _
  | succ limit ih =>
      obtain ⟨violations, -, ⟨-, rfl⟩ | ⟨-, later, hlater, rfl⟩⟩ := correct_succ h
      · exact Nat.zero_le _
      · exact Nat.succ_le_succ (ih hlater)

/-- A run that has come to a settled text stays there, however many passes it is allowed. -/
theorem IsSettled.correct_add_eq {count : Nat} {earlier : CorrectedText}
    (h : corrector.IsSettled linter earlier.content)
    (hearlier : corrector.correct linter count source = .ok earlier) (more : Nat) :
    corrector.correct linter (count + more) source = .ok earlier := by
  obtain ⟨violations, hlint, hcontent⟩ := isSettled_iff.1 h
  have hstays := correct_of_content_eq hlint hcontent more
  rw [Corrector.correct_add_eq, hearlier]
  simp only [bind, Except.bind, hstays]
  rfl

/-- A run needs no more passes than it makes. -/
theorem correct_passes (h : corrector.correct linter limit source = .ok result) :
    corrector.correct linter result.passes source = .ok result := by
  induction limit generalizing source result with
  | zero =>
      obtain rfl := Except.ok.inj h
      rfl
  | succ limit ih =>
      obtain ⟨violations, hlint, ⟨-, rfl⟩ | ⟨hcontent, later, hlater, rfl⟩⟩ := correct_succ h
      · rfl
      · have hrest := correct_of_content_ne hlint hcontent later.passes
        rw [ih hlater] at hrest
        exact hrest

/-- A run that does not use all its passes ends at a settled text. -/
theorem isSettled_of_passes_lt (h : corrector.correct linter limit source = .ok result)
    (hlt : result.passes < limit) : corrector.IsSettled linter result.content :=
  isSettled_iff.2 (exists_content_eq_of_passes_lt h hlt)

/-- A warning says that there was a pass to make and that none of the texts before the last one was
settled. -/
theorem warning?_isSome_iff (h : corrector.correct linter limit source = .ok result) :
    (result.warning? limit).isSome = true ↔
      0 < limit ∧ ∀ count < limit, ∀ earlier,
        corrector.correct linter count source = .ok earlier →
          ¬corrector.IsSettled linter earlier.content := by
  rw [CorrectedText.isSome_warning?_iff]
  constructor
  · rintro ⟨hpasses, hlimit⟩
    refine ⟨hlimit, fun count hcount earlier hearlier hsettled => ?_⟩
    have hstays := hsettled.correct_add_eq hearlier (limit - count)
    rw [Nat.add_sub_cancel' (Nat.le_of_lt hcount), h] at hstays
    obtain rfl := Except.ok.inj hstays
    have := passes_le_limit hearlier
    omega
  · rintro ⟨hlimit, hunsettled⟩
    refine ⟨?_, hlimit⟩
    by_contra hne
    have hlt := Nat.lt_of_le_of_ne (passes_le_limit h) hne
    exact hunsettled _ hlt _ (correct_passes h) (isSettled_of_passes_lt h hlt)

/-- A run with passes to make that gives no warning ends at a settled text. -/
theorem isSettled_of_warning?_eq_none (h : corrector.correct linter limit source = .ok result)
    (hlimit : 0 < limit) (hnone : result.warning? limit = none) :
    corrector.IsSettled linter result.content := by
  apply isSettled_of_passes_lt h
  refine Nat.lt_of_le_of_ne (passes_le_limit h) fun hpasses => ?_
  have hwarning := CorrectedText.isSome_warning?_iff.2 ⟨hpasses, hlimit⟩
  rw [hnone] at hwarning
  cases hwarning

/-- The text at the end of a run is settled just when one more pass would not have changed the result. -/
theorem isSettled_iff_correct_succ (h : corrector.correct linter limit source = .ok result) :
    corrector.IsSettled linter result.content ↔
      corrector.correct linter (limit + 1) source = .ok result := by
  constructor
  · intro hsettled
    exact hsettled.correct_add_eq h 1
  · intro hmore
    exact isSettled_of_passes_lt hmore (Nat.lt_succ_of_le (passes_le_limit h))

/-- A run gives a warning about a settled text just when, with one more pass allowed, it settles in as many
passes as it was allowed before. -/
theorem warning?_isSettled_iff (hlimit : 0 < limit) :
    (corrector.correct linter limit source = .ok result ∧ (result.warning? limit).isSome = true ∧
        corrector.IsSettled linter result.content) ↔
      corrector.correct linter (limit + 1) source = .ok result ∧ result.passes = limit := by
  rw [CorrectedText.isSome_warning?_iff]
  constructor
  · rintro ⟨h, ⟨hpasses, -⟩, hsettled⟩
    exact ⟨(isSettled_iff_correct_succ h).1 hsettled, hpasses⟩
  · rintro ⟨hmore, rfl⟩
    have h := correct_passes hmore
    exact ⟨h, ⟨rfl, hlimit⟩, (isSettled_iff_correct_succ h).2 hmore⟩

/-- One semicolon takes one pass. A run that is allowed just that one says that the text did not settle. -/
theorem warning?_isSettled_semicolon :
    ∃ linter result, Linter.ofConfig {} = .ok linter ∧
      (Corrector.ofConfig {}).correct linter 1 "a;\n" = .ok result ∧ result.content = "a\n" ∧
      result.warning? 1 = some "Corrections did not settle after 1 passes" ∧
      (Corrector.ofConfig {}).IsSettled linter result.content := by
  have hrun : ((Linter.ofConfig {}).toOption.any fun linter =>
      ((Corrector.ofConfig {}).correct linter 2 "a;\n").toOption.any fun result =>
        result.content == "a\n" && result.passes == 1 &&
          result.warning? 1 == some "Corrections did not settle after 1 passes") = true := by
    decide +kernel
  obtain ⟨linter, hlinter, hrun⟩ := exists_of_toOption_any hrun
  obtain ⟨result, hresult, hrun⟩ := exists_of_toOption_any hrun
  simp only [Bool.and_eq_true, beq_iff_eq] at hrun
  obtain ⟨⟨hcontent, hpasses⟩, hwarning⟩ := hrun
  obtain ⟨h, -, hsettled⟩ := (warning?_isSettled_iff Nat.one_pos).2 ⟨hresult, hpasses⟩
  exact ⟨linter, result, hlinter, h, hcontent, hwarning, hsettled⟩

end Corrector

end SourceLint
