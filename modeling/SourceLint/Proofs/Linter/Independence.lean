import SourceLint.Proofs.Linter.Corrections

/-!
# The corrections of one text

Edits of semicolons replace nothing but semicolons, and edits of commas replace nothing but commas and
spacing. So the corrections that come out of linting one text do not get in each other's way, and all of
them that may be applied are applied at once.
-/

namespace SourceLint

/-- The edits of both rules are independent together. -/
theorem Mark.edits_independent (off off' : Nat → Bool) (marks : List Mark) :
    Correction.Independent (chars marks)
      (TrailingSemicolon.edits off marks ++ CommaSpacing.edits off' 0 [] marks) := by
  apply (TrailingSemicolon.edits_independent off marks).append
    (CommaSpacing.edits_independent off' marks)
  intro e he e' he' piece piece' hpiece hpiece' c hc hc'
  obtain ⟨⟨run, hrun, -, hsemicolons⟩, -⟩ := TrailingSemicolon.edits_pieces he
  obtain ⟨⟨old, hold, -, hspacing⟩, -⟩ := CommaSpacing.edits_pieces he'
  obtain rfl := Option.some.inj (hrun.symm.trans hpiece)
  obtain rfl := Option.some.inj (hold.symm.trans hpiece')
  obtain rfl := hsemicolons c hc
  rcases hspacing _ hc' with hspacing | hcomma
  · cases hspacing
  · cases hcomma

/-- A text that can be read can be marked. -/
theorem Snapshot.exists_shading {source : String} {snapshot : Snapshot}
    (hsnapshot : ofSource source = .ok snapshot) :
    ∃ marks placed, Shading 0 "" 1 marks placed ∧ source.toList = Mark.chars marks := by
  rw [ofSource] at hsnapshot
  cases hlexemes : Lexeme.ofSource source with
  | error e =>
      rw [hlexemes] at hsnapshot
      cases hsnapshot
  | ok lexemes =>
      obtain ⟨marks, placed, hshading, hchars, -⟩ := Shading.exists_of_scan 1 hlexemes
      exact ⟨marks, placed, hshading, hchars.symm⟩

namespace Linter

variable {config : Config} {linter : Linter} {source : String} {violations : List Violation}

/-- A text that can be linted can be marked. -/
theorem exists_shading (hlinter : ofConfig config = .ok linter)
    (hlint : linter.lint source = .ok violations) :
    ∃ marks placed, Shading 0 "" 1 marks placed ∧ source.toList = Mark.chars marks := by
  obtain ⟨-, -, -, -, -, hprovider, -⟩ := exists_rules hlinter
  obtain ⟨snapshot, hsnapshot, -⟩ := exceptMap_eq_ok_iff.1 hlint
  rw [hprovider] at hsnapshot
  exact Snapshot.exists_shading hsnapshot

/-- The corrections that may be applied to a text are independent. -/
theorem independent_proposals (hlinter : ofConfig config = .ok linter)
    (hlint : linter.lint source = .ok violations) (corrector : Corrector) :
    Correction.Independent source.toList
      ((violations.filterMap corrector.proposal?).map Proposal.correction) := by
  obtain ⟨marks, placed, hshading, hsource⟩ := exists_shading hlinter hlint
  obtain ⟨semicolons, commas, hproposals⟩ := exists_proposals hlinter corrector
  rw [hproposals source violations marks placed hlint hshading hsource, hsource, List.map_append,
    List.map_map, List.map_map]
  have hmap : ∀ (identifier : String) (edits : List Correction),
      edits.map (Proposal.correction ∘ fun e => ⟨identifier, e⟩) = edits :=
    fun _ edits => List.map_id edits
  rw [hmap, hmap]
  exact Mark.edits_independent _ _ marks

/-- When nothing is unfixable, all corrections may be applied. -/
theorem map_proposal? (violations : List Violation) :
    (violations.filterMap (Corrector.proposal? {})).map Proposal.correction =
      violations.filterMap Violation.correction := by
  rw [List.map_filterMap]
  apply List.filterMap_congr
  intro v _
  cases hcorrection : v.correction with
  | none => simp [Corrector.proposal?, Corrector.isFixable, hcorrection]
  | some e => simp [Corrector.proposal?, Corrector.isFixable, hcorrection]

/-- All corrections that come out of linting a text have a text under their spans, begin at places of
their own and do not meet. So whichever of them may be applied, none is skipped, all are applied, and the
corrected text is the source text with all of them made. -/
theorem lint_corrections_independent (hlinter : ofConfig config = .ok linter)
    (hlint : linter.lint source = .ok violations) :
    (∀ e ∈ violations.filterMap Violation.correction, (e.span.slice? source).isSome) ∧
    ((violations.filterMap Violation.correction).Pairwise fun a b =>
      a.span.location ≠ b.span.location ∧ a.span.intersects b.span = false) ∧
    ∀ corrector : Corrector,
      (corrector.apply source violations).skipped = 0 ∧
      (corrector.apply source violations).totalApplied =
        (violations.filter corrector.canFix).length ∧
      Correction.splice 0 ((corrector.proposals violations).map Proposal.correction) source.toList =
        some (corrector.apply source violations).content.toList := by
  have hall := independent_proposals hlinter hlint {}
  rw [map_proposal?] at hall
  refine ⟨?_, hall.not_intersects, ?_⟩
  · intro e he
    rw [Span.slice?_eq, Option.isSome_map]
    exact hall.slices e he
  · intro corrector
    have hindependent := independent_proposals hlinter hlint corrector
    exact ⟨Corrector.skipped_apply hindependent, Corrector.totalApplied_apply hindependent,
      (Corrector.spliced_apply hindependent).splice_eq⟩

/-- A line with an edit of each rule. -/
theorem lint_corrections_independent_line :
    ∃ linter violations, ofConfig {} = .ok linter ∧ linter.lint "f(1 ,2);" = .ok violations ∧
      (violations.filterMap Violation.correction).map Correction.span = [⟨7, 1⟩, ⟨3, 2⟩] ∧
      (Corrector.apply {} "f(1 ,2);" violations).skipped = 0 := by
  have hrun : ((ofConfig {}).toOption.any fun linter =>
      (linter.lint "f(1 ,2);").toOption.any fun violations =>
        (violations.filterMap Violation.correction).map Correction.span ==
          [⟨7, 1⟩, ⟨3, 2⟩]) = true := by decide +kernel
  obtain ⟨linter, hlinter, hrun⟩ := exists_of_toOption_any hrun
  obtain ⟨violations, hviolations, hspans⟩ := exists_of_toOption_any hrun
  have hparts := lint_corrections_independent hlinter hviolations
  exact ⟨linter, violations, hlinter, hviolations, eq_of_beq hspans, (hparts.2.2 {}).1⟩

end Linter

end SourceLint
