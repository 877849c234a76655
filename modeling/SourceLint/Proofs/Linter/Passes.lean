import SourceLint.Proofs.Correction.Composition
import SourceLint.Proofs.Linter.Independence
import SourceLint.Proofs.Rules.Respacing
import SourceLint.Proofs.Sorting

/-!
# How soon corrections settle

A pass that removes semicolons leaves fewer of them. A pass that removes none only sets the spacing
around commas right, and then nothing is left to correct. So the number of passes that change a text is
at most one more than the number of its semicolons.
-/

namespace SourceLint

/-- Directives turn the same rules off when they are the same on the same lines. -/
theorem Shading.isOff_congr {placed placed' : List PlacedLexeme} (h : remarks placed' = remarks placed)
    (on : Bool) (rule : String) : isOff on placed' rule = isOff on placed rule := by
  funext line
  rw [isOff, isOff, suppression, suppression, h]

namespace Corrector

variable {config : Config} {linter : Linter} {corrector : Corrector} {source : String}
  {violations : List Violation} {limit : Nat} {result : CorrectedText}

/-- Nothing is left to fix when there is no correction that may be applied. -/
theorem filterMap_proposal?_eq_nil_iff :
    violations.filterMap corrector.proposal? = [] ↔ ∀ v ∈ violations, corrector.canFix v = false := by
  rw [← List.length_eq_zero_iff, ← (corrector.proposals_perm violations).length_eq, length_proposals,
    List.length_eq_zero_iff, List.filter_eq_nil_iff]
  simp

/-- When only commas have edits, the corrected text is the respaced one. -/
theorem content_of_respaced {off : Nat → Bool} {marks marks' : List Mark}
    (hsource : source.toList = Mark.chars marks) (identifier : String)
    (hproposals : violations.filterMap corrector.proposal? =
      (CommaSpacing.edits off 0 [] marks).map fun e => ⟨identifier, e⟩)
    (h : CommaSpacing.Respaced off none marks marks') :
    (corrector.apply source violations).content.toList = Mark.chars marks' := by
  have hedits : ((CommaSpacing.edits off 0 [] marks).map fun e => (⟨identifier, e⟩ : Proposal)).map
      Proposal.correction = CommaSpacing.edits off 0 [] marks := by
    rw [List.map_map]
    exact List.map_id _
  have hindependent : Correction.Independent source.toList
      ((violations.filterMap corrector.proposal?).map Proposal.correction) := by
    rw [hproposals, hedits, hsource]
    exact CommaSpacing.edits_independent off marks
  have hrespaced := h.spliced .nil 0
  have hsorted : corrector.proposals violations =
      (CommaSpacing.edits off 0 [] marks).map fun e => ⟨identifier, e⟩ := by
    rw [proposals, hproposals]
    apply sortBy_eq_self
    rw [List.pairwise_map]
    exact hrespaced.ascending.1.imp fun hle => Nat.le_trans (Nat.le_add_right _ _) hle
  have hspliced := spliced_apply hindependent
  rw [hsorted, hedits, hsource] at hspliced
  exact Option.some.inj (hspliced.splice_eq.symm.trans hrespaced.splice_eq)

variable (corrector) in
/-- A pass leaves fewer semicolons, or it leaves no more of them and nothing to fix. -/
theorem pass_progress (hlinter : Linter.ofConfig config = .ok linter)
    (hlint : linter.lint source = .ok violations) :
    (corrector.apply source violations).content.toList.count ';' < source.toList.count ';' ∨
    (corrector.apply source violations).content.toList.count ';' ≤ source.toList.count ';' ∧
      ∀ later, linter.lint (corrector.apply source violations).content = .ok later →
        ∀ v ∈ later, corrector.canFix v = false := by
  obtain ⟨marks, placed, hshading, hsource⟩ := Linter.exists_shading hlinter hlint
  obtain ⟨semicolons, commas, hproposals⟩ := Linter.exists_proposals hlinter corrector
  have hedits := hproposals source violations marks placed hlint hshading hsource
  have hspliced := spliced_apply (Linter.independent_proposals hlinter hlint corrector)
  have hreplacement : ∀ e ∈ (corrector.proposals violations).map Proposal.correction,
      ';' ∉ e.replacement.toList := by
    intro e he
    obtain ⟨p, hp, rfl⟩ := List.mem_map.1 he
    rw [(corrector.proposals_perm violations).mem_iff, hedits, List.mem_append, List.mem_map,
      List.mem_map] at hp
    rcases hp with ⟨e, hedit, rfl⟩ | ⟨e, hedit, rfl⟩
    · rw [(TrailingSemicolon.edits_pieces hedit).2]
      simp
    · exact (CommaSpacing.edits_pieces hedit).2
  cases hsemicolons : TrailingSemicolon.edits
      (Shading.isOff semicolons placed TrailingSemicolon.identifier) marks with
  | cons e edits =>
      left
      have he : e ∈ TrailingSemicolon.edits
          (Shading.isOff semicolons placed TrailingSemicolon.identifier) marks := by
        rw [hsemicolons]
        exact List.mem_cons_self
      obtain ⟨⟨piece, hpiece, hne, hall⟩, -⟩ := TrailingSemicolon.edits_pieces he
      obtain ⟨c, rest, rfl⟩ := List.exists_cons_of_ne_nil hne
      obtain rfl := hall c List.mem_cons_self
      have hmem : e ∈ (corrector.proposals violations).map Proposal.correction := by
        refine List.mem_map.2 ⟨⟨TrailingSemicolon.identifier, e⟩, ?_, rfl⟩
        rw [(corrector.proposals_perm violations).mem_iff, hedits]
        exact List.mem_append_left _ (List.mem_map_of_mem he)
      have hfound : e.span.chars? ([] ++ source.toList) = some (';' :: rest) := by
        rw [List.nil_append, hsource, hpiece]
      exact @Correction.Spliced.count_lt _ _ _ ';' [] _ e hspliced hreplacement hmem hfound
        List.mem_cons_self
  | nil =>
      right
      refine ⟨hspliced.count_le ';' hreplacement, ?_⟩
      intro later hlater
      obtain ⟨marks', hrespaced⟩ := CommaSpacing.Respaced.exists_respaced
        (Shading.isOff commas placed CommaSpacing.identifier) none marks
      rw [hsemicolons, List.map_nil, List.nil_append] at hedits
      have hcontent := content_of_respaced hsource CommaSpacing.identifier hedits hrespaced
      obtain ⟨⟨placed', hshading', hremarks⟩, hcommas, hkeeps⟩ := hrespaced.settles hshading
      have hrest := hproposals _ later marks' placed' hlater hshading' hcontent
      rw [Shading.isOff_congr hremarks, Shading.isOff_congr hremarks, hcommas,
        hkeeps _ hsemicolons] at hrest
      exact filterMap_proposal?_eq_nil_iff.1 hrest

/-- When a pass changes nothing, there is nothing to fix. -/
theorem canFix_of_content_eq (hlinter : Linter.ofConfig config = .ok linter)
    (hlint : linter.lint source = .ok violations)
    (h : (corrector.apply source violations).content = source) :
    ∀ v ∈ violations, corrector.canFix v = false := by
  rcases pass_progress corrector hlinter hlint with hlt | ⟨-, hsettled⟩
  · rw [h] at hlt
    exact absurd hlt (Nat.lt_irrefl _)
  · rw [h] at hsettled
    exact hsettled violations hlint

/-- A text without anything to fix is not changed by any pass. -/
theorem passes_eq_zero
    (hsettled : ∀ violations, linter.lint source = .ok violations →
      ∀ v ∈ violations, corrector.canFix v = false)
    (h : corrector.correct linter limit source = .ok result) : result.passes = 0 := by
  cases limit with
  | zero =>
      obtain rfl := Except.ok.inj h
      rfl
  | succ limit =>
      obtain ⟨violations, hlint, ⟨-, rfl⟩ | ⟨hchanged, -⟩⟩ := correct_succ h
      · rfl
      · exact absurd (content_of_not_canFix (hsettled violations hlint)) hchanged

/-- The passes that change a text are at most one more than its semicolons. -/
theorem passes_le (hlinter : Linter.ofConfig config = .ok linter)
    (h : corrector.correct linter limit source = .ok result) :
    result.passes ≤ 1 + source.toList.count ';' := by
  induction limit generalizing source result with
  | zero =>
      obtain rfl := Except.ok.inj h
      exact Nat.zero_le _
  | succ limit ih =>
      obtain ⟨violations, hlint, ⟨-, rfl⟩ | ⟨-, later, hlater, rfl⟩⟩ := correct_succ h
      · exact Nat.zero_le _
      · have hpasses : (later.behind (corrector.apply source violations)).passes =
            later.passes + 1 := rfl
        rw [hpasses]
        rcases pass_progress corrector hlinter hlint with hlt | ⟨-, hsettled⟩
        · have := ih hlater
          omega
        · rw [passes_eq_zero hsettled hlater]
          omega

/-- When the passes do not run out, nothing is left to fix. -/
theorem settled_of_passes_lt (hlinter : Linter.ofConfig config = .ok linter)
    (h : corrector.correct linter limit source = .ok result) (hlt : result.passes < limit) :
    ∃ violations, linter.lint result.content = .ok violations ∧
      ∀ v ∈ violations, corrector.canFix v = false := by
  obtain ⟨violations, hlint, hcontent⟩ := exists_content_eq_of_passes_lt h hlt
  exact ⟨violations, hlint, canFix_of_content_eq hlinter hlint hcontent⟩

/-- However many passes are allowed, those that change a text are at most one more than its semicolons.
So when more are allowed than that, no violation is left in the corrected text that carries a correction
and may be fixed. The corrector may be any, that of the configuration as well. -/
theorem correct_settles (hlinter : Linter.ofConfig config = .ok linter)
    (h : corrector.correct linter limit source = .ok result) :
    result.passes ≤ 1 + source.toList.count ';' ∧
      (1 + source.toList.count ';' < limit →
        ∃ violations, linter.lint result.content = .ok violations ∧
          ∀ v ∈ violations, ¬(v.isCorrectable = true ∧ corrector.isFixable v.rule = true)) := by
  have hpasses := passes_le hlinter h
  refine ⟨hpasses, ?_⟩
  intro hlimit
  obtain ⟨violations, hlint, hsettled⟩ :=
    settled_of_passes_lt hlinter h (Nat.lt_of_le_of_lt hpasses hlimit)
  refine ⟨violations, hlint, ?_⟩
  intro v hv hfix
  have hcanFix := hsettled v hv
  rw [canFix, hfix.1, hfix.2] at hcanFix
  cases hcanFix

/-- Two passes for a semicolon that gets to the end of its line when the one behind it goes. -/
theorem correct_settles_uncovered :
    ∃ linter result, Linter.ofConfig {} = .ok linter ∧
      (Corrector.ofConfig {}).correct linter 4 "f(1 ,2); ;" = .ok result ∧
      result.passes = 2 ∧
      ∃ violations, linter.lint result.content = .ok violations ∧
        ∀ v ∈ violations,
          ¬(v.isCorrectable = true ∧ (Corrector.ofConfig {}).isFixable v.rule = true) := by
  have hrun : ((Linter.ofConfig {}).toOption.any fun linter =>
      ((Corrector.ofConfig {}).correct linter 4 "f(1 ,2); ;").toOption.any fun result =>
        result.passes == 2) = true := by decide +kernel
  obtain ⟨linter, hlinter, hrun⟩ := exists_of_toOption_any hrun
  obtain ⟨result, hresult, hpasses⟩ := exists_of_toOption_any hrun
  have hsettled := correct_settles hlinter hresult
  exact ⟨linter, result, hlinter, hresult, eq_of_beq hpasses, hsettled.2 (by decide)⟩

end Corrector

end SourceLint
