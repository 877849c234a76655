import SourceLint.Correction.Corrector
import SourceLint.Proofs.Sorting

/-!
# Violations in another order

What applying corrections comes to depends on the corrections that start at each location, in the order in
which they come, and on nothing else. So violations may be given in any order that keeps those together in
order whose corrections start at one location, and in any order at all when no two corrections do.
-/

namespace SourceLint

/-- The violation carries a correction that starts at the location. -/
def Violation.startsAt (location : Nat) (v : Violation) : Bool :=
  v.correction.any fun correction => correction.span.location == location

namespace Corrector

variable {corrector : Corrector} {violations violations' : List Violation}

/-- The proposals at a location are those of the violations whose corrections start there. -/
theorem filter_filterMap_proposal? (corrector : Corrector) (violations : List Violation)
    (location : Nat) :
    (violations.filterMap corrector.proposal?).filter (fun p => p.span.location == location) =
      (violations.filter (Violation.startsAt location)).filterMap corrector.proposal? := by
  rw [List.filter_filterMap, List.filterMap_filter]
  congr 1
  funext v
  cases hfixable : corrector.isFixable v.rule with
  | false => simp [proposal?, hfixable]
  | true =>
      cases hcorrection : v.correction with
      | none => simp [proposal?, Violation.startsAt, hcorrection]
      | some correction =>
          simp [proposal?, Violation.startsAt, hfixable, hcorrection, Option.filter, Proposal.span]

/-- The corrections are looked at in the same order when those that start at one location come in the same
order. -/
theorem proposals_eq_of_filter_eq
    (h : ∀ location, violations.filter (Violation.startsAt location) =
      violations'.filter (Violation.startsAt location)) :
    corrector.proposals violations = corrector.proposals violations' := by
  rw [proposals, proposals, sortBy_eq_sortBy_iff]
  intro location
  rw [filter_filterMap_proposal?, filter_filterMap_proposal?, h]

/-- When no two corrections start at one location, there is no order to keep. -/
theorem filter_startsAt_eq_of_perm (hperm : violations.Perm violations')
    (hdistinct : violations.Pairwise fun v w =>
      ∀ location, ¬(v.startsAt location = true ∧ w.startsAt location = true)) (location : Nat) :
    violations.filter (Violation.startsAt location) =
      violations'.filter (Violation.startsAt location) := by
  -- there is at most one violation to keep
  have hnone : (violations.filter (Violation.startsAt location)).Pairwise fun _ _ => False :=
    (hdistinct.filter _).imp_of_mem fun {v w} hv hw hne =>
      hne location ⟨(List.mem_filter.1 hv).2, (List.mem_filter.1 hw).2⟩
  have hkept := hperm.filter (Violation.startsAt location)
  exact hkept.eq_of_pairwise (fun _ _ _ _ hfalse => hfalse.elim) hnone (hkept.pairwise hnone id)

/-- Violations in another order give the same outcome, content and counts, when those whose corrections
start at one location keep their order. So when no two corrections start at one location, the order of the
violations does not matter. -/
theorem apply_rearranged (corrector : Corrector) (source : String)
    (hperm : violations.Perm violations') :
    ((∀ location, violations.filter (Violation.startsAt location) =
        violations'.filter (Violation.startsAt location)) →
      corrector.apply source violations = corrector.apply source violations') ∧
    ((violations.Pairwise fun v w =>
        ∀ location, ¬(v.startsAt location = true ∧ w.startsAt location = true)) →
      corrector.apply source violations = corrector.apply source violations') := by
  have hordered : (∀ location, violations.filter (Violation.startsAt location) =
      violations'.filter (Violation.startsAt location)) →
      corrector.apply source violations = corrector.apply source violations' := by
    intro h
    simp only [apply, proposals_eq_of_filter_eq h]
  exact ⟨hordered, fun hdistinct => hordered (filter_startsAt_eq_of_perm hperm hdistinct)⟩

/-- A violation with a correction at its place. -/
def proposing (rule : String) (span : Span) (replacement : String) : Violation :=
  ⟨rule, .warning, span.location, "", some ⟨span, replacement⟩⟩

/-- Two corrections at one place keep their order among others that do not. When these two are swapped, the
other one of them is made. -/
theorem apply_rearranged_crossing :
    let word := proposing "r" ⟨1, 2⟩ "X"
    let mark := proposing "s" ⟨1, 0⟩ "_"
    let letter := proposing "r" ⟨4, 1⟩ "E"
    let rest := proposing "s" ⟨2, 9⟩ ""
    [letter, word, mark, rest].Perm [rest, word, letter, mark] ∧
      apply {} "abcdef" [letter, word, mark, rest] = apply {} "abcdef" [rest, word, letter, mark] ∧
      (apply {} "abcdef" [rest, word, letter, mark]).content = "aXdEf" ∧
      (apply {} "abcdef" [rest, mark, letter, word]).content = "a_bcdEf" ∧
      apply {} "abcdef" [letter, word, rest] = apply {} "abcdef" [rest, letter, word] := by
  intro word mark letter rest
  have hperm : [letter, word, mark, rest].Perm [rest, word, letter, mark] := by decide
  have hperm' : [letter, word, rest].Perm [rest, letter, word] := by decide
  refine ⟨hperm, (apply_rearranged {} "abcdef" hperm).1 fun location => ?_, by decide +kernel,
    by decide +kernel, (apply_rearranged {} "abcdef" hperm').2 ?_⟩
  · have hword : word.startsAt location = (1 == location) := rfl
    have hmark : mark.startsAt location = (1 == location) := rfl
    have hletter : letter.startsAt location = (4 == location) := rfl
    have hrest : rest.startsAt location = (2 == location) := rfl
    simp only [List.filter_cons, hword, hmark, hletter, hrest, beq_iff_eq]
    grind
  · simp only [List.pairwise_cons, List.mem_cons, forall_eq_or_imp, Violation.startsAt, word, letter,
      rest, proposing]
    simp

end Corrector

end SourceLint
