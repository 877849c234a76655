import SourceLint.Proofs.Correction.Acceptance
import SourceLint.Proofs.Correction.Independence

/-!
# Accepting corrections in one sweep

A proposal is compared with all accepted ones before it is accepted. Since proposals come in ascending
order, the last accepted one decides: those accepted before it end where it begins or earlier. So the
proposals can be sorted out in one sweep from left to right that remembers a single span.

## Main results

* `Acceptance.foldl_add_eq_sweep`: the sweep and the comparison with all accepted proposals agree.
* `Corrector.apply_eq_sweep`: what the sweep says about the accepted and the skipped corrections.
-/

namespace SourceLint

/-- Some proposals sorted out, those accepted and those skipped, each in the order in which they came. -/
structure Sweep where
  accepted : List Proposal := []
  skipped : List Proposal := []
deriving DecidableEq, Repr

namespace Proposal.Precedes

variable {p q : Proposal}

theorem not_shares (h : p.Precedes q) : ¬p.span.Shares q.span := by
  have hend := h.2
  rw [Span.shares_iff]
  omega

theorem not_intersects (h : p.Precedes q) : p.span.intersects q.span = false := by
  rw [Span.intersects_eq_of_lt h.1, decide_eq_false_iff_not, Nat.not_lt]
  exact h.2

end Proposal.Precedes

namespace Sweep

/-- A proposal is accepted before the others. -/
def accept (later : Sweep) (p : Proposal) : Sweep := { later with accepted := p :: later.accepted }

/-- A proposal is skipped before the others. -/
def skip (later : Sweep) (p : Proposal) : Sweep := { later with skipped := p :: later.skipped }

/-- The proposal can be made, and the last accepted one, if there is one, precedes it. -/
def admits (source : List Char) (last? : Option Proposal) (p : Proposal) : Bool :=
  (p.span.chars? source).isSome && last?.all fun last => decide (last.Precedes p)

/-- Sort out some proposals from left to right, with regard to the last accepted one only. -/
def ofProposals (source : List Char) (last? : Option Proposal) : List Proposal → Sweep
  | [] => {}
  | p :: proposals =>
    if admits source last? p then (ofProposals source (some p) proposals).accept p
    else (ofProposals source last? proposals).skip p

variable {source : List Char} {last? : Option Proposal} {p : Proposal} {proposals : List Proposal}

theorem admits_iff :
    admits source last? p = true ↔
      (p.span.chars? source).isSome = true ∧ ∀ last ∈ last?, last.Precedes p := by
  cases last? <;> simp [admits]

/-- Each proposal is either accepted or skipped. -/
theorem ofProposals_perm (source : List Char) (last? : Option Proposal) (proposals : List Proposal) :
    ((ofProposals source last? proposals).accepted ++
      (ofProposals source last? proposals).skipped).Perm proposals := by
  fun_induction ofProposals source last? proposals with
  | case1 => exact .nil
  | case2 last? p proposals hadmits ih => exact ih.cons p
  | case3 last? p proposals hrefuses ih => exact List.perm_middle.trans (ih.cons p)

theorem precedes_of_mem_accepted :
    ∀ q ∈ (ofProposals source last? proposals).accepted, ∀ last ∈ last?, last.Precedes q := by
  fun_induction ofProposals source last? proposals with
  | case1 => simp
  | case2 last? p proposals hadmits ih =>
      have hfirst := (admits_iff.1 hadmits).2
      intro q hq last hlast
      rcases List.mem_cons.1 hq with rfl | hq
      · exact hfirst last hlast
      · exact (hfirst last hlast).trans (ih q hq p rfl)
  | case3 last? p proposals hrefuses ih => exact ih

/-- Of two accepted proposals the one that came first precedes the other. -/
theorem pairwise_accepted (source : List Char) (last? : Option Proposal) (proposals : List Proposal) :
    (ofProposals source last? proposals).accepted.Pairwise Proposal.Precedes := by
  fun_induction ofProposals source last? proposals with
  | case1 => exact .nil
  | case2 last? p proposals hadmits ih =>
      exact List.pairwise_cons.2 ⟨fun q hq => precedes_of_mem_accepted q hq p rfl, ih⟩
  | case3 last? p proposals hrefuses ih => exact ih

/-- A skipped proposal cannot be made, or it conflicts with one that is accepted before it. -/
theorem conflicts_of_mem_skipped
    (hascending : proposals.Pairwise fun p q => p.span.location ≤ q.span.location)
    (hlast : ∀ last ∈ last?, ∀ p ∈ proposals, last.span.location ≤ p.span.location) :
    ∀ p ∈ (ofProposals source last? proposals).skipped,
      p.span.chars? source = none ∨
        ∃ q ∈ last?.toList ++ (ofProposals source last? proposals).accepted,
          q.conflicts p = true ∧ q.span.location ≤ p.span.location := by
  fun_induction ofProposals source last? proposals with
  | case1 => simp
  | case2 last? p proposals hadmits ih =>
      obtain ⟨hfirst, hrest⟩ := List.pairwise_cons.1 hascending
      intro r hr
      have hlater := ih hrest (by simpa using hfirst) r hr
      refine hlater.imp_right ?_
      rintro ⟨q, hq, hconflicts⟩
      rw [Option.toList_some, List.singleton_append] at hq
      exact ⟨q, List.mem_append_right _ hq, hconflicts⟩
  | case3 last? p proposals hrefuses ih =>
      obtain ⟨-, hrest⟩ := List.pairwise_cons.1 hascending
      intro r hr
      rcases List.mem_cons.1 hr with rfl | hr
      · rw [admits_iff, not_and_or, Option.not_isSome_iff_eq_none] at hrefuses
        refine hrefuses.imp_right fun hlate => ?_
        obtain ⟨last, hmem, hprecedes⟩ : ∃ last ∈ last?, ¬last.Precedes r := by simpa using hlate
        have hle := hlast last hmem r List.mem_cons_self
        refine ⟨last, List.mem_append_left _ (by simpa using hmem), ?_, hle⟩
        rwa [← Proposal.conflicts_eq_false_iff hle, Bool.not_eq_false] at hprecedes
      · exact ih hrest (fun last hmem q hq => hlast last hmem q (List.mem_cons_of_mem _ hq)) r hr

end Sweep

namespace Acceptance

variable {source : List Char} {proposals : List Proposal}

/-- When the accepted proposals precede one another, the last one alone says whether a later proposal
conflicts with any of them. -/
theorem forall_conflicts_eq_false_iff {accepted : List Proposal} {p : Proposal}
    (hdescending : accepted.Pairwise fun q p => p.Precedes q)
    (hle : ∀ q ∈ accepted, q.span.location ≤ p.span.location) :
    (∀ q ∈ accepted, q.conflicts p = false) ↔ ∀ last ∈ accepted.head?, last.Precedes p := by
  cases accepted with
  | nil => simp
  | cons last accepted =>
      obtain ⟨hbefore, -⟩ := List.pairwise_cons.1 hdescending
      have hlast := Proposal.conflicts_eq_false_iff (hle last List.mem_cons_self)
      constructor
      · rintro hall last' ⟨⟩
        exact hlast.1 (hall last List.mem_cons_self)
      · intro hprecedes q hq
        rw [Proposal.conflicts_eq_false_iff (hle q hq)]
        have hfirst := hprecedes last rfl
        rcases List.mem_cons.1 hq with rfl | hq
        · exact hfirst
        · exact (hbefore q hq).trans hfirst

/-- The next proposal is accepted just when the sweep admits it. -/
theorem add_eq_ite_admits {a : Acceptance} {p : Proposal}
    (hdescending : a.accepted.Pairwise fun q p => p.Precedes q)
    (hle : ∀ q ∈ a.accepted, q.span.location ≤ p.span.location) :
    a.add source p =
      if Sweep.admits source a.accepted.head? p then { a with accepted := p :: a.accepted }
      else { a with skipped := a.skipped + 1 } := by
  have hsame : ((p.span.chars? source).isSome && !a.accepted.any fun q => q.conflicts p) =
      Sweep.admits source a.accepted.head? p := by
    rw [Bool.eq_iff_iff, Sweep.admits_iff, ← forall_conflicts_eq_false_iff hdescending hle]
    simp
  rw [add, hsame]

/-- Comparing each proposal with all accepted ones comes to the sweep. -/
theorem foldl_add_eq_sweep
    (hascending : proposals.Pairwise fun p q => p.span.location ≤ q.span.location)
    {a : Acceptance} (hdescending : a.accepted.Pairwise fun q p => p.Precedes q)
    (hle : ∀ q ∈ a.accepted, ∀ p ∈ proposals, q.span.location ≤ p.span.location) :
    proposals.foldl (add source) a =
      ⟨(Sweep.ofProposals source a.accepted.head? proposals).accepted.reverse ++ a.accepted,
        a.skipped + (Sweep.ofProposals source a.accepted.head? proposals).skipped.length⟩ := by
  induction proposals generalizing a with
  | nil => rfl
  | cons p proposals ih =>
      obtain ⟨hfirst, hrest⟩ := List.pairwise_cons.1 hascending
      have hlater : ∀ q ∈ a.accepted, ∀ r ∈ proposals, q.span.location ≤ r.span.location :=
        fun q hq r hr => hle q hq r (List.mem_cons_of_mem _ hr)
      have hbefore := fun q hq => hle q hq p List.mem_cons_self
      rw [List.foldl_cons, add_eq_ite_admits hdescending hbefore, Sweep.ofProposals]
      cases hadmits : Sweep.admits source a.accepted.head? p with
      | true =>
          have hall := (forall_conflicts_eq_false_iff hdescending hbefore).2 (Sweep.admits_iff.1 hadmits).2
          have hprecedes : ∀ q ∈ a.accepted, q.Precedes p :=
            fun q hq => (Proposal.conflicts_eq_false_iff (hbefore q hq)).1 (hall q hq)
          have haccepts := @ih hrest { a with accepted := p :: a.accepted }
            (List.pairwise_cons.2 ⟨hprecedes, hdescending⟩) (List.forall_mem_cons.2 ⟨hfirst, hlater⟩)
          rw [if_pos rfl, if_pos rfl, haccepts, Sweep.accept, List.reverse_cons, List.append_assoc,
            List.singleton_append]
          rfl
      | false =>
          have hskips := @ih hrest { a with skipped := a.skipped + 1 } hdescending hlater
          rw [if_neg Bool.false_ne_true, if_neg Bool.false_ne_true, hskips, Sweep.skip,
            List.length_cons, Nat.add_assoc, Nat.add_comm 1]

theorem ofProposals_eq_sweep
    (hascending : proposals.Pairwise fun p q => p.span.location ≤ q.span.location) :
    ofProposals source proposals =
      ⟨(Sweep.ofProposals source none proposals).accepted.reverse,
        (Sweep.ofProposals source none proposals).skipped.length⟩ := by
  have hfold := @foldl_add_eq_sweep source proposals hascending {} .nil (by simp)
  rw [ofProposals, hfold]
  simp

end Acceptance

namespace Corrector

/-- Violations of rules that may not be corrected have no proposals. -/
theorem proposals_filter_isFixable (corrector : Corrector) (violations : List Violation) :
    corrector.proposals (violations.filter fun v => corrector.isFixable v.rule) =
      corrector.proposals violations := by
  rw [proposals, proposals, List.filterMap_filter]
  congr 2
  funext v
  cases hfixable : corrector.isFixable v.rule <;> simp [proposal?, hfixable]

/-- The corrections that may be applied, put in the order of their locations with those at one location in
the order in which they came, are sorted out by one sweep: one is accepted if it can be made, begins behind the
place where the last accepted one begins, and does not begin before that one ends. So no two accepted
corrections begin at one place or share an offset, a skipped one cannot be made or conflicts with an accepted
one that begins no later, each one is counted as applied or as skipped, and violations of rules that may not be
corrected make no difference. -/
theorem apply_eq_sweep (corrector : Corrector) (source : String) (violations : List Violation) :
    let proposals := corrector.proposals violations
    let sweep := Sweep.ofProposals source.toList none proposals
    let outcome := corrector.apply source violations
    (proposals.Pairwise fun p q => p.span.location ≤ q.span.location) ∧
      (∀ location, proposals.filter (fun p => p.span.location == location) =
        (violations.filterMap corrector.proposal?).filter fun p => p.span.location == location) ∧
      Acceptance.ofProposals source.toList proposals =
        ⟨sweep.accepted.reverse, sweep.skipped.length⟩ ∧
      (sweep.accepted ++ sweep.skipped).Perm proposals ∧
      (sweep.accepted.Pairwise fun p q =>
        p.span.location ≠ q.span.location ∧ ¬p.span.Shares q.span ∧
          p.span.intersects q.span = false) ∧
      (∀ p ∈ sweep.skipped, p.span.slice? source = none ∨
        ∃ q ∈ sweep.accepted, q.conflicts p = true ∧ q.span.location ≤ p.span.location) ∧
      outcome.totalApplied + outcome.skipped = (violations.filter corrector.canFix).length ∧
      corrector.apply source (violations.filter fun v => corrector.isFixable v.rule) = outcome := by
  intro proposals sweep outcome
  have hascending := corrector.pairwise_proposals violations
  have hacceptance := @Acceptance.ofProposals_eq_sweep source.toList _ hascending
  have hperm := Sweep.ofProposals_perm source.toList none (corrector.proposals violations)
  refine ⟨hascending, filter_sortBy _ _, hacceptance, hperm, ?_, ?_, ?_, ?_⟩
  · exact (Sweep.pairwise_accepted _ _ _).imp fun hprecedes =>
      ⟨Nat.ne_of_lt hprecedes.1, hprecedes.not_shares, hprecedes.not_intersects⟩
  · intro p hp
    have hskipped := Sweep.conflicts_of_mem_skipped hascending (by simp) p hp
    rwa [Span.slice?_eq, Option.map_eq_none_iff]
  · have hcounts : (corrector.apply source violations).totalApplied = sweep.accepted.length := by
      rw [CorrectionOutcome.totalApplied, apply, Acceptance.total_counts, hacceptance,
        List.length_reverse]
    have hskipped : (corrector.apply source violations).skipped = sweep.skipped.length := by
      rw [apply, hacceptance]
    rw [hcounts, hskipped, ← List.length_append, hperm.length_eq, length_proposals]
  · simp only [outcome, apply, proposals_filter_isFixable]

/-- Of two corrections that begin at one place the first is made, and one that cannot be made does not stand in
the way of others. -/
example :
    let spans : List Span := [⟨0, 2⟩, ⟨1, 0⟩, ⟨2, 0⟩, ⟨2, 2⟩, ⟨4, 9⟩, ⟨4, 1⟩]
    let sweep := Sweep.ofProposals "abcdef".toList none (spans.map fun span => ⟨"r", ⟨span, ""⟩⟩)
    sweep.accepted.map Proposal.span = [⟨0, 2⟩, ⟨2, 0⟩, ⟨4, 1⟩] ∧
      sweep.skipped.map Proposal.span = [⟨1, 0⟩, ⟨2, 2⟩, ⟨4, 9⟩] := by
  decide +kernel

end Corrector

end SourceLint
