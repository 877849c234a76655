import SourceLint.Proofs.Correction.Splicing
import SourceLint.Proofs.SortedTable

/-!
# Independent corrections

Corrections are independent when each of them replaces some text and no two of them share a character.
All corrections that are independent are accepted, whatever their order is, and the corrected text is the
source text with all of them made.
-/

namespace SourceLint

namespace Span

variable {a b : Span}

/-- Spans apart from each other do not meet, nor begin at one place, unless they are empty. -/
theorem not_intersects_of_apart (ha : 0 < a.length) (hb : 0 < b.length)
    (h : a.stop ≤ b.location ∨ b.stop ≤ a.location) :
    a.location ≠ b.location ∧ a.intersects b = false := by
  have hstop := a.upperBound_le_stop
  have hstop' := b.upperBound_le_stop
  have hempty : a.isEmpty = false := by
    rw [isEmpty, beq_eq_false_iff_ne]
    omega
  have hempty' : b.isEmpty = false := by
    rw [isEmpty, beq_eq_false_iff_ne]
    omega
  constructor
  · simp only [stop] at h
    omega
  · simp only [intersects, hempty, hempty', Bool.and_self, Bool.false_eq_true, if_false,
      Bool.and_eq_false_iff, decide_eq_false_iff_not]
    rcases h with h | h
    · right
      omega
    · left
      omega

theorem length_pos_of_chars? {cs piece : List Char} (h : a.chars? cs = some piece)
    (hne : piece ≠ []) : 0 < a.length := by
  obtain ⟨front, back, -, -, hlength⟩ := chars?_eq_some_iff.1 h
  have hzero := mt byteLength_eq_zero_iff.1 hne
  omega

/-- Of two pieces without a character in common the one that begins first ends where the other one
begins, or before. -/
theorem stop_le_of_pieces {cs piece piece' : List Char} (h : a.chars? cs = some piece)
    (h' : b.chars? cs = some piece') (hne : piece' ≠ []) (hcommon : ∀ c ∈ piece', c ∉ piece)
    (hle : a.location ≤ b.location) : a.stop ≤ b.location := by
  obtain ⟨front, back, rfl, hlocation, hlength⟩ := chars?_eq_some_iff.1 h
  obtain ⟨front', back', hparts, hlocation', -⟩ := chars?_eq_some_iff.1 h'
  rw [List.append_assoc, List.append_assoc] at hparts
  obtain ⟨between, rfl, hrest⟩ := exists_append_of_byteLength_le hparts (by omega)
  rw [byteLength_append] at hlocation'
  rw [stop]
  by_contra hlt
  obtain ⟨more, rfl, hmore⟩ := exists_append_of_byteLength_le hrest.symm (by omega)
  obtain ⟨c, rest, rfl⟩ := List.exists_cons_of_ne_nil hne
  cases more with
  | nil =>
      rw [List.append_nil] at hlength
      omega
  | cons first more =>
      obtain ⟨rfl, -⟩ := List.cons.inj hmore
      exact hcommon c List.mem_cons_self (by simp)

end Span

namespace Correction

/-- Each correction replaces some text of the source, and no two of them share a character. -/
structure Independent (source : List Char) (corrections : List Correction) : Prop where
  pieces : ∀ e ∈ corrections, ∃ piece, e.span.chars? source = some piece ∧ piece ≠ []
  apart : corrections.Pairwise fun a b =>
    a.span.stop ≤ b.span.location ∨ b.span.stop ≤ a.span.location

namespace Independent

variable {source : List Char} {corrections more : List Correction}

theorem perm (h : Independent source corrections) (hperm : corrections.Perm more) :
    Independent source more where
  pieces := fun e he => h.pieces e (hperm.mem_iff.2 he)
  apart := (hperm.pairwise_iff fun hapart => Or.symm hapart).1 h.apart

theorem slices (h : Independent source corrections) :
    ∀ e ∈ corrections, (e.span.chars? source).isSome := by
  intro e he
  obtain ⟨piece, hpiece, -⟩ := h.pieces e he
  rw [hpiece]
  rfl

theorem length_pos (h : Independent source corrections) :
    ∀ e ∈ corrections, 0 < e.span.length := by
  intro e he
  obtain ⟨piece, hpiece, hne⟩ := h.pieces e he
  exact Span.length_pos_of_chars? hpiece hne

theorem not_intersects (h : Independent source corrections) :
    corrections.Pairwise fun a b =>
      a.span.location ≠ b.span.location ∧ a.span.intersects b.span = false :=
  h.apart.imp_of_mem fun ha hb hapart =>
    Span.not_intersects_of_apart (h.length_pos _ ha) (h.length_pos _ hb) hapart

/-- Independent corrections in the order of their locations can be spliced. -/
theorem exists_spliced (h : Independent source corrections)
    (hsorted : corrections.Pairwise fun a b => a.span.location ≤ b.span.location) :
    ∃ content, Spliced 0 corrections source content := by
  have hsource : source = [] ++ source := rfl
  apply Correction.exists_spliced hsource h.slices (by simp)
  refine List.Pairwise.imp_of_mem ?_ (h.apart.and hsorted)
  rintro a b - hb ⟨hapart, hle⟩
  have hpos := h.length_pos b hb
  rcases hapart with hapart | hapart
  · exact hapart
  · rw [Span.stop] at hapart
    omega

/-- Independent corrections have one outcome, in whatever order they are listed. -/
theorem spliced_unique {cs ds : List Char} (h : Independent source corrections)
    (hperm : corrections.Perm more) (hspliced : Spliced 0 corrections source cs)
    (hspliced' : Spliced 0 more source ds) : cs = ds := by
  have hsame : corrections = more := by
    refine hperm.eq_of_pairwise ?_ hspliced.ascending.1 hspliced'.ascending.1
    intro a b ha hb hab hba
    have hpos := h.length_pos a ha
    simp only [Span.stop] at hab hba
    omega
  rw [← hsame] at hspliced'
  exact Option.some.inj (hspliced.splice_eq.symm.trans hspliced'.splice_eq)

/-- Two lists of independent corrections are independent together when no text of the one has a
character in common with a text of the other. -/
theorem append (h : Independent source corrections) (h' : Independent source more)
    (hcommon : ∀ e ∈ corrections, ∀ e' ∈ more, ∀ piece piece', e.span.chars? source = some piece →
      e'.span.chars? source = some piece' → ∀ c ∈ piece, c ∉ piece') :
    Independent source (corrections ++ more) where
  pieces := by
    intro e he
    rcases List.mem_append.1 he with he | he
    · exact h.pieces e he
    · exact h'.pieces e he
  apart := by
    refine List.pairwise_append.2 ⟨h.apart, h'.apart, ?_⟩
    intro a ha b hb
    obtain ⟨piece, hpiece, hne⟩ := h.pieces a ha
    obtain ⟨piece', hpiece', hne'⟩ := h'.pieces b hb
    have hdisjoint := hcommon a ha b hb piece piece' hpiece hpiece'
    rcases Nat.le_total a.span.location b.span.location with hle | hle
    · left
      exact Span.stop_le_of_pieces hpiece hpiece' hne' (fun c hc hc' => hdisjoint c hc' hc) hle
    · right
      exact Span.stop_le_of_pieces hpiece' hpiece hne hdisjoint hle

end Independent

end Correction

namespace Acceptance

/-- Proposals of which none conflicts with a later one, nor with those already accepted, are all
accepted. -/
theorem foldl_add_eq {source : List Char} {proposals : List Proposal} {a : Acceptance}
    (hslices : ∀ p ∈ proposals, (p.span.chars? source).isSome)
    (hconflicts : proposals.Pairwise fun q p => q.conflicts p = false)
    (haccepted : ∀ q ∈ a.accepted, ∀ p ∈ proposals, q.conflicts p = false) :
    proposals.foldl (add source) a = ⟨proposals.reverse ++ a.accepted, a.skipped⟩ := by
  induction proposals generalizing a with
  | nil => rfl
  | cons p proposals ih =>
      obtain ⟨hfirst, hrest⟩ := List.pairwise_cons.1 hconflicts
      have hnone : (a.accepted.any fun q => q.conflicts p) = false := by
        rw [List.any_eq_false]
        intro q hq
        rw [haccepted q hq p List.mem_cons_self]
        simp
      have hadd : a.add source p = ⟨p :: a.accepted, a.skipped⟩ := by
        rw [add, hslices p List.mem_cons_self, hnone]
        rfl
      rw [List.foldl_cons, hadd, ih (fun q hq => hslices q (List.mem_cons_of_mem _ hq)) hrest]
      · simp
      · intro q hq p' hp'
        rcases List.mem_cons.1 hq with rfl | hq
        · exact hfirst p' hp'
        · exact haccepted q hq p' (List.mem_cons_of_mem _ hp')

theorem ofProposals_eq {source : List Char} {proposals : List Proposal}
    (h : Correction.Independent source (proposals.map Proposal.correction)) :
    ofProposals source proposals = ⟨proposals.reverse, 0⟩ := by
  have hconflicts : proposals.Pairwise fun q p => q.conflicts p = false := by
    apply (List.pairwise_map.1 h.not_intersects).imp
    rintro q p ⟨hne, hmeet⟩
    rw [Proposal.conflicts, Bool.or_eq_false_iff, beq_eq_false_iff_ne]
    exact ⟨hne, hmeet⟩
  have hslices : ∀ p ∈ proposals, (p.span.chars? source).isSome :=
    fun p hp => h.slices _ (List.mem_map_of_mem hp)
  rw [ofProposals, foldl_add_eq hslices hconflicts (by simp), List.append_nil]

theorem total_counts (a : Acceptance) : SortedTable.total a.counts = a.accepted.length :=
  SortedTable.total_foldl_addCount Proposal.rule a.accepted

end Acceptance

namespace Corrector

variable {corrector : Corrector} {source : String} {violations : List Violation}

theorem proposals_perm (corrector : Corrector) (violations : List Violation) :
    (corrector.proposals violations).Perm (violations.filterMap corrector.proposal?) :=
  sortBy_perm _ _

/-- The corrections that may be applied come in ascending order. -/
theorem pairwise_proposals (corrector : Corrector) (violations : List Violation) :
    (corrector.proposals violations).Pairwise fun p q => p.span.location ≤ q.span.location :=
  pairwise_sortBy (fun p : Proposal => p.span.location) _

/-- The corrections that may be applied are as many as the violations that can be fixed. -/
theorem length_proposals (corrector : Corrector) (violations : List Violation) :
    (corrector.proposals violations).length = (violations.filter corrector.canFix).length := by
  rw [(corrector.proposals_perm violations).length_eq]
  induction violations with
  | nil => rfl
  | cons v violations ih =>
      rw [List.filterMap_cons, List.filter_cons]
      cases hcorrection : v.correction with
      | none =>
          rw [proposal?, canFix, Violation.isCorrectable, hcorrection]
          simpa using ih
      | some e =>
          rw [proposal?, canFix, Violation.isCorrectable, hcorrection]
          cases corrector.isFixable v.rule with
          | true => simpa using ih
          | false => simpa using ih

section Independent

variable (h : Correction.Independent source.toList
  ((violations.filterMap corrector.proposal?).map Proposal.correction))

include h

theorem independent_proposals : Correction.Independent source.toList
    ((corrector.proposals violations).map Proposal.correction) :=
  h.perm ((corrector.proposals_perm violations).symm.map _)

/-- No independent correction is skipped. -/
theorem skipped_apply : (corrector.apply source violations).skipped = 0 := by
  rw [apply, Acceptance.ofProposals_eq (independent_proposals h)]

/-- All independent corrections are applied that may be. -/
theorem totalApplied_apply : (corrector.apply source violations).totalApplied =
    (violations.filter corrector.canFix).length := by
  rw [CorrectionOutcome.totalApplied, apply, Acceptance.total_counts,
    Acceptance.ofProposals_eq (independent_proposals h), List.length_reverse, length_proposals]

/-- The corrected text is the source text with all independent corrections made. -/
theorem spliced_apply : Correction.Spliced 0
    ((corrector.proposals violations).map Proposal.correction) source.toList
    (corrector.apply source violations).content.toList := by
  have hsorted : ((corrector.proposals violations).map Proposal.correction).Pairwise fun a b =>
      a.span.location ≤ b.span.location := by
    rw [List.pairwise_map]
    exact corrector.pairwise_proposals violations
  obtain ⟨content, hspliced⟩ := (independent_proposals h).exists_spliced hsorted
  have hedits := hspliced.editAll?_reverse [] rfl
  rw [List.nil_append, List.nil_append] at hedits
  have hcontent : (corrector.apply source violations).content.toList = content := by
    rw [apply, Acceptance.ofProposals_eq (independent_proposals h)]
    simp [hedits]
  rw [hcontent]
  exact hspliced

end Independent

end Corrector

end SourceLint
