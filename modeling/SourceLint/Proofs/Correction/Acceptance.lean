import SourceLint.Proofs.Correction.Splicing
import SourceLint.Proofs.Spans

/-!
# Accepted corrections

Proposals are accepted in ascending order of their locations. The four cases of `Span.intersects` with
empty and other spans come down to one fact: of two proposals that do not conflict, the one that begins
first ends where the other begins, or before. So the accepted spans are apart from each other, and
making the edits in place is one splice of the source text.
-/

namespace SourceLint

/-- The first proposal begins before the second one, and ends where that one begins or before. -/
def Proposal.Precedes (p q : Proposal) : Prop :=
  p.span.location < q.span.location ∧ p.span.upperBound ≤ q.span.location

instance (p q : Proposal) : Decidable (p.Precedes q) := inferInstanceAs (Decidable (_ ∧ _))

theorem Proposal.Precedes.trans {p q r : Proposal} (h : p.Precedes q) (h' : q.Precedes r) :
    p.Precedes r :=
  ⟨Nat.lt_trans h.1 h'.1, Nat.le_trans h.2 (Nat.le_of_lt h'.1)⟩

/-- Two proposals in ascending order can both be accepted when the first one precedes the other. -/
theorem Proposal.conflicts_eq_false_iff {p q : Proposal} (hle : p.span.location ≤ q.span.location) :
    p.conflicts q = false ↔ p.Precedes q := by
  rw [conflicts, Bool.or_eq_false_iff, beq_eq_false_iff_ne]
  constructor
  · rintro ⟨hne, hmeet⟩
    have hlt := Nat.lt_of_le_of_ne hle hne
    rw [Span.intersects_eq_of_lt hlt, decide_eq_false_iff_not, Nat.not_lt] at hmeet
    exact ⟨hlt, hmeet⟩
  · rintro ⟨hlt, hend⟩
    rw [Span.intersects_eq_of_lt hlt, decide_eq_false_iff_not, Nat.not_lt]
    exact ⟨Nat.ne_of_lt hlt, hend⟩

/-- A span that begins no later than another one, and neither at the same place nor meeting it, ends no
later than the other one begins. -/
theorem Proposal.apart_of_not_conflicts {p q : Proposal}
    (hle : p.span.location ≤ q.span.location) (hconflicts : p.conflicts q = false)
    (hfits : p.span.stop ≤ Span.maxOffset) :
    p.span.location < q.span.location ∧ p.span.stop ≤ q.span.location := by
  rw [← Span.upperBound_eq_stop hfits]
  exact (conflicts_eq_false_iff hle).1 hconflicts

namespace Acceptance

/-- The accepted proposals, the last one first, have texts under their spans, and their spans are apart
from each other. -/
structure Apart (source : List Char) (accepted : List Proposal) : Prop where
  slices : ∀ p ∈ accepted, (p.span.chars? source).isSome
  descending : accepted.Pairwise fun q p =>
    p.span.location < q.span.location ∧ p.span.stop ≤ q.span.location

namespace Apart

variable {source : List Char} {accepted : List Proposal}

/-- A proposal that is accepted behind the others keeps them apart. -/
theorem add (hfits : byteLength source ≤ Span.maxOffset) {a : Acceptance} {p : Proposal}
    (h : Apart source a.accepted)
    (hle : ∀ q ∈ a.accepted, q.span.location ≤ p.span.location) :
    Apart source (a.add source p).accepted := by
  rw [Acceptance.add]
  split
  · rename_i haccept
    simp only [Bool.and_eq_true, Bool.not_eq_true', List.any_eq_false, Bool.not_eq_true] at haccept
    obtain ⟨hslice, hconflicts⟩ := haccept
    refine ⟨?_, List.pairwise_cons.2 ⟨fun q hq => ?_, h.descending⟩⟩
    · intro q hq
      rcases List.mem_cons.1 hq with rfl | hq
      · exact hslice
      · exact h.slices q hq
    · obtain ⟨piece, hpiece⟩ := Option.isSome_iff_exists.1 (h.slices q hq)
      have hstop := Span.stop_le_of_chars? hpiece
      exact Proposal.apart_of_not_conflicts (hle q hq) (hconflicts q hq) (by omega)
  · exact h

/-- Taking proposals in ascending order keeps the accepted ones apart. -/
theorem foldl_add (hfits : byteLength source ≤ Span.maxOffset) {proposals : List Proposal}
    (hascending : proposals.Pairwise fun p q => p.span.location ≤ q.span.location)
    {a : Acceptance} (h : Apart source a.accepted)
    (hle : ∀ q ∈ a.accepted, ∀ p ∈ proposals, q.span.location ≤ p.span.location) :
    Apart source (proposals.foldl (Acceptance.add source) a).accepted := by
  induction proposals generalizing a with
  | nil => exact h
  | cons p proposals ih =>
      rw [List.pairwise_cons] at hascending
      apply ih hascending.2 (h.add hfits fun q hq => hle q hq p List.mem_cons_self)
      intro q hq p' hp'
      rw [Acceptance.add] at hq
      split at hq
      · rcases List.mem_cons.1 hq with rfl | hq
        · exact hascending.1 p' hp'
        · exact hle q hq p' (List.mem_cons_of_mem _ hp')
      · exact hle q hq p' (List.mem_cons_of_mem _ hp')

/-- The accepted proposals among the sorted ones are apart from each other. -/
theorem ofProposals (corrector : Corrector) (violations : List Violation)
    (hfits : byteLength source ≤ Span.maxOffset) :
    Apart source (Acceptance.ofProposals source (corrector.proposals violations)).accepted := by
  refine foldl_add hfits ?_ ⟨by simp, .nil⟩ (by simp)
  exact pairwise_sortBy (fun p : Proposal => p.span.location) _

theorem of_append {more : List Proposal} (h : Apart source (accepted ++ more)) :
    Apart source accepted :=
  ⟨fun q hq => h.slices q (List.mem_append_left _ hq), (List.pairwise_append.1 h.descending).1⟩

/-- The edits of proposals that are apart can be spliced into the source text. -/
theorem exists_spliced (h : Apart source accepted) :
    ∃ content, Correction.Spliced 0 (accepted.reverse.map Proposal.correction) source content := by
  have hsource : source = [] ++ source := rfl
  refine Correction.exists_spliced hsource ?_ (by simp) ?_
  · intro correction hc
    obtain ⟨p, hp, rfl⟩ := List.mem_map.1 hc
    exact h.slices p (List.mem_reverse.1 hp)
  · rw [List.pairwise_map, List.pairwise_reverse]
    exact h.descending.imp fun hapart => hapart.2

end Apart

/-- Making the accepted edits from the last one to the first one gives the spliced text. -/
theorem editAll?_eq {source content : List Char} {accepted : List Proposal}
    (h : Correction.Spliced 0 (accepted.reverse.map Proposal.correction) source content) :
    Correction.editAll? (accepted.map Proposal.correction) source = some content := by
  have hedits := h.editAll?_reverse [] rfl
  rwa [← List.map_reverse, List.reverse_reverse, List.nil_append, List.nil_append] at hedits

/-- While the edits are made, the next one finds the original text under its span, and it can be
made. -/
theorem Apart.edit_finds_original {source : List Char} {done rest : List Proposal} {p : Proposal}
    (h : Apart source (done ++ p :: rest)) :
    ∃ buffer piece edited,
      Correction.editAll? (done.map Proposal.correction) source = some buffer ∧
        p.span.chars? source = some piece ∧ p.span.chars? buffer = some piece ∧
        p.correction.edit? buffer = some edited := by
  obtain ⟨buffer, hbuffer⟩ := h.of_append.exists_spliced
  obtain ⟨piece, hpiece⟩ := Option.isSome_iff_exists.1 (h.slices p (by simp))
  obtain ⟨front, back, rfl, hlocation, hlength⟩ := Span.chars?_eq_some_iff.1 hpiece
  have hbehind : ∀ correction ∈ done.reverse.map Proposal.correction,
      0 + byteLength (front ++ piece) ≤ correction.span.location := by
    intro correction hc
    obtain ⟨q, hq, rfl⟩ := List.mem_map.1 hc
    have hapart := (List.pairwise_append.1 h.descending).2.2 q (List.mem_reverse.1 hq) p (by simp)
    have hstop := hapart.2
    simp only [Span.stop] at hstop
    rw [byteLength_append, hlocation, hlength]
    simp only [Proposal.span] at hstop ⊢
    omega
  obtain ⟨later, rfl, -⟩ := hbuffer.exists_append hbehind
  refine ⟨front ++ piece ++ later, piece, front ++ p.correction.replacement.toList ++ later,
    editAll?_eq hbuffer, hpiece, Span.chars?_eq_some_iff.2 ⟨front, later, rfl, hlocation, hlength⟩, ?_⟩
  have hedit := Correction.edit?_append front piece later p.correction.replacement
  rwa [hlocation, hlength] at hedit

end Acceptance

namespace Corrector

/-- The corrected text when the accepted proposals can be spliced into the source text. -/
theorem content_apply {corrector : Corrector} {source : String} {violations : List Violation}
    {content : List Char}
    (h : Correction.Spliced 0 ((Acceptance.ofProposals source.toList
      (corrector.proposals violations)).accepted.reverse.map Proposal.correction)
      source.toList content) :
    (corrector.apply source violations).content.toList = content := by
  simp [apply, Acceptance.editAll?_eq h]

/-- The corrected text is the source text cut at the spans of the accepted corrections in ascending
order, with each span replaced and all else kept. The spans are apart from each other, and each edit
on the way there finds the original text under its span. A text in memory has no more bytes than there
are offsets. -/
theorem apply_eq_splice (corrector : Corrector) (source : String) (violations : List Violation)
    (hfits : source.utf8ByteSize ≤ Span.maxOffset) :
    let accepted := (Acceptance.ofProposals source.toList (corrector.proposals violations)).accepted
    (accepted.Pairwise fun q p =>
      p.span.location < q.span.location ∧ p.span.stop ≤ q.span.location) ∧
    Correction.splice 0 (accepted.reverse.map Proposal.correction) source.toList =
      some (corrector.apply source violations).content.toList ∧
    ∀ done p rest, accepted = done ++ p :: rest →
      ∃ buffer piece edited,
        Correction.editAll? (done.map Proposal.correction) source.toList = some buffer ∧
          p.span.chars? source.toList = some piece ∧ p.span.chars? buffer = some piece ∧
          p.correction.edit? buffer = some edited := by
  intro accepted
  have hapart : Acceptance.Apart source.toList accepted :=
    .ofProposals corrector violations (by rwa [byteLength_toList])
  obtain ⟨content, hspliced⟩ := hapart.exists_spliced
  refine ⟨hapart.descending, ?_, ?_⟩
  · rw [content_apply hspliced]
    exact hspliced.splice_eq
  · intro done p rest hsplit
    rw [hsplit] at hapart
    exact hapart.edit_finds_original

/-- Two edits that touch are made; one that meets the first and one past the largest offset are not. -/
theorem apply_eq_splice_touching :
    "abcdef".utf8ByteSize ≤ Span.maxOffset ∧
      Correction.splice 0 [⟨⟨1, 2⟩, "X"⟩, ⟨⟨3, 0⟩, "_"⟩] "abcdef".toList =
        some "aX_def".toList := by
  let edits : List Correction :=
    [⟨⟨1, 2⟩, "X"⟩, ⟨⟨3, 0⟩, "_"⟩, ⟨⟨2, 2⟩, "Y"⟩, ⟨⟨4, Span.maxOffset⟩, "Z"⟩]
  let violations : List Violation := edits.map fun correction =>
    { rule := "r", severity := .warning, offset := correction.span.location, reason := ""
      correction := some correction }
  have hsplice := (apply_eq_splice {} "abcdef" violations (by decide)).2.1
  exact ⟨by decide, hsplice⟩

end Corrector

end SourceLint
