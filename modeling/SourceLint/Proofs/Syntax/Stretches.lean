import SourceLint.Context
import SourceLint.Proofs.Spans
import SourceLint.Proofs.Syntax.LexemeOrder
import SourceLint.Proofs.Text.Searching

/-!
# The tokens under a span

The tokens of an accepted stream that lie within a span form one stretch of it, and so do those that share
an offset with the span. Each stretch is found by two binary searches. They find what a walk over all tokens
finds that asks each of them, whatever the span is: it may be empty, lie behind the end of the source, or
have an end that is no offset.

## Implementation notes

The ends of the tokens are offsets, but the end of the span need not be one. Whether the searches take such
an end as it is or cut it at the largest offset is the same, since no token reaches that far.
-/

namespace SourceLint

namespace Span

variable {a range : Span}

/-- A span that has an end among the offsets lies within another one that covers it. -/
theorem isWithin_iff_covers (hlt : a.location < a.stop) (hend : a.stop ≤ maxOffset) :
    a.IsWithin range ↔ range.covers a = true := by
  rw [isWithin_iff, containsSpan, covers, upperBound_eq_stop hend, Bool.and_eq_true, Bool.and_eq_true,
    decide_eq_true_eq, decide_eq_true_eq, decide_eq_true_eq, le_upperBound_iff hend]
  exact or_iff_right (Nat.not_le_of_lt hlt)

/-- A span that has an end among the offsets shares one with another span that is not empty, ends behind
its start and begins before its end. -/
theorem shares_iff_of_stop_le (hlt : a.location < a.stop) (hend : a.stop ≤ maxOffset) :
    a.Shares range ↔
      range.isEmpty = false ∧ range.location < a.stop ∧ a.location < range.stop := by
  rw [shares_iff, upperBound_eq_stop hend, isEmpty, beq_eq_false_iff_ne]
  simp only [upperBound, stop] at *
  omega

end Span

/-- A search only asks the elements that are there. -/
theorem partitionPoint_congr {α : Type _} {xs : Array α} {p q : α → Bool} (h : ∀ x ∈ xs, p x = q x) :
    partitionPoint xs p = partitionPoint xs q := by
  have hsearch : ∀ lo hi (hle : hi ≤ xs.size),
      partitionPoint.search xs p lo hi hle = partitionPoint.search xs q lo hi hle := by
    intro lo hi hle
    fun_induction partitionPoint.search xs p lo hi hle with
    | case1 lo hi hle lt mid hp ih =>
        rw [h _ (Array.getElem_mem _)] at hp
        rw [partitionPoint.search.eq_def xs q lo hi hle, dif_pos lt, if_pos hp, ih]
    | case2 lo hi hle lt mid hp ih =>
        rw [h _ (Array.getElem_mem _)] at hp
        rw [partitionPoint.search.eq_def xs q lo hi hle, dif_pos lt, if_neg hp, ih]
    | case3 lo hi hle lt => rw [partitionPoint.search.eq_def, dif_neg lt]
  exact hsearch _ _ _

namespace TokenFilter

variable {kinds : List TokenKind} {tokens : List Token}

/-- A filter that excludes kinds accepts tokens of other kinds, and no tokens at all. -/
theorem accepts_excluding_iff :
    (excluding kinds).accepts (tokens.map Token.kind) = true ↔ ∀ t ∈ tokens, t.kind ∉ kinds := by
  simp [accepts]

/-- A filter for kinds accepts tokens of these kinds, if there are any. -/
theorem accepts_only_iff :
    (only kinds).accepts (tokens.map Token.kind) = true ↔
      (∃ t, t ∈ tokens) ∧ ∀ t ∈ tokens, t.kind ∈ kinds := by
  cases tokens with
  | nil => simp [accepts]
  | cons t tokens => simp [accepts]

end TokenFilter

namespace TokenStream

variable {stream : TokenStream} {sourceLength : Nat}

theorem ofList_toList (stream : TokenStream) : ofList stream.toList = stream := rfl

/-- The search for the tokens within a span that takes all ends cut at the largest offset. -/
def cutTokensIn (stream : TokenStream) (range : Span) : List Token :=
  let start := partitionPoint stream.tokens fun t => t.span.location < range.location
  let later := stream.tokens.extract start stream.tokens.size
  later.toList.take (partitionPoint later fun t => t.span.upperBound ≤ range.upperBound)

/-- The search for the tokens that share an offset with a span that takes all ends cut at the largest
offset. -/
def cutOverlapping (stream : TokenStream) (range : Span) : List Token :=
  if range.isEmpty then []
  else
    let start := partitionPoint stream.tokens fun t => t.span.upperBound ≤ range.location
    let stop := partitionPoint stream.tokens fun t => t.span.location < range.upperBound
    (stream.tokens.extract start stop).toList

section Accepted

variable (hlength : sourceLength ≤ Span.maxOffset)
  (htokens : checkTokens sourceLength 0 0 stream.toList = .ok ())

include htokens in
theorem ascending_of_checkTokens : Ascending stream.toList := by
  obtain ⟨hall, hpairwise⟩ := checkTokens_eq_ok_iff.1 htokens
  refine ⟨fun t ht => ?_, hpairwise⟩
  have hnonempty := (hall t ht).1
  rw [Span.isEmpty, beq_eq_false_iff_ne] at hnonempty
  rw [Span.stop]
  omega

include hlength htokens

theorem stop_le_maxOffset : ∀ t ∈ stream.tokens, t.span.stop ≤ Span.maxOffset := by
  intro t ht
  obtain ⟨-, -, hend⟩ := (checkTokens_eq_ok_iff.1 htokens).1 t (Array.mem_toList_iff.2 ht)
  exact Nat.le_trans hend hlength

/-- The tokens within a span are found with ends cut or not. -/
theorem cutTokensIn_eq (range : Span) : stream.cutTokensIn range = stream.tokensIn range := by
  rw [cutTokensIn, tokensIn]
  congr 1
  apply partitionPoint_congr
  intro t ht
  have hmem : t ∈ stream.tokens := by
    obtain ⟨i, hi, rfl⟩ := Array.mem_extract_iff_getElem.1 ht
    exact Array.getElem_mem _
  have hend := stop_le_maxOffset hlength htokens t hmem
  rw [Span.upperBound_eq_stop hend, decide_eq_decide, Span.le_upperBound_iff hend]

/-- The tokens that share an offset with a span are found with ends cut or not. -/
theorem cutOverlapping_eq (range : Span) : stream.cutOverlapping range = stream.overlapping range := by
  have hstart : ∀ t ∈ stream.tokens,
      decide (t.span.upperBound ≤ range.location) = decide (t.span.stop ≤ range.location) := by
    intro t ht
    rw [Span.upperBound_eq_stop (stop_le_maxOffset hlength htokens t ht)]
  have hstop : ∀ t ∈ stream.tokens,
      decide (t.span.location < range.upperBound) = decide (t.span.location < range.stop) := by
    intro t ht
    have hlt := (ascending_of_checkTokens htokens).1 t (Array.mem_toList_iff.2 ht)
    have hend := stop_le_maxOffset hlength htokens t ht
    rw [decide_eq_decide, Span.lt_upperBound_iff (Nat.lt_of_lt_of_le hlt hend)]
  rw [cutOverlapping, overlapping, partitionPoint_congr hstart, partitionPoint_congr hstop]

/-- The search finds the tokens all of whose offsets are in the span. -/
theorem tokensIn_eq_filter_isWithin (range : Span) :
    stream.tokensIn range = stream.toList.filter fun t => t.span.IsWithin range := by
  have hascending := ascending_of_checkTokens htokens
  have hsearch := tokensIn_eq_filter hascending range
  rw [ofList_toList] at hsearch
  rw [hsearch]
  apply List.filter_congr
  intro t ht
  have hend := stop_le_maxOffset hlength htokens t (Array.mem_toList_iff.1 ht)
  rw [Bool.eq_iff_iff, decide_eq_true_eq, Span.isWithin_iff_covers (hascending.1 t ht) hend]

/-- The search finds the tokens that have an offset in the span. -/
theorem overlapping_eq_filter_shares (range : Span) :
    stream.overlapping range = stream.toList.filter fun t => t.span.Shares range := by
  have hascending := ascending_of_checkTokens htokens
  have hshares : ∀ t ∈ stream.toList, t.span.Shares range ↔
      range.isEmpty = false ∧ range.location < t.span.stop ∧ t.span.location < range.stop := by
    intro t ht
    have hend := stop_le_maxOffset hlength htokens t (Array.mem_toList_iff.1 ht)
    exact Span.shares_iff_of_stop_le (hascending.1 t ht) hend
  cases hrange : range.isEmpty with
  | true =>
      rw [overlapping, if_pos hrange]
      refine (List.filter_eq_nil_iff.2 fun t ht => ?_).symm
      rw [decide_eq_true_eq, hshares t ht, hrange]
      simp
  | false =>
      have hsearch := overlapping_eq_filter hascending hrange
      rw [ofList_toList] at hsearch
      rw [hsearch]
      apply List.filter_congr
      intro t ht
      rw [Bool.eq_iff_iff, decide_eq_true_eq, hshares t ht]
      simp [hrange]

theorem mem_overlapping_iff_shares {range : Span} {t : Token} :
    t ∈ stream.overlapping range ↔ t ∈ stream.toList ∧ t.span.Shares range := by
  rw [overlapping_eq_filter_shares hlength htokens, List.mem_filter, decide_eq_true_eq]

/-- On the tokens of an accepted stream the binary searches find what a walk over all tokens finds, in the
same order: for any span, empty, behind the end of the source or without an end among the offsets, the tokens
all of whose offsets are in the span, and the tokens that have an offset in it. They find the same when the
ends are cut at the largest offset. So matches are kept or dropped by the kinds of just those tokens that have
an offset in them. The length of a source in memory is an offset. -/
theorem searches_eq_filters :
    (∀ range,
      stream.tokensIn range = stream.toList.filter (fun t => t.span.IsWithin range) ∧
        stream.overlapping range = stream.toList.filter (fun t => t.span.Shares range) ∧
        stream.cutTokensIn range = stream.tokensIn range ∧
        stream.cutOverlapping range = stream.overlapping range) ∧
    ∀ context : Context, context.snapshot.tokens = stream → ∀ ranges kinds,
      context.filterMatches ranges (.excluding kinds) = ranges.filter (fun range =>
          ∀ t ∈ stream.toList, t.span.Shares range → t.kind ∉ kinds) ∧
        context.filterMatches ranges (.only kinds) = ranges.filter fun range =>
          (∃ t ∈ stream.toList, t.span.Shares range) ∧
            ∀ t ∈ stream.toList, t.span.Shares range → t.kind ∈ kinds := by
  constructor
  · intro range
    exact ⟨tokensIn_eq_filter_isWithin hlength htokens range,
      overlapping_eq_filter_shares hlength htokens range, cutTokensIn_eq hlength htokens range,
      cutOverlapping_eq hlength htokens range⟩
  · rintro context rfl ranges kinds
    have hfound : ∀ range t, t ∈ context.snapshot.tokens.overlapping range ↔
        t ∈ context.snapshot.tokens.toList ∧ t.span.Shares range :=
      fun range t => mem_overlapping_iff_shares hlength htokens
    constructor
    · apply List.filter_congr
      intro range _
      rw [Bool.eq_iff_iff, decide_eq_true_eq, Context.accepts, kindsOverlapping,
        TokenFilter.accepts_excluding_iff]
      simp only [hfound, and_imp]
    · apply List.filter_congr
      intro range _
      rw [Bool.eq_iff_iff, decide_eq_true_eq, Context.accepts, kindsOverlapping,
        TokenFilter.accepts_only_iff]
      simp only [hfound, and_imp]

end Accepted

/-- The tokens of a loop: those in a span whose end is no offset, those that have an offset in a span that
begins and ends within tokens, those in an empty span, and of three matches the one in a name. -/
theorem searches_eq_filters_loop :
    let stream := ofList [⟨.keyword, ⟨0, 3⟩⟩, ⟨.keyword, ⟨5, 1⟩⟩, ⟨.identifier, ⟨8, 3⟩⟩,
      ⟨.keyword, ⟨13, 2⟩⟩, ⟨.identifier, ⟨16, 3⟩⟩]
    let context : Context := { source := "for (_, foo) in bar", snapshot := ⟨[], stream⟩ }
    19 ≤ Span.maxOffset ∧ checkTokens 19 0 0 stream.toList = .ok () ∧
      stream.tokensIn ⟨9, Span.maxOffset⟩ = [⟨.keyword, ⟨13, 2⟩⟩, ⟨.identifier, ⟨16, 3⟩⟩] ∧
      stream.overlapping ⟨9, 5⟩ = [⟨.identifier, ⟨8, 3⟩⟩, ⟨.keyword, ⟨13, 2⟩⟩] ∧
      stream.overlapping ⟨9, 0⟩ = [] ∧
      context.filterMatches [⟨9, 1⟩, ⟨11, 2⟩, ⟨9, 5⟩] (.only [.identifier]) = [⟨9, 1⟩] := by
  intro stream context
  have hlength : 19 ≤ Span.maxOffset := by decide
  have htokens : checkTokens 19 0 0 stream.toList = .ok () := rfl
  obtain ⟨hsearches, hmatches⟩ := searches_eq_filters hlength htokens
  refine ⟨hlength, htokens, ?_, ?_, ?_, ?_⟩
  · rw [(hsearches _).1]
    decide +kernel
  · rw [(hsearches _).2.1]
    decide +kernel
  · rw [(hsearches _).2.1]
    decide +kernel
  · rw [(hmatches context rfl _ _).2]
    decide +kernel

end TokenStream

end SourceLint
