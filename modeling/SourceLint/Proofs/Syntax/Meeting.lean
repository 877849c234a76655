import SourceLint.Proofs.Grammar.Structure
import SourceLint.Proofs.Syntax.Stretches
import SourceLint.Proofs.Syntax.Tiling

/-!
# Lexemes under a span

The tokens that share a byte with a span are those of the lexemes that do. A lexeme of punctuation may share a byte
with it without a token.
-/

namespace SourceLint

namespace Span

/-- The byte at an offset is under the span, however large its end is. -/
def Has (r : Span) (offset : Nat) : Prop := r.location ≤ offset ∧ offset < r.stop

/-- Some byte is under both spans. -/
def Meets (a b : Span) : Prop := ∃ offset, a.Has offset ∧ b.Has offset

theorem meets_iff {a b : Span} : a.Meets b ↔ max a.location b.location < min a.stop b.stop := by
  constructor
  · rintro ⟨offset, ⟨hlocation, hstop⟩, hlocation', hstop'⟩
    omega
  · intro hlt
    exact ⟨max a.location b.location, ⟨by omega, by omega⟩, by omega, by omega⟩

instance (a b : Span) : Decidable (a.Meets b) := decidable_of_iff _ meets_iff.symm

end Span

namespace Lexeme

theorem token?_eq_some_iff {x : Lexeme} {t : Token} :
    x.token? = some t ↔ x.kind = .token t.kind ∧ x.span = t.span := by
  rw [token?]
  split
  · rename_i kind hkind
    constructor
    · rintro ⟨⟩
      exact ⟨hkind, rfl⟩
    · rintro ⟨hsame, hspan⟩
      rw [hkind] at hsame
      rw [LexemeKind.token.inj hsame, hspan]
  · rename_i hkind
    simp [hkind]

theorem isComment_iff {x : Lexeme} : x.isComment = true ↔ x.kind = .token .comment := by
  rw [isComment, beq_iff_eq]

/-- A byte that is no blank belongs to a lexeme. -/
theorem Tiles.exists_has {source : String} {lexemes : List Lexeme} (h : Tiles source lexemes) {offset : Nat}
    {byte : UInt8} (hbyte : source.toByteArray.data.toList[offset]? = some byte)
    (hblank : byte ∉ [32, 9, 13, 10]) : ∃ x ∈ lexemes, x.span.Has offset := by
  by_contra hnone
  exact hblank (h.blanks offset byte hbyte fun x hx hhas => hnone ⟨x, hx, hhas⟩)

/-- A byte belongs to one lexeme at most. -/
theorem Tiles.eq_of_has {source : String} {lexemes : List Lexeme} (h : Tiles source lexemes) {x y : Lexeme}
    (hx : x ∈ lexemes) (hy : y ∈ lexemes) {offset : Nat} (hhas : x.span.Has offset) (hhas' : y.span.Has offset) :
    x = y := by
  by_contra hne
  have hapart : lexemes.Pairwise fun x y => x.stop ≤ y.start ∨ y.stop ≤ x.start := h.ordered.imp Or.inl
  have : Std.Symm fun x y : Lexeme => x.stop ≤ y.start ∨ y.stop ≤ x.start := ⟨fun _ _ => Or.symm⟩
  obtain ⟨hlocation, hstop⟩ : x.start ≤ offset ∧ offset < x.stop := hhas
  obtain ⟨hlocation', hstop'⟩ : y.start ≤ offset ∧ offset < y.stop := hhas'
  rcases hapart.forall hx hy hne with hbefore | hbefore
  · omega
  · omega

end Lexeme

namespace Snapshot

variable {source : String} {snapshot : Snapshot} {lexemes : List Lexeme}

/-- The tokens of a text come one after the other. -/
theorem ascending_ofSource (h : ofSource source = .ok snapshot) : TokenStream.Ascending snapshot.tokens.toList := by
  obtain ⟨lexemes, forest, hlexemes, hforest, rfl⟩ := ofSource_eq_ok_iff.1 h
  have hcheck := (parts_pass hlexemes hforest).1
  exact TokenStream.ascending_of_checkTokens (by simpa [TokenStream.toList, TokenStream.ofList] using hcheck)

/-- The tokens of a text are those of its lexemes. -/
theorem tokens_eq (hsnapshot : ofSource source = .ok snapshot) (hlexemes : Lexeme.ofSource source = .ok lexemes) :
    snapshot.tokens = .ofList (lexemes.filterMap Lexeme.token?) := by
  obtain ⟨found, forest, hfound, -, rfl⟩ := ofSource_eq_ok_iff.1 hsnapshot
  obtain rfl := Except.ok.inj (hfound.symm.trans hlexemes)
  rfl

theorem toList_tokens (hsnapshot : ofSource source = .ok snapshot)
    (hlexemes : Lexeme.ofSource source = .ok lexemes) :
    snapshot.tokens.toList = lexemes.filterMap Lexeme.token? := by
  rw [tokens_eq hsnapshot hlexemes]
  simp [TokenStream.toList, TokenStream.ofList]

/-- The search for the tokens under a span finds those of the lexemes under it. -/
theorem mem_overlapping_iff (hsnapshot : ofSource source = .ok snapshot)
    (hlexemes : Lexeme.ofSource source = .ok lexemes) {range : Span} (hrange : range.isEmpty = false) {t : Token} :
    t ∈ snapshot.tokens.overlapping range ↔ ∃ x ∈ lexemes, x.span.Meets range ∧ x.token? = some t := by
  have htiles := Lexeme.Tiles.of_ofSource hlexemes
  have hmeets : ∀ x ∈ lexemes, x.token? = some t →
      (x.span.Meets range ↔ range.location < t.span.stop ∧ t.span.location < range.stop) := by
    intro x hx ht
    have hspan : x.span = t.span := (Lexeme.token?_eq_some_iff.1 ht).2
    have hnonempty : x.span.location < x.span.stop := htiles.nonempty x hx
    rw [Span.isEmpty, beq_eq_false_iff_ne] at hrange
    rw [← hspan, Span.meets_iff]
    simp only [Span.stop] at *
    omega
  have hascending := ascending_ofSource hsnapshot
  rw [toList_tokens hsnapshot hlexemes] at hascending
  rw [tokens_eq hsnapshot hlexemes, TokenStream.mem_overlapping_iff hascending hrange, List.mem_filterMap]
  constructor
  · rintro ⟨⟨x, hx, ht⟩, hshares⟩
    exact ⟨x, hx, (hmeets x hx ht).2 hshares, ht⟩
  · rintro ⟨x, hx, hmeet, ht⟩
    exact ⟨⟨x, hx, ht⟩, (hmeets x hx ht).1 hmeet⟩

end Snapshot

end SourceLint
