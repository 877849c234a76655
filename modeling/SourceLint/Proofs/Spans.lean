import SourceLint.Span

/-!
# Spans as sets of offsets

A span stands for the offsets that it contains. One span lies within another one when all its offsets are
in there, and two spans share an offset when some offset is in both of them. Both can be told from the
places and the ends of the spans, with ends cut at the largest offset. Spans meet when they share an offset,
as far as neither is empty.
-/

namespace SourceLint.Span

variable {a b : Span}

/-- Every offset of the first span belongs to the second one. -/
def IsWithin (a b : Span) : Prop :=
  ∀ offset, a.contains offset = true → b.contains offset = true

/-- Some offset belongs to both spans. -/
def Shares (a b : Span) : Prop :=
  ∃ offset, a.contains offset = true ∧ b.contains offset = true

theorem contains_iff {r : Span} {offset : Nat} :
    r.contains offset = true ↔ r.location ≤ offset ∧ offset < r.upperBound := by
  rw [contains, Bool.and_eq_true, decide_eq_true_eq, decide_eq_true_eq]

/-- Among offsets, the end of a span is reached just when its end cut at the largest offset is. -/
theorem le_upperBound_iff {r : Span} {n : Nat} (h : n ≤ maxOffset) : n ≤ r.upperBound ↔ n ≤ r.stop := by
  rw [upperBound, stop]
  omega

theorem lt_upperBound_iff {r : Span} {n : Nat} (h : n < maxOffset) : n < r.upperBound ↔ n < r.stop :=
  le_upperBound_iff h

/-- A span lies within another one when it has no offsets, or begins no earlier and ends no later. -/
theorem isWithin_iff :
    a.IsWithin b ↔ a.upperBound ≤ a.location ∨ b.containsSpan a = true := by
  simp only [IsWithin, contains_iff, containsSpan, Bool.and_eq_true, decide_eq_true_eq]
  constructor
  · intro hwithin
    -- the first and the last offset of the span say all
    have hfirst := hwithin a.location
    have hlast := hwithin (a.upperBound - 1)
    omega
  · intro hends offset hoffset
    omega

/-- Spans share an offset when the later one of their first offsets comes before both ends. -/
theorem shares_iff :
    a.Shares b ↔ max a.location b.location < min a.upperBound b.upperBound := by
  simp only [Shares, contains_iff]
  constructor
  · rintro ⟨offset, ha, hb⟩
    omega
  · intro hlt
    exact ⟨max a.location b.location, by omega, by omega⟩

instance (a b : Span) : Decidable (a.IsWithin b) := decidable_of_iff _ isWithin_iff.symm

instance (a b : Span) : Decidable (a.Shares b) := decidable_of_iff _ shares_iff.symm

/-- Of two spans the one that begins first meets the other one, whichever of them is empty, when it ends
behind the place where that one begins. -/
theorem intersects_eq_of_lt (h : a.location < b.location) :
    a.intersects b = decide (b.location < a.upperBound) := by
  have hb := b.location_le_upperBound
  cases ha : a.isEmpty with
  | true =>
      have hend : a.upperBound = a.location := by
        rw [isEmpty, beq_iff_eq] at ha
        rw [upperBound, ha, Nat.zero_min, Nat.add_zero]
      have hne : (a.location == b.location) = false := beq_false_of_ne (Nat.ne_of_lt h)
      have hbehind : decide (b.location < a.location) = false := decide_eq_false (Nat.lt_asymm h)
      simp only [intersects, ha, Bool.true_and, hne, hbehind, Bool.false_and, if_true, ite_self, hend]
  | false =>
      cases hempty : b.isEmpty with
      | true => simp [intersects, ha, hempty, h]
      | false =>
          have hbefore : a.location < b.upperBound := Nat.lt_of_lt_of_le h hb
          simp [intersects, ha, hempty, hbefore]

theorem length_ne_zero {r : Span} (h : r.isEmpty = false) : r.length ≠ 0 := by
  rwa [isEmpty, beq_eq_false_iff_ne] at h

theorem intersects_comm (a b : Span) : a.intersects b = b.intersects a := by
  cases ha : a.isEmpty with
  | true =>
      cases hb : b.isEmpty with
      | true => simp [intersects, ha, hb, Bool.beq_comm]
      | false => simp [intersects, ha, hb]
  | false =>
      cases hb : b.isEmpty with
      | true => simp [intersects, ha, hb]
      | false => simp [intersects, ha, hb, Bool.and_comm]

/-- Spans that are not empty meet when they share an offset. This holds up to the largest offset: a span that
begins there contains nothing, and it meets nothing. -/
theorem intersects_iff_shares (ha : a.isEmpty = false) (hb : b.isEmpty = false) :
    a.intersects b = true ↔ a.Shares b := by
  have hlength := length_ne_zero ha
  have hlength' := length_ne_zero hb
  have hmeets : a.intersects b = true ↔ a.location < b.upperBound ∧ b.location < a.upperBound := by
    simp [intersects, ha, hb]
  rw [hmeets, shares_iff]
  constructor
  · rintro ⟨hab, hba⟩
    -- each span begins before an end, so before the largest offset, and then it contains its first byte
    simp only [upperBound] at *
    omega
  · intro hlt
    omega

/-- An empty span meets one that is not empty strictly inside it. -/
theorem intersects_iff_of_isEmpty (ha : a.isEmpty = true) (hb : b.isEmpty = false) :
    a.intersects b = true ↔ b.location < a.location ∧ a.location < b.upperBound := by
  simp [intersects, ha, hb]

theorem intersects_eq_false_iff_of_lt (h : a.location < b.location) :
    a.intersects b = false ↔ a.upperBound ≤ b.location := by
  rw [intersects_eq_of_lt h, decide_eq_false_iff_not, Nat.not_lt]

/-- Whether two spans meet does not depend on their order. Spans that are not empty meet when they share an
offset, and an empty span meets one that is not when it lies strictly between its place and its end. A span
that begins before another one does not meet it just when it ends no later than that one begins. -/
theorem intersects_spec (a b : Span) :
    a.intersects b = b.intersects a ∧
    (a.isEmpty = false → b.isEmpty = false → (a.intersects b = true ↔ a.Shares b)) ∧
    (a.isEmpty = true → b.isEmpty = false →
      (a.intersects b = true ↔ b.location < a.location ∧ a.location < b.upperBound)) ∧
    (a.location < b.location → (a.intersects b = false ↔ a.upperBound ≤ b.location)) :=
  ⟨intersects_comm a b, intersects_iff_shares, intersects_iff_of_isEmpty, intersects_eq_false_iff_of_lt⟩

/-- A span whose end is no offset. -/
def overlong : Span := ⟨1, maxOffset⟩

/-- A span whose end is cut meets the spans inside it, in both orders, and none that begins at its cut end. -/
theorem intersects_spec_overlong :
    (overlong.isEmpty = false ∧ (⟨2, 1⟩ : Span).isEmpty = false ∧ overlong.Shares ⟨2, 1⟩ ∧
      overlong.intersects ⟨2, 1⟩ = true ∧ (⟨2, 1⟩ : Span).intersects overlong = true) ∧
    ((⟨7, 0⟩ : Span).isEmpty = true ∧ (⟨7, 0⟩ : Span).intersects overlong = true) ∧
    overlong.location < maxOffset ∧ overlong.upperBound ≤ maxOffset ∧
      overlong.intersects ⟨maxOffset, 3⟩ = false := by
  have hempty : overlong.isEmpty = false := by decide
  obtain ⟨hcomm, hshares, -⟩ := intersects_spec overlong ⟨2, 1⟩
  obtain ⟨-, -, hinside, -⟩ := intersects_spec ⟨7, 0⟩ overlong
  obtain ⟨-, -, -, hbehind⟩ := intersects_spec overlong ⟨maxOffset, 3⟩
  have hshare : overlong.Shares ⟨2, 1⟩ := by decide
  have hmeets : overlong.intersects ⟨2, 1⟩ = true := (hshares hempty (by decide)).2 hshare
  refine ⟨⟨hempty, by decide, hshare, hmeets, hcomm ▸ hmeets⟩, ⟨by decide, ?_⟩, by decide, by decide, ?_⟩
  · exact (hinside (by decide) hempty).2 (by decide)
  · exact (hbehind (by decide)).2 (by decide)

end SourceLint.Span
