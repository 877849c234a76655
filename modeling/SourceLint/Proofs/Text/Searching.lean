import SourceLint.LineIndex
import SourceLint.Syntax.Token

/-!
# What the binary searches find

The tokens of a file and its line starts are found by halving. On tokens that come one after the other
the search gives exactly the tokens that share a byte with a span, and the line of an offset counts the
newlines before it.
-/

namespace SourceLint

variable {α : Type _}

/-- A test that holds before every element on which it holds splits a list at the number of these
elements. -/
theorem partitionedAt_countP {xs : List α} {p : α → Bool}
    (h : xs.Pairwise fun a b => p b = true → p a = true) :
    PartitionedAt xs.toArray p (xs.countP p) := by
  refine ⟨by simpa using List.countP_le_length, ?_⟩
  simp only [List.getElem_toArray, List.size_toArray]
  induction xs with
  | nil => exact ⟨fun i hi => by simp at hi, fun i hi => by simp at hi⟩
  | cons x xs ih =>
      rw [List.pairwise_cons] at h
      obtain ⟨hbefore, hbehind⟩ := ih h.2
      cases hx : p x with
      | true =>
          rw [List.countP_cons_of_pos hx]
          constructor
          · rintro (_ | i) hi hlt
            · exact hx
            · exact hbefore i (by simpa using hi) (by omega)
          · rintro (_ | i) hi hle
            · omega
            · exact hbehind i (by simpa using hi) (by omega)
      | false =>
          have hnone : ∀ y ∈ xs, p y = false := by
            intro y hy
            rw [Bool.eq_false_iff]
            intro hp
            rw [h.1 y hy hp] at hx
            cases hx
          have hcount : (x :: xs).countP p = 0 := by
            rw [List.countP_eq_zero]
            intro y hy
            rcases List.mem_cons.1 hy with rfl | hy
            · simp [hx]
            · simp [hnone y hy]
          rw [hcount]
          refine ⟨fun i hi hlt => by omega, ?_⟩
          rintro (_ | i) hi hle
          · exact hx
          · exact hnone _ (List.getElem_mem _)

/-- The elements before the end of the first part are those on which the test holds. -/
theorem filter_eq_take {xs : List α} {p : α → Bool} {n : Nat}
    (h : PartitionedAt xs.toArray p n) : xs.filter p = xs.take n := by
  obtain ⟨-, hbefore, hbehind⟩ := h
  simp only [List.size_toArray, List.getElem_toArray] at hbefore hbehind
  have hfront : (xs.take n).filter p = xs.take n := by
    rw [List.filter_eq_self]
    intro x hx
    obtain ⟨i, hi, rfl⟩ := List.getElem_of_mem hx
    rw [List.length_take] at hi
    rw [List.getElem_take]
    exact hbefore i (by omega) (by omega)
  have hrest : (xs.drop n).filter p = [] := by
    rw [List.filter_eq_nil_iff]
    intro x hx
    obtain ⟨i, hi, rfl⟩ := List.getElem_of_mem hx
    rw [List.length_drop] at hi
    rw [List.getElem_drop, hbehind (n + i) (by omega) (by omega)]
    simp
  rw [← List.take_append_drop n xs, List.filter_append, hfront, hrest, List.append_nil,
    List.take_append_drop]

/-- The elements behind the end of the first part are those on which the test fails. -/
theorem filter_not_eq_drop {xs : List α} {p : α → Bool} {n : Nat}
    (h : PartitionedAt xs.toArray p n) : (xs.filter fun x => !p x) = xs.drop n := by
  have hfront : ((xs.take n).filter fun x => !p x) = [] := by
    rw [← filter_eq_take h, List.filter_filter, List.filter_eq_nil_iff]
    simp
  have hrest : ((xs.drop n).filter fun x => !p x) = xs.drop n := by
    rw [List.filter_eq_self]
    intro x hx
    obtain ⟨i, hi, rfl⟩ := List.getElem_of_mem hx
    rw [List.length_drop] at hi
    have hfails := h.2.2 (n + i) (by rw [List.size_toArray]; omega) (Nat.le_add_right n i)
    rw [List.getElem_toArray] at hfails
    rw [List.getElem_drop, hfails]
    rfl
  rw [← List.take_append_drop n xs, List.filter_append, hfront, hrest, List.nil_append,
    List.take_append_drop]

/-- The search finds the end of the first part of a list that a test splits. -/
theorem partitionedAt_partitionPoint {xs : List α} {p : α → Bool}
    (h : xs.Pairwise fun a b => p b = true → p a = true) :
    PartitionedAt xs.toArray p (partitionPoint xs.toArray p) := by
  rw [partitionPoint_eq (partitionedAt_countP h)]
  exact partitionedAt_countP h

/-- Without its first elements a list is split at the same place. -/
theorem PartitionedAt.drop {xs : List α} {p : α → Bool} {n : Nat} (h : PartitionedAt xs.toArray p n)
    (m : Nat) : PartitionedAt (xs.drop m).toArray p (n - m) := by
  obtain ⟨hsize, hbefore, hbehind⟩ := h
  simp only [List.size_toArray, List.getElem_toArray] at hsize hbefore hbehind
  simp only [PartitionedAt, List.size_toArray, List.getElem_toArray, List.length_drop,
    List.getElem_drop]
  refine ⟨by omega, fun i hi hlt => ?_, fun i hi hle => ?_⟩
  · exact hbefore (m + i) (by omega) (by omega)
  · exact hbehind (m + i) (by omega) (by omega)

/-- Between the ends of two first parts lie the elements that are not in the first one of them and are in
the other one. There are none when these ends have crossed. -/
theorem take_drop_eq_filter {xs : List α} {p q : α → Bool} {m n : Nat}
    (hp : PartitionedAt xs.toArray p m) (hq : PartitionedAt xs.toArray q n) :
    (xs.drop m).take (n - m) = xs.filter fun x => q x && !p x := by
  rw [← List.filter_filter, filter_not_eq_drop hp, filter_eq_take (hq.drop m)]

/-! ### Tokens -/

namespace TokenStream

/-- The tokens are not empty and come one after the other. -/
def Ascending (tokens : List Token) : Prop :=
  (∀ t ∈ tokens, t.span.location < t.span.stop) ∧
    tokens.Pairwise fun a b => a.span.stop ≤ b.span.location

section Ascending

variable {tokens : List Token} (h : Ascending tokens)

include h

theorem Ascending.partitionedAt_location (offset : Nat) :
    PartitionedAt tokens.toArray (fun t => t.span.location < offset)
      (partitionPoint tokens.toArray fun t => t.span.location < offset) := by
  refine partitionedAt_partitionPoint (h.2.imp_of_mem fun {a b} ha _ hab => ?_)
  have := h.1 a ha
  simp only [decide_eq_true_eq]
  omega

theorem Ascending.partitionedAt_stop (offset : Nat) :
    PartitionedAt tokens.toArray (fun t => t.span.stop ≤ offset)
      (partitionPoint tokens.toArray fun t => t.span.stop ≤ offset) := by
  refine partitionedAt_partitionPoint (h.2.imp_of_mem fun {a b} _ hb hab => ?_)
  have := h.1 b hb
  simp only [decide_eq_true_eq]
  omega

/-- The tokens within a span are those that begin in it or behind it and end no later than it does. -/
theorem tokensIn_eq_filter (range : Span) :
    (ofList tokens).tokensIn range = tokens.filter fun t => range.covers t.span := by
  have hlater := (h.partitionedAt_stop range.stop).drop
    (partitionPoint tokens.toArray fun t => t.span.location < range.location)
  simp only [tokensIn, ofList, List.extract_toArray, List.size_toArray, List.take_of_length_le,
    List.length_drop, Nat.le_refl, partitionPoint_eq hlater]
  rw [take_drop_eq_filter (h.partitionedAt_location _) (h.partitionedAt_stop _)]
  congr 1
  funext t
  simp only [Span.covers, Bool.and_comm, ← decide_not, Nat.not_lt]

/-- The tokens that share a byte with a span are those that end behind its start and begin before its
end. -/
theorem overlapping_eq_filter {range : Span} (hrange : range.isEmpty = false) :
    (ofList tokens).overlapping range =
      tokens.filter fun t => range.location < t.span.stop && t.span.location < range.stop := by
  simp only [overlapping, ofList, hrange, Bool.false_eq_true, if_false, List.extract_toArray,
    List.extract_eq_take_drop]
  rw [take_drop_eq_filter (h.partitionedAt_stop _) (h.partitionedAt_location _)]
  congr 1
  funext t
  simp only [Bool.and_comm, ← decide_not, Nat.not_le]

/-- The tokens that the search finds are those that share a byte with the span. -/
theorem mem_overlapping_iff {range : Span} (hrange : range.isEmpty = false) {t : Token} :
    t ∈ (ofList tokens).overlapping range ↔
      t ∈ tokens ∧ range.location < t.span.stop ∧ t.span.location < range.stop := by
  rw [overlapping_eq_filter h hrange, List.mem_filter, Bool.and_eq_true, decide_eq_true_eq,
    decide_eq_true_eq]

end Ascending

end TokenStream

/-! ### Lines -/

/-- Offsets behind newlines move along with the text. -/
theorem offsetsAfterNewlines_add (offset more : Nat) (cs : List Char) :
    offsetsAfterNewlines (more + offset) cs = (offsetsAfterNewlines offset cs).map (more + ·) := by
  induction cs generalizing offset with
  | nil => rfl
  | cons c cs ih =>
      simp only [offsetsAfterNewlines, Nat.add_assoc, ih]
      split <;> simp

theorem offsetsAfterNewlines_append (offset : Nat) (cs ds : List Char) :
    offsetsAfterNewlines offset (cs ++ ds) =
      offsetsAfterNewlines offset cs ++ offsetsAfterNewlines (offset + byteLength cs) ds := by
  induction cs generalizing offset with
  | nil => rfl
  | cons c cs ih =>
      simp only [List.cons_append, offsetsAfterNewlines, ih, byteLength_cons, Nat.add_assoc]
      split <;> rfl

theorem length_offsetsAfterNewlines (offset : Nat) (cs : List Char) :
    (offsetsAfterNewlines offset cs).length = cs.count '\n' := by
  induction cs generalizing offset with
  | nil => rfl
  | cons c cs ih =>
      by_cases hc : c = '\n' <;> simp [offsetsAfterNewlines, hc, ih]

/-- Offsets behind newlines lie behind the beginning of the text, up to its end. -/
theorem mem_offsetsAfterNewlines {offset o : Nat} {cs : List Char}
    (h : o ∈ offsetsAfterNewlines offset cs) : offset < o ∧ o ≤ offset + byteLength cs := by
  induction cs generalizing offset with
  | nil => simp [offsetsAfterNewlines] at h
  | cons c cs ih =>
      have hpos := c.utf8Size_pos
      have hrest : o ∈ offsetsAfterNewlines (offset + c.utf8Size) cs →
          offset < o ∧ o ≤ offset + byteLength (c :: cs) := by
        intro h
        have := ih h
        rw [byteLength_cons]
        omega
      simp only [offsetsAfterNewlines] at h
      split at h
      · rcases List.mem_cons.1 h with rfl | h
        · rw [byteLength_cons]
          omega
        · exact hrest h
      · exact hrest h

theorem pairwise_offsetsAfterNewlines (offset : Nat) (cs : List Char) :
    (offsetsAfterNewlines offset cs).Pairwise (· < ·) := by
  induction cs generalizing offset with
  | nil => exact .nil
  | cons c cs ih =>
      simp only [offsetsAfterNewlines]
      split
      · exact List.pairwise_cons.2 ⟨fun o ho => (mem_offsetsAfterNewlines ho).1, ih _⟩
      · exact ih _

namespace LineIndex

/-- The line of an offset is found by counting the lines that start there or before. -/
theorem partitionPoint_starts (source : String) (o : Nat) :
    partitionPoint (ofString source).starts (fun start => start ≤ o) =
      (0 :: offsetsAfterNewlines 0 source.toList).countP fun start => start ≤ o := by
  refine partitionPoint_eq (partitionedAt_countP ?_)
  have hstarts : (0 :: offsetsAfterNewlines 0 source.toList).Pairwise (· < ·) :=
    List.pairwise_cons.2
      ⟨fun o ho => (mem_offsetsAfterNewlines ho).1, pairwise_offsetsAfterNewlines _ _⟩
  refine hstarts.imp fun {a b} hab => ?_
  simp only [decide_eq_true_eq]
  omega

/-- Within a piece of a text, the line of an offset counts the newlines before the piece and those in
it that come before the offset. -/
theorem lineOf_within {source : String} {front piece back : List Char}
    (hsource : source.toList = front ++ piece ++ back) {offset : Nat}
    (hoffset : offset ≤ byteLength piece) :
    (ofString source).lineOf (byteLength front + offset) =
      1 + front.count '\n' + (offsetsAfterNewlines 0 piece).countP (· ≤ offset) := by
  let o := byteLength front + offset
  have hfront : (offsetsAfterNewlines 0 front).countP (fun start => decide (start ≤ o)) =
      front.count '\n' := by
    rw [← length_offsetsAfterNewlines 0, List.countP_eq_length]
    intro start hstart
    have := (mem_offsetsAfterNewlines hstart).2
    simp only [o, decide_eq_true_eq]
    omega
  have hpiece : (offsetsAfterNewlines (byteLength front) piece).countP
      (fun start => decide (start ≤ o)) =
      (offsetsAfterNewlines 0 piece).countP fun start => decide (start ≤ offset) := by
    rw [← Nat.add_zero (byteLength front), offsetsAfterNewlines_add, List.countP_map]
    congr 1
    funext start
    simp [o]
  have hback : (offsetsAfterNewlines (byteLength front + byteLength piece) back).countP
      (fun start => decide (start ≤ o)) = 0 := by
    rw [List.countP_eq_zero]
    intro start hstart
    have := (mem_offsetsAfterNewlines hstart).1
    simp only [o, decide_eq_true_eq]
    omega
  rw [lineOf, partitionPoint_starts, List.countP_cons_of_pos (by simp), hsource,
    offsetsAfterNewlines_append, offsetsAfterNewlines_append, List.countP_append,
    List.countP_append, byteLength_append]
  simp only [Nat.zero_add]
  rw [hfront, hpiece, hback]
  omega

/-- The line of an offset counts the newlines before it. -/
theorem lineOf_append {source : String} {front back : List Char}
    (hsource : source.toList = front ++ back) :
    (ofString source).lineOf (byteLength front) = 1 + front.count '\n' := by
  have hparts : source.toList = front ++ [] ++ back := by simpa using hsource
  simpa [offsetsAfterNewlines] using lineOf_within hparts (Nat.zero_le _)

/-- Later offsets lie on later lines or on the same one. -/
theorem lineOf_mono (source : String) {offset offset' : Nat} (h : offset ≤ offset') :
    (ofString source).lineOf offset ≤ (ofString source).lineOf offset' := by
  rw [lineOf, lineOf, partitionPoint_starts, partitionPoint_starts]
  have hle : (0 :: offsetsAfterNewlines 0 source.toList).countP (fun start => start ≤ offset) ≤
      (0 :: offsetsAfterNewlines 0 source.toList).countP (fun start => start ≤ offset') := by
    apply List.countP_mono_left
    intro start _ hstart
    simp only [decide_eq_true_eq] at hstart ⊢
    omega
  omega

end LineIndex

end SourceLint
