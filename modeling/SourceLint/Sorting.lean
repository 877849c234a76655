/-!
# Sorting by a number

Violations and corrections are put in the order of their offsets, and those at one offset keep the order
in which they came. The sorted list has the same elements (`sortBy_perm`), their keys ascend
(`pairwise_sortBy`), and the elements with one key stand in their old order (`filter_sortBy`).
-/

namespace SourceLint

variable {α : Type _} (key : α → Nat)

/-- Put an element before the first one whose key is not smaller. -/
def insertBy (x : α) : List α → List α
  | [] => [x]
  | y :: ys => if key x ≤ key y then x :: y :: ys else y :: insertBy x ys

/-- The elements in ascending order of their keys. Those with one key keep their order. -/
def sortBy : List α → List α
  | [] => []
  | x :: xs => insertBy key x (sortBy xs)

theorem insertBy_perm (x : α) (ys : List α) : (insertBy key x ys).Perm (x :: ys) := by
  fun_induction insertBy key x ys with
  | case1 => rfl
  | case2 => rfl
  | case3 y ys h ih => exact (ih.cons y).trans (List.Perm.swap x y ys)

theorem sortBy_perm (xs : List α) : (sortBy key xs).Perm xs := by
  induction xs with
  | nil => exact .nil
  | cons x xs ih => exact (insertBy_perm key x _).trans (ih.cons x)

theorem pairwise_insertBy (x : α) {ys : List α} (h : ys.Pairwise fun a b => key a ≤ key b) :
    (insertBy key x ys).Pairwise fun a b => key a ≤ key b := by
  fun_induction insertBy key x ys with
  | case1 => exact List.pairwise_singleton _ _
  | case2 y ys hle =>
    refine List.pairwise_cons.2 ⟨fun z hz => ?_, h⟩
    rcases List.mem_cons.1 hz with rfl | hz
    · exact hle
    · exact Nat.le_trans hle (List.rel_of_pairwise_cons h hz)
  | case3 y ys hlt ih =>
    refine List.pairwise_cons.2 ⟨fun z hz => ?_, ih (List.Pairwise.of_cons h)⟩
    rcases List.mem_cons.1 ((insertBy_perm key x ys).mem_iff.1 hz) with rfl | hz
    · exact Nat.le_of_not_le hlt
    · exact List.rel_of_pairwise_cons h hz

theorem pairwise_sortBy (xs : List α) : (sortBy key xs).Pairwise fun a b => key a ≤ key b := by
  induction xs with
  | nil => exact .nil
  | cons x xs ih => exact pairwise_insertBy key x ih

theorem filter_insertBy (x : α) (ys : List α) (k : Nat) :
    (insertBy key x ys).filter (fun a => key a == k) =
      (x :: ys).filter fun a => key a == k := by
  fun_induction insertBy key x ys with
  | case1 => rfl
  | case2 => rfl
  | case3 y ys h ih =>
    by_cases hx : key x = k
    · have hy : (key y == k) = false := beq_false_of_ne fun hy => h (by omega)
      simp [ih, hx, hy]
    · simp [List.filter_cons, ih, hx]

theorem filter_sortBy (xs : List α) (k : Nat) :
    (sortBy key xs).filter (fun a => key a == k) = xs.filter fun a => key a == k := by
  induction xs with
  | nil => rfl
  | cons x xs ih =>
    rw [sortBy, filter_insertBy, List.filter_cons, List.filter_cons, ih]

end SourceLint
