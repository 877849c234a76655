/-!
# Binary search in a partitioned array

When a test holds on a first part of an array and fails on the rest, the end of the first part is
found by halving. The tokens of a file, its line starts and the states of its directives are all
searched this way. The main statement says what is found: `partitionPoint_eq_iff`.
-/

namespace SourceLint

variable {α : Type _}

/-- Halve the interval from `lo` to `hi`, which holds the end of the part where `p` is true. -/
def partitionPoint.search (xs : Array α) (p : α → Bool) (lo hi : Nat) (h : hi ≤ xs.size) : Nat :=
  if lt : lo < hi then
    let mid := lo + (hi - lo) / 2
    if p xs[mid] then search xs p (mid + 1) hi h else search xs p lo mid (by omega)
  else lo
termination_by hi - lo

/-- The number of elements in the first part of an array, the part where `p` is true. -/
def partitionPoint (xs : Array α) (p : α → Bool) : Nat :=
  partitionPoint.search xs p 0 xs.size (Nat.le_refl _)

/-- The test `p` holds on the first `n` elements and on no later one. -/
def PartitionedAt (xs : Array α) (p : α → Bool) (n : Nat) : Prop :=
  n ≤ xs.size ∧ (∀ i (h : i < xs.size), i < n → p xs[i] = true) ∧
    ∀ i (h : i < xs.size), n ≤ i → p xs[i] = false

theorem partitionPoint.search_eq {xs : Array α} {p : α → Bool} {n lo hi : Nat} {h : hi ≤ xs.size}
    (hn : PartitionedAt xs p n) (hlo : lo ≤ n) (hhi : n ≤ hi) : search xs p lo hi h = n := by
  fun_induction search xs p lo hi h with
  | case1 lo hi h lt mid hp ih =>
    refine ih (Nat.succ_le_of_lt (Nat.lt_of_not_le fun hle => ?_)) hhi
    simp [hn.2.2 mid (by omega) hle] at hp
  | case2 lo hi h lt mid hp ih =>
    refine ih hlo (Nat.le_of_not_lt fun hlt => ?_)
    simp [hn.2.1 mid (by omega) hlt] at hp
  | case3 lo hi h lt => omega

theorem partitionPoint_eq {xs : Array α} {p : α → Bool} {n : Nat} (hn : PartitionedAt xs p n) :
    partitionPoint xs p = n :=
  partitionPoint.search_eq hn (Nat.zero_le _) hn.1

/-- On a partitioned array the search finds the boundary, and nothing else. -/
theorem partitionPoint_eq_iff {xs : Array α} {p : α → Bool} {m n : Nat}
    (hm : PartitionedAt xs p m) : partitionPoint xs p = n ↔ n = m := by
  rw [partitionPoint_eq hm, eq_comm]

end SourceLint
