import Mathlib.Data.List.Forall2
import SourceLint.Sorting

/-!
# Stable sorting determines the list

A list whose keys ascend is known from the elements at each key alone. So two lists have the same sorted
list exactly when the elements with one key stand in the same order in both of them.
-/

namespace SourceLint

variable {α : Type _} {key : α → Nat} {xs ys : List α}

/-- The elements of one list are elements of the other when at each key both have the same. -/
theorem mem_of_filter_eq (h : ∀ k, xs.filter (fun a => key a == k) = ys.filter fun a => key a == k)
    {x : α} (hx : x ∈ xs) : x ∈ ys := by
  have hmem : x ∈ xs.filter fun a => key a == key x := List.mem_filter.2 ⟨hx, beq_self_eq_true _⟩
  rw [h (key x)] at hmem
  exact (List.mem_filter.1 hmem).1

/-- Lists in order are equal when at each key both have the same elements in the same order. -/
theorem eq_of_filter_eq (hxs : xs.Pairwise fun a b => key a ≤ key b)
    (hys : ys.Pairwise fun a b => key a ≤ key b)
    (h : ∀ k, xs.filter (fun a => key a == k) = ys.filter fun a => key a == k) : xs = ys := by
  induction xs generalizing ys with
  | nil =>
      refine (List.eq_nil_iff_forall_not_mem.2 fun y hy => ?_).symm
      exact List.not_mem_nil (mem_of_filter_eq (fun k => (h k).symm) hy)
  | cons x xs ih =>
      cases ys with
      | nil => exact absurd (mem_of_filter_eq h List.mem_cons_self) List.not_mem_nil
      | cons y ys =>
          obtain ⟨hxle, hxrest⟩ := List.pairwise_cons.1 hxs
          obtain ⟨hyle, hyrest⟩ := List.pairwise_cons.1 hys
          -- the first elements have the least key, and so the same one
          have hle : key x ≤ key y := by
            rcases List.mem_cons.1 (mem_of_filter_eq (fun k => (h k).symm) List.mem_cons_self)
              with rfl | hy
            · exact Nat.le_refl _
            · exact hxle y hy
          have hge : key y ≤ key x := by
            rcases List.mem_cons.1 (mem_of_filter_eq h List.mem_cons_self) with rfl | hx
            · exact Nat.le_refl _
            · exact hyle x hx
          have hkey : key y = key x := Nat.le_antisymm hge hle
          have hfirst := h (key x)
          simp only [List.filter_cons, hkey, beq_self_eq_true, if_true, List.cons.injEq] at hfirst
          obtain ⟨rfl, -⟩ := hfirst
          refine congrArg (x :: ·) (ih hxrest hyrest fun k => ?_)
          have hrest := h k
          simp only [List.filter_cons] at hrest
          split at hrest
          · exact List.cons.inj hrest |>.2
          · exact hrest

/-- Lists are sorted alike exactly when the elements with one key stand in the same order in both. -/
theorem sortBy_eq_sortBy_iff :
    sortBy key xs = sortBy key ys ↔
      ∀ k, xs.filter (fun a => key a == k) = ys.filter fun a => key a == k := by
  constructor
  · intro h k
    rw [← filter_sortBy, h, filter_sortBy]
  · intro h
    apply eq_of_filter_eq (pairwise_sortBy key xs) (pairwise_sortBy key ys)
    intro k
    rw [filter_sortBy, filter_sortBy, h]

/-- A list in order is sorted. -/
theorem sortBy_eq_self (key : α → Nat) (h : xs.Pairwise fun a b => key a ≤ key b) :
    sortBy key xs = xs :=
  eq_of_filter_eq (pairwise_sortBy key xs) h (filter_sortBy key xs)

theorem map_insertBy {β : Type _} (key : β → Nat) (f : α → β) (x : α) (xs : List α) :
    (insertBy (fun a => key (f a)) x xs).map f = insertBy key (f x) (xs.map f) := by
  fun_induction insertBy (fun a => key (f a)) x xs with
  | case1 => rfl
  | case2 y ys hle => rw [List.map_cons, List.map_cons, insertBy, if_pos hle]
  | case3 y ys hlt ih => rw [List.map_cons, List.map_cons, insertBy, if_neg hlt, ih]

/-- Sorting what a function makes of some elements is sorting the elements by what it makes of them. -/
theorem sortBy_map {β : Type _} (key : β → Nat) (f : α → β) (xs : List α) :
    sortBy key (xs.map f) = (sortBy (fun a => key (f a)) xs).map f := by
  induction xs with
  | nil => rfl
  | cons x xs ih => rw [List.map_cons, sortBy, sortBy, ih, map_insertBy]

/-- Numbers are the sorted keys of some elements when they ascend and are the keys in some order. -/
theorem map_sortBy_eq_iff {numbers : List Nat} :
    (sortBy key xs).map key = numbers ↔ numbers.Pairwise (· ≤ ·) ∧ numbers.Perm (xs.map key) := by
  have hascending : ((sortBy key xs).map key).Pairwise (· ≤ ·) := by
    rw [List.pairwise_map]
    exact pairwise_sortBy key xs
  have hperm := (sortBy_perm key xs).map key
  constructor
  · rintro rfl
    exact ⟨hascending, hperm⟩
  · rintro ⟨hnumbers, hkeys⟩
    apply List.Perm.eq_of_pairwise _ hascending hnumbers (hperm.trans hkeys.symm)
    intro a b _ _ hle hge
    exact Nat.le_antisymm hle hge

/-- Elements may be left out before a list is sorted or behind that. -/
theorem filter_sortBy_eq (key : α → Nat) (p : α → Bool) (xs : List α) :
    (sortBy key xs).filter p = sortBy key (xs.filter p) := by
  refine eq_of_filter_eq ((pairwise_sortBy key xs).filter p) (pairwise_sortBy key _) fun k => ?_
  calc
    ((sortBy key xs).filter p).filter (fun a => key a == k)
      = ((sortBy key xs).filter fun a => key a == k).filter p := by
        simp only [List.filter_filter, Bool.and_comm]
    _ = (xs.filter fun a => key a == k).filter p := by rw [filter_sortBy]
    _ = (xs.filter p).filter (fun a => key a == k) := by simp only [List.filter_filter, Bool.and_comm]
    _ = (sortBy key (xs.filter p)).filter (fun a => key a == k) := (filter_sortBy key _ k).symm

section Related

variable {β : Type _} {R : α → β → Prop} {key : α → Nat} {key' : β → Nat}
  (hkey : ∀ x x' y y', R x x' → R y y' → (key' x' ≤ key' y' ↔ key x ≤ key y))

include hkey

theorem forall₂_insertBy {x : α} {x' : β} {xs : List α} {xs' : List β} (hx : R x x') (h : List.Forall₂ R xs xs') :
    List.Forall₂ R (insertBy key x xs) (insertBy key' x' xs') := by
  induction h with
  | nil => exact .cons hx .nil
  | @cons y y' ys ys' hy hys ih =>
      rw [insertBy, insertBy]
      by_cases hle : key x ≤ key y
      · rw [if_pos hle, if_pos ((hkey x x' y y' hx hy).2 hle)]
        exact .cons hx (.cons hy hys)
      · rw [if_neg hle, if_neg fun hle' => hle ((hkey x x' y y' hx hy).1 hle')]
        exact .cons hy ih

/-- Elements with keys in the same order are sorted alike. -/
theorem forall₂_sortBy {xs : List α} {xs' : List β} (h : List.Forall₂ R xs xs') :
    List.Forall₂ R (sortBy key xs) (sortBy key' xs') := by
  induction h with
  | nil => exact .nil
  | cons hx _ ih => exact forall₂_insertBy hkey hx ih

end Related

end SourceLint
