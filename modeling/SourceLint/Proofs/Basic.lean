import Mathlib.Data.List.Forall2

/-!
# Results and spans

Facts about results of computations that may fail, about the first place in a list where a test
fails, about how far a pattern at its beginning reaches, and about lists whose elements are related one by one.
-/

namespace SourceLint

theorem exceptMap_eq_ok_iff {ε α β : Type} {x : Except ε α} {f : α → β} {b : β} :
    x.map f = .ok b ↔ ∃ a, x = .ok a ∧ f a = b := by
  cases x with
  | error e => simp [Except.map]
  | ok a => simp [Except.map]

theorem exceptMap_eq_error_iff {ε α β : Type} {x : Except ε α} {f : α → β} {e : ε} :
    x.map f = .error e ↔ x = .error e := by
  cases x with
  | error found => simp [Except.map]
  | ok a => simp [Except.map]

theorem exceptBind_eq_ok_iff {ε α β : Type} {x : Except ε α} {f : α → Except ε β} {b : β} :
    x >>= f = .ok b ↔ ∃ a, x = .ok a ∧ f a = .ok b := by
  cases x with
  | error e => simp [bind, Except.bind]
  | ok a => simp [bind, Except.bind]

theorem exceptMap_map {ε α β γ : Type} (x : Except ε α) (f : α → β) (g : β → γ) :
    (x.map f).map g = x.map fun a => g (f a) := by
  cases x <;> rfl

/-- Whether a computation fails with an error can be decided, whatever its results are. -/
instance decidableEqError {ε α : Type} [DecidableEq ε] (x : Except ε α) (e : ε) :
    Decidable (x = .error e) :=
  x.casesOn (fun found => decidable_of_iff (found = e) (by simp)) fun _ => .isFalse (by simp)

/-- A computation behind a test that must not hold. -/
theorem exceptIte_eq_ok_iff {ε α : Type} {c : Prop} [Decidable c] {e : ε} {x : Except ε α} {a : α} :
    (if c then .error e else x) = .ok a ↔ ¬c ∧ x = .ok a := by
  by_cases hc : c
  · simp [hc]
  · simp [hc]

/-- A result that passes a test is there. -/
theorem exists_of_toOption_any {ε α : Type} {x : Except ε α} {p : α → Bool}
    (h : x.toOption.any p = true) : ∃ a, x = .ok a ∧ p a = true := by
  cases x with
  | error e => cases h
  | ok a => exact ⟨a, rfl, h⟩

/-- A function that changes no element of a list leaves the list as it is. -/
theorem map_eq_self {α : Type} {f : α → α} {xs : List α} (h : ∀ x ∈ xs, f x = x) : xs.map f = xs := by
  calc
    xs.map f = xs.map fun x => x := List.map_congr_left h
    _ = xs := List.map_id' xs

/-- A list is cut where a test fails for the first time. -/
theorem exists_span {α : Type} (p : α → Bool) (xs : List α) :
    ∃ front rest, xs = front ++ rest ∧ (∀ x ∈ front, p x = true) ∧ ∀ x ∈ rest.head?, p x = false := by
  induction xs with
  | nil => exact ⟨[], [], rfl, by simp, by simp⟩
  | cons x xs ih =>
      cases hx : p x with
      | false => exact ⟨[], x :: xs, rfl, by simp, by simp [hx]⟩
      | true =>
          obtain ⟨front, rest, rfl, hfront, hrest⟩ := ih
          exact ⟨x :: front, rest, rfl, by simpa [hx] using hfront, hrest⟩

theorem takeWhile_span {α : Type} {p : α → Bool} {front rest : List α}
    (hfront : ∀ x ∈ front, p x = true) (hrest : ∀ x ∈ rest.head?, p x = false) :
    (front ++ rest).takeWhile p = front := by
  rw [List.takeWhile_append_of_pos hfront]
  cases rest with
  | nil => simp
  | cons x rest => simp [hrest x rfl]

theorem dropWhile_span {α : Type} {p : α → Bool} {front rest : List α}
    (hfront : ∀ x ∈ front, p x = true) (hrest : ∀ x ∈ rest.head?, p x = false) :
    (front ++ rest).dropWhile p = rest := by
  rw [List.dropWhile_append_of_pos hfront]
  cases rest with
  | nil => rfl
  | cons x rest => simp [hrest x rfl]

/-- A pattern at the beginning of a list does not reach an element that is not in it. -/
theorem prefix_of_prefix_append_cons {α : Type} {pattern front behind : List α} {x : α} (hx : x ∉ pattern)
    (h : pattern <+: front ++ x :: behind) : pattern <+: front := by
  rcases List.prefix_or_prefix_of_prefix h (List.prefix_append front (x :: behind)) with hfront | ⟨more, rfl⟩
  · exact hfront
  · obtain ⟨rest, hrest⟩ := h
    rw [List.append_assoc] at hrest
    rcases more with - | ⟨m, more⟩
    · exact (List.append_nil front).symm ▸ List.prefix_rfl
    · obtain ⟨rfl, -⟩ := List.cons.inj (List.append_cancel_left hrest)
      exact absurd (by simp) hx

/-! ### Related lists -/

/-- Tests that agree on related elements leave related lists. -/
theorem forall₂_filter {α β : Type} {R : α → β → Prop} {p : α → Bool} {q : β → Bool} {xs : List α} {ys : List β}
    (h : List.Forall₂ R xs ys) (hpq : ∀ x y, R x y → q y = p x) : List.Forall₂ R (xs.filter p) (ys.filter q) := by
  refine List.rel_filter ?_ h
  intro x y hxy
  show p x = true ↔ q y = true
  rw [hpq x y hxy]

/-- Lists that are related one by one, behind a test, are related when they are joined. -/
theorem forall₂_filter_flatMap {ι α β : Type} {R : α → β → Prop} {f : ι → List α} {g : ι → List β} {p : β → Bool}
    (is : List ι) (h : ∀ i ∈ is, List.Forall₂ R (f i) ((g i).filter p)) :
    List.Forall₂ R (is.flatMap f) ((is.flatMap g).filter p) := by
  induction is with
  | nil => exact .nil
  | cons i is ih =>
      rw [List.flatMap_cons, List.flatMap_cons, List.filter_append]
      exact List.rel_append (h i List.mem_cons_self) (ih fun j hj => h j (List.mem_cons_of_mem i hj))

/-- The first elements that pass tests which agree on related elements are related. -/
theorem forall₂_find? {α β : Type} {R : α → β → Prop} {p : α → Bool} {q : β → Bool} {xs : List α} {ys : List β}
    (h : List.Forall₂ R xs ys) (hpq : ∀ x y, R x y → q y = p x) : Option.Rel R (xs.find? p) (ys.find? q) := by
  induction h with
  | nil => exact .none
  | @cons x y xs ys hxy _ ih =>
      rw [List.find?_cons, List.find?_cons, hpq x y hxy]
      cases p x with
      | false => exact ih
      | true => exact .some hxy

theorem forall₂_toList {α β : Type} {R : α → β → Prop} {x : Option α} {y : Option β} (h : Option.Rel R x y) :
    List.Forall₂ R x.toList y.toList := by
  cases h with
  | none => exact .nil
  | some hxy => exact .cons hxy .nil

theorem map_eq_of_rel {α β γ : Type} {R : α → β → Prop} {x : Option α} {y : Option β} (h : Option.Rel R x y)
    {f : α → γ} {g : β → γ} (hfg : ∀ a b, R a b → g b = f a) : y.map g = x.map f := by
  cases h with
  | none => rfl
  | some hxy => exact congrArg some (hfg _ _ hxy)

end SourceLint
