import SourceLint.Proofs.Basic
import SourceLint.Text.Occurrence

/-!
# Where a piece occurs in a text

A piece whose first character does not come again in it cannot overlap itself. Its occurrences are then found one
after the other: nothing before the next one is in the way of finding it, and the search goes on behind it. A pattern
without a certain element stands on one side of that element, so it is nowhere in a text put together from parts
without it that such elements keep apart.
-/

namespace SourceLint

section Patterns

variable {α : Type} {pattern front behind : List α}

/-- A pattern that does not have an element is on one side of it. -/
theorem infix_append_cons_iff {x : α} (hx : x ∉ pattern) :
    pattern <:+: front ++ x :: behind ↔ pattern <:+: front ∨ pattern <:+: behind := by
  constructor
  · intro h
    induction front with
    | nil =>
        rcases List.infix_cons_iff.1 h with h | h
        · exact .inl (prefix_of_prefix_append_cons hx h).isInfix
        · exact .inr h
    | cons y front ih =>
        rcases List.infix_cons_iff.1 h with h | h
        · exact .inl (prefix_of_prefix_append_cons hx h).isInfix
        · exact (ih h).imp_left List.infix_cons
  · rintro (h | h)
    · exact h.trans (List.prefix_append front _).isInfix
    · exact (List.infix_cons h).trans (List.suffix_append front _).isInfix

/-- A pattern is not among elements none of which it has. -/
theorem infix_append_iff (hne : pattern ≠ []) (hfront : ∀ x ∈ front, x ∉ pattern) :
    pattern <:+: front ++ behind ↔ pattern <:+: behind := by
  induction front with
  | nil => rw [List.nil_append]
  | cons x front ih =>
      have hcut := @infix_append_cons_iff α pattern [] (front ++ behind) x (hfront x List.mem_cons_self)
      rw [List.nil_append, List.infix_nil] at hcut
      rw [List.cons_append, hcut, ih fun y hy => hfront y (List.mem_cons_of_mem x hy)]
      exact or_iff_right hne

/-- A pattern does not reach across the beginning of a part that begins with no element of it. -/
theorem not_infix_append (hfront : ¬pattern <:+: front) (hbehind : ¬pattern <:+: behind)
    (hhead : ∀ x ∈ behind.head?, x ∉ pattern) : ¬pattern <:+: front ++ behind := by
  cases behind with
  | nil => rwa [List.append_nil]
  | cons x behind =>
      rw [infix_append_cons_iff (hhead x rfl)]
      rintro (h | h)
      · exact hfront h
      · exact hbehind (List.infix_cons h)

/-- What holds of the first elements of two parts holds of the first element of both together. -/
theorem forall_head?_append {p : α → Prop} (hfront : ∀ x ∈ front.head?, p x) (hbehind : ∀ x ∈ behind.head?, p x) :
    ∀ x ∈ (front ++ behind).head?, p x := by
  cases front with
  | nil => exact hbehind
  | cons x front => exact hfront

theorem forall_head?_append_of_ne_nil {p : α → Prop} (hne : front ≠ []) (hfront : ∀ x ∈ front, p x) :
    ∀ x ∈ (front ++ behind).head?, p x := by
  cases front with
  | nil => exact absurd rfl hne
  | cons x front =>
      intro y hy
      obtain rfl := Option.some.inj hy
      exact hfront x List.mem_cons_self

end Patterns

section Pieces

variable {c : Char} {piece front next : List Char}

/-- A piece that is not in a text does not begin there either when what comes next begins like the piece. -/
theorem not_prefix_append (hc : c ∉ piece) {d : Char} (hnone : ¬c :: piece <:+: d :: front)
    (hnext : ∀ x ∈ next.head?, x = c) : ¬c :: piece <+: d :: (front ++ next) := by
  intro h
  obtain ⟨rfl, hrest⟩ := List.cons_prefix_cons.1 h
  refine hnone (List.cons_prefix_cons.2 ⟨rfl, ?_⟩).isInfix
  cases next with
  | nil => rwa [List.append_nil] at hrest
  | cons x next =>
      obtain rfl := hnext x rfl
      exact prefix_of_prefix_append_cons hc hrest

theorem beforeFirst_append (hc : c ∉ piece) (hnone : ¬c :: piece <:+: front)
    (hnext : next = [] ∨ c :: piece <+: next) : beforeFirst (c :: piece) (front ++ next) = front := by
  have hhead : ∀ x ∈ next.head?, x = c := by
    rcases hnext with rfl | ⟨more, rfl⟩
    · simp
    · simp
  induction front with
  | nil =>
      rcases hnext with rfl | hprefix
      · rfl
      · cases next with
        | nil => rfl
        | cons x next => rw [List.nil_append, beforeFirst, if_pos (List.isPrefixOf_iff_prefix.2 hprefix)]
  | cons d front ih =>
      have hlater : ¬c :: piece <:+: front := fun h => hnone (List.infix_cons h)
      have hhere := not_prefix_append hc hnone hhead
      rw [← List.isPrefixOf_iff_prefix] at hhere
      rw [List.cons_append, beforeFirst, if_neg hhere, ih hlater]

/-- What comes before the first occurrence only counts by its length. -/
theorem occurrencesFrom_append (hc : c ∉ piece) (hnone : ¬c :: piece <:+: front)
    (hnext : ∀ x ∈ next.head?, x = c) (offset : Nat) :
    occurrencesFrom (c :: piece) offset 0 (front ++ next) =
      occurrencesFrom (c :: piece) (offset + byteLength front) 0 next := by
  induction front generalizing offset with
  | nil => rfl
  | cons d front ih =>
      have hlater : ¬c :: piece <:+: front := fun h => hnone (List.infix_cons h)
      have hhere := not_prefix_append hc hnone hnext
      rw [← List.isPrefixOf_iff_prefix] at hhere
      rw [List.cons_append, occurrencesFrom, if_neg (by simp), if_neg hhere, ih hlater, byteLength_cons,
        Nat.add_assoc]

theorem occurrencesFrom_skip (piece : List Char) (offset : Nat) (found rest : List Char) :
    occurrencesFrom piece offset found.length (found ++ rest) =
      occurrencesFrom piece (offset + byteLength found) 0 rest := by
  induction found generalizing offset with
  | nil => rfl
  | cons d found ih =>
      rw [List.cons_append, List.length_cons, occurrencesFrom, if_pos (Nat.succ_ne_zero _), Nat.add_sub_cancel, ih,
        byteLength_cons, Nat.add_assoc]

/-- An occurrence at the beginning is found, and the search goes on behind it. -/
theorem occurrencesFrom_piece (c : Char) (piece : List Char) (offset : Nat) (rest : List Char) :
    occurrencesFrom (c :: piece) offset 0 (c :: piece ++ rest) =
      offset :: occurrencesFrom (c :: piece) (offset + byteLength (c :: piece)) 0 rest := by
  have hhere : (c :: piece).isPrefixOf (c :: (piece ++ rest)) = true :=
    List.isPrefixOf_iff_prefix.2 (List.prefix_append (c :: piece) rest)
  rw [List.cons_append, occurrencesFrom, if_neg (by simp), if_pos hhere, List.length_cons, Nat.add_sub_cancel,
    occurrencesFrom_skip, byteLength_cons, Nat.add_assoc]

end Pieces

end SourceLint
