import SourceLint.Grammar.Statement

/-!
# Levels of nesting

A production is read with so many levels of nesting below it. With more levels it has the outcome that it had
before, unless the levels before were exhausted.

## Main definitions

* `Outcome.Persists` — an outcome stays what it is when there is more room.
* `Grammar.Persists` — every production of a grammar has such outcomes.
-/

namespace SourceLint

namespace Outcome

variable {α β : Type} {x y : Outcome α}

/-- The second outcome is the first one, unless the first one has exhausted a bound. -/
def Persists (x y : Outcome α) : Prop := x ≠ .error .exhausted → y = x

theorem Persists.refl (x : Outcome α) : Persists x x := fun _ => rfl

theorem persists_exhausted (y : Outcome α) : Persists (.error .exhausted) y := fun h => absurd rfl h

/-- Two outcomes that do not exhaust their bounds are the same when one of them persists. -/
theorem Persists.eq (h : Persists x y) (hx : x ≠ .error .exhausted) : y = x := h hx

theorem Persists.bind {f f' : α → Outcome β} (h : Persists x y) (hf : ∀ a, Persists (f a) (f' a)) :
    Persists (x >>= f) (y >>= f') := by
  cases x with
  | ok a =>
      rw [h (by simp)]
      exact hf a
  | error failure =>
      cases failure with
      | fault error =>
          rw [h (by simp)]
          exact .refl _
      | exhausted => exact persists_exhausted _

theorem Persists.ite {p : Prop} [Decidable p] {x' y' : Outcome α} (hx : Persists x x') (hy : Persists y y') :
    Persists (if p then x else y) (if p then x' else y') := by
  split
  · exact hx
  · exact hy

end Outcome

/-! ### Repetition -/

section Rounds

variable {σ β : Type} {round round' : σ → Cursor → Outcome (Round σ β × Cursor)}

/-- A repetition is its first round and what comes behind it. -/
theorem boundedRounds_eq_bind (round : σ → Cursor → Outcome (Round σ β × Cursor)) (bound : List Lexeme)
    (state : σ) (c : Cursor) :
    boundedRounds round bound state c = (do
      match ← round state c with
      | (.done result, later) => .ok (result, later)
      | (.again state, later) =>
        match bound with
        | [] => .error .exhausted
        | _ :: bound => boundedRounds round bound state later) := by
  rw [boundedRounds.eq_def]
  cases round state c with
  | error failure => rfl
  | ok r =>
      obtain ⟨state' | result, later⟩ := r
      · rfl
      · rfl

theorem persists_boundedRounds {bound bound' : List Lexeme} (hbound : bound.length ≤ bound'.length)
    (hround : ∀ state c, (round state c).Persists (round' state c)) (state : σ) (c : Cursor) :
    (boundedRounds round bound state c).Persists (boundedRounds round' bound' state c) := by
  induction bound generalizing bound' state c with
  | nil =>
      rw [boundedRounds_eq_bind round, boundedRounds_eq_bind round']
      refine (hround state c).bind ?_
      rintro ⟨state' | result, later⟩
      · exact Outcome.persists_exhausted _
      · exact .refl _
  | cons lexeme bound ih =>
      cases bound' with
      | nil => exact absurd hbound (Nat.not_succ_le_zero _)
      | cons lexeme' bound' =>
          rw [boundedRounds_eq_bind round, boundedRounds_eq_bind round']
          refine (hround state c).bind ?_
          rintro ⟨state' | result, later⟩
          · exact ih (Nat.le_of_succ_le_succ hbound) state' later
          · exact .refl _

theorem persists_repeatRounds (hround : ∀ state c, (round state c).Persists (round' state c)) (state : σ)
    (c : Cursor) : (repeatRounds round state c).Persists (repeatRounds round' state c) :=
  persists_boundedRounds (Nat.le_refl _) hround state c

end Rounds

/-- The second grammar has the outcomes of the first one, wherever that one has levels enough. -/
structure Grammar.Persists (g g' : Grammar) : Prop where
  statements : ∀ scope inSwitch c, (g.statements scope inSwitch c).Persists (g'.statements scope inSwitch c)
  expression : ∀ trailing c, (g.expression trailing c).Persists (g'.expression trailing c)
  ifStatement : ∀ c, (g.ifStatement c).Persists (g'.ifStatement c)

end SourceLint
