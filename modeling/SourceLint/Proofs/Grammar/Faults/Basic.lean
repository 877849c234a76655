import SourceLint.Proofs.Grammar.Skipping

/-!
# Results and faults of productions

A production has a result or finds fault with the text; its bounds on nesting and on repetition are never
exhausted. What it finds fault with is a lexeme ahead or the end of the text.

## Main definitions

* `SyntaxError.PointsAhead` — what the error of a production is about.
* `Outcome.Answers` — a result with a property, or such an error.
* `Round.Advances` — a round that another one follows takes a lexeme.
* `Cursor.HasRoom` — the levels of nesting suffice for the lexemes that are left.

## Implementation notes

The lexemes that errors may be about are those ahead of one cursor, the start of the text, and every other cursor
is reached from there. So a lexeme that a production keeps for a later error, such as the opening delimiter of a
group, stays one of them.
-/

namespace SourceLint

/-- The error is about a lexeme ahead of the cursor or about the end of the text: a lexeme that has no place there,
whose text it has, a delimiter that is not closed, whose character it has, or something that is missing before a
lexeme or at the end. -/
def SyntaxError.PointsAhead (start : Cursor) : SyntaxError → Prop
  | .unclosed delimiter offset =>
    ∃ x ∈ start.ahead, delimiter = x.text.toList.headD '\x7b' ∧ offset = x.start
  | .unexpected found offset => ∃ x ∈ start.ahead, found = x.text ∧ offset = x.start
  | .expected _ offset => (∃ x ∈ start.ahead, offset = x.start) ∨ offset = start.sourceStop
  | .unterminatedString _ | .unterminatedComment _ | .malformed _ => False

namespace Outcome

variable {α β : Type} {start : Cursor} {P Q : α → Prop}

/-- There is a result with the property, or an error that is about what is ahead of the cursor. -/
def Answers (start : Cursor) (P : α → Prop) : Outcome α → Prop
  | .ok a => P a
  | .error (.fault error) => error.PointsAhead start
  | .error .exhausted => False

theorem Answers.mono {x : Outcome α} (h : Answers start P x) (himp : ∀ a, P a → Q a) :
    Answers start Q x := by
  cases x with
  | ok a => exact himp a h
  | error failure =>
      cases failure with
      | fault error => exact h
      | exhausted => exact h

theorem Answers.bind {x : Outcome α} {f : α → Outcome β} {R : β → Prop} (h : Answers start P x)
    (hf : ∀ a, P a → Answers start R (f a)) : Answers start R (x >>= f) := by
  cases x with
  | ok a => exact hf a h
  | error failure =>
      cases failure with
      | fault error => exact h
      | exhausted => exact h.elim

/-- What is known of a result holds of it here too. -/
theorem Answers.meets {x : Outcome α} (h : Answers start P x) (hx : Meets Q x) : Answers start Q x := by
  cases x with
  | ok a => exact hx
  | error failure =>
      cases failure with
      | fault error => exact h
      | exhausted => exact h

theorem answers_unexpected {lexeme : Lexeme} (h : lexeme ∈ start.ahead) :
    Answers start P (unexpected lexeme) := ⟨lexeme, h, rfl, rfl⟩

theorem answers_unclosed {opener : Lexeme} (h : opener ∈ start.ahead) :
    Answers start P (unclosed opener) := ⟨opener, h, rfl, rfl⟩

end Outcome

namespace Cursor

variable {start c later : Cursor} {budget more less : Nat} {x : Lexeme}

theorem Reaches.mem_of_peek? (h : start.Reaches c) (hpeek : c.peek? = some x) : x ∈ start.ahead := by
  obtain ⟨ahead, hahead⟩ := peek?_eq_some_iff.1 hpeek
  exact h.mem_of_mem_ahead (by rw [hahead]; exact List.mem_cons_self)

/-- The next lexeme has been passed also when it has been taken behind a stall. -/
theorem Reaches.passes_unstalled (h : c.Reaches later) (hpeek : c.peek? = some x) :
    c.Passes (if c.hasStalled later then later.advance else later) := by
  cases hstalled : c.hasStalled later with
  | false => exact h.passes hstalled
  | true =>
      obtain ⟨ahead, hahead⟩ := peek?_eq_some_iff.1 hpeek
      have hlength : c.ahead.length = later.ahead.length := eq_of_beq hstalled
      have hlater : later.ahead ≠ [] := by
        intro hnil
        rw [hnil, hahead] at hlength
        cases hlength
      obtain ⟨y, ys, hy⟩ := List.exists_cons_of_ne_nil hlater
      exact .of_reaches h (.advance (peek?_eq_some_iff.2 ⟨ys, hy⟩))

/-- The cursor is reached from the start, and as many levels of nesting are left as two for each lexeme ahead and
some more. -/
structure HasRoom (start : Cursor) (budget more : Nat) (c : Cursor) : Prop where
  reached : start.Reaches c
  enough : 2 * c.ahead.length + more ≤ budget

namespace HasRoom

variable (h : HasRoom start budget more c)

include h

theorem weaken (hle : less ≤ more) : HasRoom start budget less c :=
  ⟨h.reached, Nat.le_trans (Nat.add_le_add_left hle _) h.enough⟩

theorem reaches (hlater : c.Reaches later) : HasRoom start budget more later := by
  have hle := hlater.length_le
  have henough := h.enough
  exact ⟨h.reached.trans hlater, by omega⟩

/-- Behind a lexeme there is room for statements. -/
theorem passes (hlater : c.Passes later) : HasRoom start budget 2 later := by
  have hlt := hlater.2
  have henough := h.enough
  exact ⟨h.reached.trans hlater.1, by omega⟩

/-- Behind the next lexeme there is room for an expression. -/
theorem inside (hpeek : c.peek? = some x) : HasRoom start budget 1 c.advance :=
  (h.passes (.advance hpeek)).weaken (Nat.le_succ 1)

end HasRoom

/-- One level of nesting is used up at a place. -/
theorem HasRoom.deeper (h : HasRoom start (budget + 1) (more + 1) c) : HasRoom start budget more c :=
  ⟨h.reached, Nat.le_of_succ_le_succ h.enough⟩

end Cursor

namespace Outcome

variable {α : Type} {start c : Cursor} {P : α → Prop}

theorem answers_expected (h : start.Reaches c) (what : Expectation) :
    Answers start P (expected c what) := by
  cases hahead : c.ahead with
  | nil =>
      have hhere : c.here = c.sourceStop := by simp [Cursor.here, Cursor.peek?, hahead]
      exact .inr (hhere.trans h.sourceStop_eq)
  | cons x ahead =>
      have hpeek : c.peek? = some x := Cursor.peek?_eq_some_iff.2 ⟨ahead, hahead⟩
      exact .inl ⟨x, h.mem_of_peek? hpeek, Cursor.here_of_peek? hpeek⟩

end Outcome

/-! ### Repetition -/

/-- A round that is done moves ahead or stays, and a round that another one follows takes a lexeme. -/
def Round.Advances {σ β : Type} (c : Cursor) : Round σ β × Cursor → Prop
  | (.again _, later) => c.Passes later
  | (.done _, later) => c.Reaches later

section Rounds

variable {σ β : Type} {start c : Cursor} {round : σ → Cursor → Outcome (Round σ β × Cursor)}

/-- When rounds advance, a round for each lexeme ahead and one more are enough. -/
theorem answers_boundedRounds {first : Cursor}
    (hround : ∀ state middle, first.Reaches middle →
      (round state middle).Answers start (Round.Advances middle))
    (bound : List Lexeme) {state : σ} (hc : first.Reaches c) (hbound : c.ahead.length ≤ bound.length) :
    (boundedRounds round bound state c).Answers start fun r => first.Reaches r.2 := by
  fun_induction boundedRounds round bound state c with
  | case1 bound state c failure hfailure =>
      have hstep := hround state c hc
      rw [hfailure] at hstep
      cases failure with
      | fault error => exact hstep
      | exhausted => exact hstep
  | case2 bound state c result later hdone =>
      have hstep := hround state c hc
      rw [hdone] at hstep
      exact hc.trans hstep
  | case3 state c state' later hagain =>
      have hstep := hround state c hc
      rw [hagain] at hstep
      exact absurd (Nat.lt_of_lt_of_le hstep.2 hbound) (Nat.not_lt_zero _)
  | case4 state c state' later hagain lexeme bound ih =>
      have hstep := hround state c hc
      rw [hagain] at hstep
      exact ih (hc.trans hstep.1) (Nat.le_of_lt_succ (Nat.lt_of_lt_of_le hstep.2 hbound))

theorem answers_repeatRounds
    (hround : ∀ state middle, c.Reaches middle →
      (round state middle).Answers start (Round.Advances middle)) (state : σ) :
    (repeatRounds round state c).Answers start fun r => c.Reaches r.2 :=
  answers_boundedRounds hround c.ahead (.refl c) (Nat.le_refl _)

end Rounds

end SourceLint
