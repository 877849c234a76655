import SourceLint.Proofs.Grammar.Faults.Statements
import SourceLint.Proofs.Grammar.Levels.Statements

/-!
# The grammar of unbounded depth

With levels enough for the lexemes ahead of a cursor every production has a result or finds fault with the text,
and more levels do not change it. So there is a grammar without any bound, which is its own next level, and a
grammar of finite depth agrees with it as far as its levels go.

## Main definitions

* `Grammar.unbounded` — each production with as many levels as its lexemes call for.
* `Grammar.confined` — a grammar that has nested productions only where few lexemes are left.

## Main results

* `Grammar.deeper_unbounded` — the unbounded grammar is its own next level.
* `Grammar.expressionBody_confined`, `Grammar.ifBody_confined`, `Grammar.statementsBody_confined` — where the
  productions nest in one another.

## Implementation notes

That a production does not nest at a place is said by taking the nested productions at that place away: the
outcome stays the same.
-/

namespace SourceLint

open Cursor (HasRoom)

namespace Outcome

variable {α : Type} {start : Cursor} {P Q : α → Prop} {x : Outcome α}

/-- There is a result with the property or a fault of the text; no bound is exhausted. -/
def Settles (P : α → Prop) : Outcome α → Prop
  | .ok a => P a
  | .error (.fault _) => True
  | .error .exhausted => False

theorem Answers.settles (h : Answers start P x) : Settles P x := by
  cases x with
  | ok a => exact h
  | error failure =>
      cases failure with
      | fault error => exact trivial
      | exhausted => exact h

theorem Answers.ne_exhausted (h : Answers start P x) : x ≠ .error .exhausted := by
  intro hx
  rw [hx] at h
  exact h

end Outcome

namespace Cursor

/-- A place has the levels that it needs when they are counted from the place itself. -/
theorem hasRoom_self (c : Cursor) (more : Nat) : HasRoom c (2 * c.ahead.length + more) more c :=
  ⟨.refl c, Nat.le_refl _⟩

end Cursor

namespace Grammar

variable {c : Cursor}

/-! ### Unbounded depth -/

/-- The grammar without a bound on nesting: each production has levels enough for the lexemes ahead. -/
def unbounded : Grammar where
  statements scope inSwitch c := (ofDepth (2 * c.ahead.length + 2)).statements scope inSwitch c
  expression trailing c := (ofDepth (2 * c.ahead.length + 1)).expression trailing c
  ifStatement c := (ofDepth (2 * c.ahead.length + 2)).ifStatement c

theorem statements_unbounded (scope : Scope) (inSwitch : Bool) (c : Cursor) :
    unbounded.statements scope inSwitch c =
      (ofDepth (2 * c.ahead.length + 2)).statements scope inSwitch c := by
  rw [unbounded]

theorem expression_unbounded (trailing : Bool) (c : Cursor) :
    unbounded.expression trailing c = (ofDepth (2 * c.ahead.length + 1)).expression trailing c := by
  rw [unbounded]

theorem ifStatement_unbounded (c : Cursor) :
    unbounded.ifStatement c = (ofDepth (2 * c.ahead.length + 2)).ifStatement c := by
  rw [unbounded]

theorem answers_statements (scope : Scope) (inSwitch : Bool) (c : Cursor) :
    (unbounded.statements scope inSwitch c).Answers c fun r => c.Reaches r.2 := by
  rw [statements_unbounded]
  exact (handles_ofDepth c _).statements (c.hasRoom_self 2) scope inSwitch

theorem answers_expression (trailing : Bool) (c : Cursor) :
    (unbounded.expression trailing c).Answers c fun r => c.Reaches r.2 := by
  rw [expression_unbounded]
  exact (handles_ofDepth c _).expression (c.hasRoom_self 1) trailing

/-- Even at the end of the text an `if` statement settles. -/
theorem answers_ifStatement (c : Cursor) :
    (unbounded.ifStatement c).Answers c fun r => c.Reaches r.2 := by
  rw [ifStatement_unbounded]
  exact (handles_ofDepth c _).ifBody_of_advance ((c.hasRoom_self 1).reaches (.advance c))

/-- Where outcomes persist from depth to depth, each of them persists at a depth that is enough. -/
theorem persists_enough {α : Type} (f : Nat → Outcome α)
    (hf : ∀ {depth depth'}, depth ≤ depth' → (f depth).Persists (f depth')) (depth enough : Nat)
    (henough : f enough ≠ .error .exhausted) : (f depth).Persists (f enough) := by
  intro hdepth
  have hfirst := (hf (Nat.le_max_left depth enough)).eq hdepth
  have hsecond := (hf (Nat.le_max_right depth enough)).eq henough
  exact hsecond.symm.trans hfirst

/-- A grammar of some depth has the outcomes of the unbounded one, as far as its levels go. -/
theorem persists_unbounded (depth : Nat) : (ofDepth depth).Persists unbounded where
  statements scope inSwitch c := by
    have henough := (answers_statements scope inSwitch c).ne_exhausted
    rw [statements_unbounded] at henough ⊢
    exact persists_enough (fun depth => (ofDepth depth).statements scope inSwitch c)
      (fun h => (persists_ofDepth h).statements scope inSwitch c) depth _ henough
  expression trailing c := by
    have henough := (answers_expression trailing c).ne_exhausted
    rw [expression_unbounded] at henough ⊢
    exact persists_enough (fun depth => (ofDepth depth).expression trailing c)
      (fun h => (persists_ofDepth h).expression trailing c) depth _ henough
  ifStatement c := by
    have henough := (answers_ifStatement c).ne_exhausted
    rw [ifStatement_unbounded] at henough ⊢
    exact persists_enough (fun depth => (ofDepth depth).ifStatement c)
      (fun h => (persists_ofDepth h).ifStatement c) depth _ henough

/-- The unbounded grammar has room everywhere. -/
theorem handles_unbounded (start : Cursor) (budget : Nat) : unbounded.Handles start budget where
  statements h scope inSwitch := by
    have hdepth := (handles_ofDepth start budget).statements h scope inSwitch
    rwa [((persists_unbounded budget).statements scope inSwitch _).eq hdepth.ne_exhausted]
  expression h trailing := by
    have hdepth := (handles_ofDepth start budget).expression h trailing
    rwa [((persists_unbounded budget).expression trailing _).eq hdepth.ne_exhausted]
  ifStatement h hpeek := by
    have hdepth := (handles_ofDepth start budget).ifStatement h hpeek
    rwa [((persists_unbounded budget).ifStatement _).eq hdepth.ne_exhausted]

theorem statementsBody_unbounded (scope : Scope) (inSwitch : Bool) (c : Cursor) :
    unbounded.statementsBody scope inSwitch c = unbounded.statements scope inSwitch c := by
  have henough := (answers_statements scope inSwitch c).ne_exhausted
  rw [statements_unbounded] at henough ⊢
  exact ((persists_unbounded _).statementsBody scope inSwitch c).eq henough

theorem expressionBody_unbounded (trailing : Bool) (c : Cursor) :
    unbounded.expressionBody trailing c = unbounded.expression trailing c := by
  have henough := (answers_expression trailing c).ne_exhausted
  rw [expression_unbounded] at henough ⊢
  exact ((persists_unbounded _).expressionBody trailing c).eq henough

theorem ifBody_unbounded (c : Cursor) : unbounded.ifBody c = unbounded.ifStatement c := by
  have henough := (answers_ifStatement c).ne_exhausted
  rw [ifStatement_unbounded] at henough ⊢
  exact ((persists_unbounded _).ifBody c).eq henough

/-- The unbounded grammar is its own next level. -/
theorem deeper_unbounded : unbounded.deeper = unbounded := by
  have hstatements : unbounded.statementsBody = unbounded.statements :=
    funext fun scope => funext fun inSwitch => funext (statementsBody_unbounded scope inSwitch)
  have hexpression : unbounded.expressionBody = unbounded.expression :=
    funext fun trailing => funext (expressionBody_unbounded trailing)
  have hif : unbounded.ifBody = unbounded.ifStatement := funext ifBody_unbounded
  rw [deeper, hstatements, hexpression, hif]

/-! ### Where productions nest -/

/-- The grammar whose nested statements have fewer lexemes than `inner` ahead and whose other nested productions
have fewer than `outer`; a nested `if` statement has at least one. -/
def confined (g : Grammar) (inner outer : Nat) : Grammar where
  statements scope inSwitch c :=
    if c.ahead.length < inner then g.statements scope inSwitch c else .error .exhausted
  expression trailing c := if c.ahead.length < outer then g.expression trailing c else .error .exhausted
  ifStatement c :=
    if c.peek?.isSome ∧ c.ahead.length < outer then g.ifStatement c else .error .exhausted

theorem persists_confined (g : Grammar) (inner outer : Nat) : (g.confined inner outer).Persists g where
  statements scope inSwitch c := by
    rw [confined]
    dsimp only
    split
    · exact .refl _
    · exact Outcome.persists_exhausted _
  expression trailing c := by
    rw [confined]
    dsimp only
    split
    · exact .refl _
    · exact Outcome.persists_exhausted _
  ifStatement c := by
    rw [confined]
    dsimp only
    split
    · exact .refl _
    · exact Outcome.persists_exhausted _

/-- Where a budget leaves room, there are few lexemes ahead. -/
theorem Handles.confined {g : Grammar} {start : Cursor} {budget : Nat} (hg : g.Handles start budget)
    (inner outer : Nat) (hinner : budget ≤ 2 * inner + 1) (houter : budget ≤ 2 * outer) :
    (g.confined inner outer).Handles start budget where
  statements {c} h scope inSwitch := by
    have hlength : c.ahead.length < inner := by
      have := h.enough
      omega
    rw [Grammar.confined]
    dsimp only
    rw [if_pos hlength]
    exact hg.statements h scope inSwitch
  expression {c} h trailing := by
    have hlength : c.ahead.length < outer := by
      have := h.enough
      omega
    rw [Grammar.confined]
    dsimp only
    rw [if_pos hlength]
    exact hg.expression h trailing
  ifStatement {c x} h hpeek := by
    have hlength : c.ahead.length < outer := by
      have := h.enough
      omega
    have hsome : c.peek?.isSome = true := Option.isSome_of_mem hpeek
    rw [Grammar.confined]
    dsimp only
    rw [if_pos ⟨hsome, hlength⟩]
    exact hg.ifStatement h hpeek

/-- Statements nest in statements behind at least one lexeme, and what else they nest is not before them. -/
theorem statementsBody_confined (scope : Scope) (inSwitch : Bool) (c : Cursor) :
    (unbounded.confined c.ahead.length (c.ahead.length + 1)).statementsBody scope inSwitch c =
      unbounded.statements scope inSwitch c := by
  have hconfined := (handles_unbounded c (2 * c.ahead.length + 1)).confined c.ahead.length
    (c.ahead.length + 1) (by omega) (by omega)
  have hanswers := hconfined.statementsBody (c.hasRoom_self 1) scope inSwitch
  rw [← statementsBody_unbounded]
  exact (((persists_confined _ _ _).statementsBody scope inSwitch c).eq hanswers.ne_exhausted).symm

/-- All that an expression nests is behind at least one lexeme. -/
theorem expressionBody_confined (trailing : Bool) (c : Cursor) :
    (unbounded.confined c.ahead.length c.ahead.length).expressionBody trailing c =
      unbounded.expression trailing c := by
  have hconfined := (handles_unbounded c (2 * c.ahead.length + 0)).confined c.ahead.length
    c.ahead.length (by omega) (by omega)
  have hanswers := hconfined.expressionBody (c.hasRoom_self 0) trailing
  rw [← expressionBody_unbounded]
  exact (((persists_confined _ _ _).expressionBody trailing c).eq hanswers.ne_exhausted).symm

/-- All that an `if` statement nests is behind at least one lexeme. -/
theorem ifBody_confined {x : Lexeme} (hpeek : c.peek? = some x) :
    (unbounded.confined c.ahead.length c.ahead.length).ifBody c = unbounded.ifStatement c := by
  have hconfined := (handles_unbounded c (2 * c.ahead.length + 0)).confined c.ahead.length
    c.ahead.length (by omega) (by omega)
  have hanswers := hconfined.ifBody (c.hasRoom_self 0) hpeek
  rw [← ifBody_unbounded]
  exact (((persists_confined _ _ _).ifBody c).eq hanswers.ne_exhausted).symm

end Grammar

end SourceLint
