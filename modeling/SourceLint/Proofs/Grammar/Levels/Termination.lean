import SourceLint.Proofs.Grammar.Embedding.Groups
import SourceLint.Proofs.Grammar.Expressions
import SourceLint.Proofs.Grammar.Levels.Unbounded

/-!
# Every list of lexemes is read to an end

Whatever the lexemes are, reading them as a file has a result or finds fault with them. Productions go ahead and
never behind the last lexeme, a round of a repetition that another round follows takes a lexeme, and the
productions nest in one another behind a lexeme, but for the expression and the `if` statement with which
statements begin. So two levels of nesting for each lexeme and two more are enough, and no more levels change
anything.

## Main definitions

* `Grammar.MovesAhead`, `Grammar.RoundsAdvance`, `Grammar.NestsBehind` — what keeps reading from going on forever.
* `Cursor.JumpsInRange` — what is looked up or jumped over at a place is there.

## Main result

* `Grammar.file_settles`
-/

namespace SourceLint

open Cursor (HasRoom)

/-! ### Positions -/

/-- Any lexeme may stand before a cursor. -/
theorem Cursor.exists_reaches (c : Cursor) (opener : Lexeme) :
    ∃ start : Cursor, opener ∈ start.ahead ∧ start.Reaches c := by
  -- a second lexeme ends where the last one behind the cursor does
  let last : Lexeme := { opener with start := c.lastStop, text := "" }
  have hlast : last.stop = c.lastStop := Nat.add_zero _
  refine ⟨⟨opener :: last :: c.ahead, 0, c.sourceStop⟩, List.mem_cons_self, 2, ?_⟩
  show c = ⟨c.ahead, last.stop, c.sourceStop⟩
  rw [hlast]

/-- What is looked up at a place or jumped over there is among the lexemes ahead. -/
structure Cursor.JumpsInRange (c : Cursor) : Prop where
  lookahead : ∀ n test, (c.peekAt? n).any test = true → n < c.ahead.length
  signature : ∀ n, Grammar.signatureLength? c.ahead = some n → n < c.ahead.length
  group : ∀ depth n, Grammar.groupLength? depth c.ahead = some n → n ≤ c.ahead.length
  operandPrefix : Grammar.operandPrefixLength c.ahead ≤ c.ahead.length
  typeName : Grammar.typeNameLength c.ahead ≤ c.ahead.length

theorem operandPrefixLength_le (lexemes : List Lexeme) :
    Grammar.operandPrefixLength lexemes ≤ lexemes.length := by
  fun_induction Grammar.operandPrefixLength lexemes with
  | case1 => exact Nat.le_refl _
  | case2 => exact Nat.le_refl _
  | case3 x htry mark others hmark ih => exact Nat.succ_le_succ (Nat.succ_le_succ ih)
  | case4 x htry mark others hmark ih => exact Nat.succ_le_succ ih
  | case5 x lexemes htry hoperator ih => exact Nat.succ_le_succ ih
  | case6 => exact Nat.zero_le _

theorem typeNameLength_le (lexemes : List Lexeme) : Grammar.typeNameLength lexemes ≤ lexemes.length := by
  fun_induction Grammar.typeNameLength lexemes with
  | case1 => exact Nat.le_refl _
  | case2 x hname point others hpoint ih => exact Nat.succ_le_succ (Nat.succ_le_succ ih)
  | case3 => exact Nat.succ_le_succ (Nat.zero_le _)
  | case4 => exact Nat.succ_le_succ (Nat.zero_le _)
  | case5 => exact Nat.zero_le _

/-- At every place what is looked up or jumped over is there. -/
theorem Cursor.jumpsInRange (c : Cursor) : c.JumpsInRange where
  lookahead n test h := by
    obtain ⟨x, hx, -⟩ := (Option.any_eq_true _ _).1 h
    exact (List.getElem?_eq_some_iff.1 hx).1
  signature _ h := Grammar.lt_of_signatureLength? h
  group _ _ h := Embedding.le_of_groupLength? h
  operandPrefix := operandPrefixLength_le c.ahead
  typeName := typeNameLength_le c.ahead

namespace Grammar

/-! ### What keeps reading from going on forever -/

variable {g : Grammar} {opener : Lexeme}

/-- The productions settle, and with their results the cursor has moved ahead among the lexemes. A closure and a
block have taken at least one of them. -/
structure MovesAhead (g : Grammar) : Prop where
  statements : ∀ scope inSwitch c, (g.statements scope inSwitch c).Settles fun r => c.Reaches r.2
  statement : ∀ scope c, (g.statement scope c).Settles fun r => c.Reaches r.2
  block : ∀ c, (g.block c).Settles fun r => c.Passes r.2
  ifStatement : ∀ c, (g.ifStatement c).Settles fun r => c.Reaches r.2
  expression : ∀ trailing c, (g.expression trailing c).Settles fun r => c.Reaches r.2
  operand : ∀ trailing c, (g.operand trailing c).Settles fun r => c.Reaches r.2
  primary : ∀ c, (g.primary c).Settles fun r => c.Reaches r.2
  arguments : ∀ opener closing c, (g.arguments opener closing c).Settles fun r => c.Reaches r.2
  collection : ∀ opener c, (g.collection opener c).Settles fun r => c.Reaches r.2
  closure : ∀ c, (g.closure c).Settles fun r => c.Passes r.2

/-- Each round of each repetition settles; it moves ahead, and takes a lexeme if another round follows. -/
structure RoundsAdvance (g : Grammar) : Prop where
  statementRound : ∀ scope inSwitch nodes c,
    (g.statementRound scope inSwitch nodes c).Settles (Round.Advances c)
  caseRound : ∀ nodes c, (g.caseRound nodes c).Settles (Round.Advances c)
  catchRound : ∀ nodes c, (g.catchRound nodes c).Settles (Round.Advances c)
  conditionRound : ∀ state c, (g.conditionRound state c).Settles (Round.Advances c)
  modifierRound : ∀ attributes c, (Grammar.modifierRound attributes c).Settles (Round.Advances c)
  variableRound : ∀ scope attributes state c,
    (g.variableRound scope attributes state c).Settles (Round.Advances c)
  parameterRound : ∀ opener nodes c, (g.parameterRound opener nodes c).Settles (Round.Advances c)
  inheritanceRound : ∀ state c, (Grammar.inheritanceRound state c).Settles (Round.Advances c)
  typeRound : ∀ expectsMore c, (Cursor.typeRound expectsMore c).Settles (Round.Advances c)
  operandRound : ∀ trailing state c, (g.operandRound trailing state c).Settles (Round.Advances c)
  castRound : ∀ state c, (Grammar.castRound state c).Settles (Round.Advances c)
  suffixRound : ∀ trailing first state c,
    (g.suffixRound trailing first state c).Settles (Round.Advances c)
  argumentRound : ∀ opener closing nodes c,
    (g.argumentRound opener closing nodes c).Settles (Round.Advances c)
  itemRound : ∀ opener state c, (g.itemRound opener state c).Settles (Round.Advances c)
  captureRound : ∀ opener nodes c, (g.captureRound opener nodes c).Settles (Round.Advances c)

/-- The productions are the same without what they nest too early: statements nest other statements behind a lexeme
and the rest not before their start; expressions and `if` statements nest everything behind a lexeme. -/
structure NestsBehind (g : Grammar) : Prop where
  statements : ∀ scope inSwitch c,
    (g.confined c.ahead.length (c.ahead.length + 1)).statementsBody scope inSwitch c =
      g.statements scope inSwitch c
  expression : ∀ trailing c,
    (g.confined c.ahead.length c.ahead.length).expressionBody trailing c = g.expression trailing c
  ifStatement : ∀ c x, c.peek? = some x →
    (g.confined c.ahead.length c.ahead.length).ifBody c = g.ifStatement c

/-- Every cursor is a place with room, at any time after an opening delimiter. -/
theorem exists_hasRoom (opener : Lexeme) (c : Cursor) (more : Nat) :
    ∃ start budget, opener ∈ start.ahead ∧ HasRoom start budget more c := by
  obtain ⟨start, hopener, hreaches⟩ := c.exists_reaches opener
  exact ⟨start, 2 * c.ahead.length + more, hopener, hreaches, Nat.le_refl _⟩

theorem movesAhead_unbounded : unbounded.MovesAhead where
  statements scope inSwitch c := (answers_statements scope inSwitch c).settles
  statement scope c := ((handles_unbounded c _).statement (c.hasRoom_self 1) scope).settles
  block c := ((handles_unbounded c _).block (c.hasRoom_self 1)).settles
  ifStatement c := (answers_ifStatement c).settles
  expression trailing c := (answers_expression trailing c).settles
  operand trailing c := ((handles_unbounded c _).operand (c.hasRoom_self 1) trailing).settles
  primary c := ((handles_unbounded c _).primary (c.hasRoom_self 1)).settles
  arguments opener closing c := by
    obtain ⟨start, budget, hopener, hroom⟩ := exists_hasRoom opener c 1
    exact ((handles_unbounded start budget).arguments hroom hopener closing).settles
  collection opener c := by
    obtain ⟨start, budget, hopener, hroom⟩ := exists_hasRoom opener c 1
    exact ((handles_unbounded start budget).collection hroom hopener).settles
  closure c := ((handles_unbounded c _).closure (c.hasRoom_self 1)).settles

theorem roundsAdvance_unbounded : unbounded.RoundsAdvance where
  statementRound scope inSwitch nodes c :=
    ((handles_unbounded c _).statementRound (c.hasRoom_self 1) scope inSwitch nodes).settles
  caseRound nodes c := ((handles_unbounded c _).caseRound (c.hasRoom_self 1) nodes).settles
  catchRound nodes c := ((handles_unbounded c _).catchRound (c.hasRoom_self 1) nodes).settles
  conditionRound state c := ((handles_unbounded c _).conditionRound (c.hasRoom_self 1) state).settles
  modifierRound attributes c := (answers_modifierRound (.refl c) attributes).settles
  variableRound scope attributes state c :=
    ((handles_unbounded c _).variableRound (c.hasRoom_self 1) scope attributes state).settles
  parameterRound opener nodes c := by
    obtain ⟨start, budget, hopener, hroom⟩ := exists_hasRoom opener c 1
    exact ((handles_unbounded start budget).parameterRound hroom hopener nodes).settles
  inheritanceRound state c := (answers_inheritanceRound (.refl c) state).settles
  typeRound expectsMore c := (Cursor.answers_typeRound (.refl c) expectsMore).settles
  operandRound trailing state c :=
    ((handles_unbounded c _).operandRound (c.hasRoom_self 1) trailing state).settles
  castRound state c := (answers_castRound (.refl c) state).settles
  suffixRound trailing first state c :=
    ((handles_unbounded c _).suffixRound (c.hasRoom_self 1) trailing first state).settles
  argumentRound opener closing nodes c := by
    obtain ⟨start, budget, hopener, hroom⟩ := exists_hasRoom opener c 1
    exact ((handles_unbounded start budget).argumentRound hroom hopener closing nodes).settles
  itemRound opener state c := by
    obtain ⟨start, budget, hopener, hroom⟩ := exists_hasRoom opener c 1
    exact ((handles_unbounded start budget).itemRound hroom hopener state).settles
  captureRound opener nodes c := by
    obtain ⟨start, budget, hopener, hroom⟩ := exists_hasRoom opener c 1
    exact ((handles_unbounded start budget).captureRound hroom hopener nodes).settles

theorem nestsBehind_unbounded : unbounded.NestsBehind where
  statements := statementsBody_confined
  expression := expressionBody_confined
  ifStatement _ _ hpeek := ifBody_confined hpeek

/-! ### Whole files -/

/-- The forest that a grammar reads from the significant lexemes of a text. -/
def fileWith (g : Grammar) (lexemes : List Lexeme) (sourceStop : Nat) : Outcome (List Node) := do
  let start : Cursor := ⟨lexemes, 0, sourceStop⟩
  let (nodes, c) ← g.statements .topLevel false start
  match c.peek? with
  | some stray => .unexpected stray
  | none => return nodes

theorem Persists.fileWith {g' : Grammar} (hg : g.Persists g') (lexemes : List Lexeme) (sourceStop : Nat) :
    (g.fileWith lexemes sourceStop).Persists (g'.fileWith lexemes sourceStop) :=
  (hg.statements .topLevel false _).bind fun _ => .refl _

theorem file_eq_fileWith (lexemes : List Lexeme) (sourceStop : Nat) :
    file lexemes sourceStop = (ofDepth (depthBound lexemes.length)).fileWith lexemes sourceStop := rfl

/-- No bound on nesting has an effect on what is read. -/
theorem fileWith_unbounded (lexemes : List Lexeme) (sourceStop : Nat) :
    unbounded.fileWith lexemes sourceStop = file lexemes sourceStop := by
  have henough := (answers_file lexemes sourceStop).ne_exhausted
  rw [file_eq_fileWith] at henough ⊢
  exact ((persists_unbounded _).fileWith lexemes sourceStop).eq henough

/-- More levels of nesting than two for each lexeme and two have no effect on what is read. -/
theorem fileWith_ofDepth {lexemes : List Lexeme} {depth : Nat} (hdepth : depthBound lexemes.length ≤ depth)
    (sourceStop : Nat) : (ofDepth depth).fileWith lexemes sourceStop = file lexemes sourceStop := by
  have henough := (answers_file lexemes sourceStop).ne_exhausted
  rw [file_eq_fileWith] at henough ⊢
  exact ((persists_ofDepth hdepth).fileWith lexemes sourceStop).eq henough

/-- Reading any list of lexemes has a result or finds fault with them. The bound on nesting, two levels for each
lexeme and two more, is never exhausted: more levels have the same outcome, which is the one of the grammar without
a bound. In that grammar the productions move ahead, the rounds of repetitions take lexemes, what is nested is
behind, and what is looked up is there. -/
theorem file_settles (lexemes : List Lexeme) (sourceStop : Nat) :
    (file lexemes sourceStop).Settles (fun _ => True) ∧
      (∀ depth, 2 * lexemes.length + 2 ≤ depth →
        (ofDepth depth).fileWith lexemes sourceStop = file lexemes sourceStop) ∧
      unbounded.fileWith lexemes sourceStop = file lexemes sourceStop ∧
      unbounded.deeper = unbounded ∧
      unbounded.MovesAhead ∧ unbounded.RoundsAdvance ∧ unbounded.NestsBehind ∧
      (∀ c later : Cursor, c.Reaches later ↔ ∃ n ≤ c.ahead.length, later = c.advanceBy n) ∧
      ∀ c : Cursor, c.JumpsInRange := by
  refine ⟨(answers_file lexemes sourceStop).settles, ?_, fileWith_unbounded lexemes sourceStop,
    deeper_unbounded, movesAhead_unbounded, roundsAdvance_unbounded, nestsBehind_unbounded,
    fun _ _ => Cursor.reaches_iff, Cursor.jumpsInRange⟩
  intro depth hdepth
  exact fileWith_ofDepth hdepth sourceStop

end Grammar

end SourceLint
