import SourceLint.Proofs.Grammar.Abreast.Skipping
import SourceLint.Proofs.Syntax.Outline

/-!
# Groups of expressions side by side

`Follows` is what is assumed of two grammars with a bound on the nesting: each production of the second
one follows that of the first one. From it, groups of arguments and collection literals that are read
from two cursors that are abreast have the same outline.

## Implementation notes

An operator that stands alone behind an operand, such as a mark, is no expression. It may stand
right before a semicolon that goes, and then one reading takes it as a prefix of the missing operand
and the other one does not. Where an expression may stand, the caller takes the lexeme if nothing
has been read, and both readings are abreast again; `Lone` is about that place.

The bound on the nesting counts lexemes, so what is required of it is stated with the number of lexemes
ahead of the second cursor.
-/

namespace SourceLint.Grammar

open Node (SameOutline)

variable {gone : Lexeme → Bool} {levels : Nat} {before : List Lexeme} {c c' : Cursor}
    {x y : Lexeme}

/-! ### Readings that follow one another -/

/-- Both readings have related results and end at cursors that are abreast. -/
def Along {α α' : Type} (gone : Lexeme → Bool) (levels : Nat) (c c' : Cursor) (A : α → α' → Prop)
    (r : α × Cursor) (r' : α' × Cursor) : Prop :=
  A r.1 r'.1 ∧ Onward gone levels c c' r.2 r'.2

/-- The expressions have the same outline, and both are present or none is. -/
structure SameExpression (e e' : ExpressionNodes) : Prop where
  nodes : SameOutline e.nodes e'.nodes
  isPresent : e'.isPresent = e.isPresent

/-- The next lexeme is an operator behind an operand, with a semicolon that goes or a comma behind
it. -/
def Lone (gone : Lexeme → Bool) (before : List Lexeme) (c : Cursor) : Prop :=
  c.next Lexeme.isOperator = true ∧ before.head?.any endsOperand = true ∧
    c.advance.next (fun l => gone l || l.isSymbol "," && l.isApart) = true

theorem not_lone_of_dangling (hbefore : Dangling before) : ¬Lone gone before c := fun h =>
  Bool.false_ne_true (hbefore.endsOperand.symm.trans h.2.1)

theorem not_lone_of_not_isOperator (h : c.next Lexeme.isOperator = false) : ¬Lone gone before c :=
  fun hlone => Bool.false_ne_true (h.symm.trans hlone.1)

/-- The productions of the second grammar, which has `depth` levels, follow those of the first one. -/
structure Follows (gone : Lexeme → Bool) (levels : Nat) (g g' : Grammar) (depth : Nat) : Prop where
  level : ∃ n, n ≤ levels ∧ g = ofDepth n
  level' : g' = ofDepth depth
  statements : ∀ {before : List Lexeme} {c c' : Cursor}, Abreast gone levels before c c' →
    2 * c'.ahead.length + 2 ≤ depth → ∀ scope inSwitch,
    Outcome.Follows (Along gone levels c c' SameOutline) (g.statements scope inSwitch c)
      (g'.statements scope inSwitch c')
  expression : ∀ {before : List Lexeme} {c c' : Cursor}, Abreast gone levels before c c' →
    c.next gone = false → ¬Lone gone before c → 2 * c'.ahead.length + 1 ≤ depth → ∀ trailing,
    Outcome.Follows (Along gone levels c c' SameExpression) (g.expression trailing c)
      (g'.expression trailing c')
  ifStatement : ∀ {before : List Lexeme} {c c' : Cursor}, Abreast gone levels before c c' →
    c.atKeyword "if" = true → 2 * c'.ahead.length + 1 ≤ depth →
    Outcome.Follows (Along gone levels c c' fun node node' => SameOutline [node] [node'])
      (g.ifStatement c)
      (g'.ifStatement c')

variable {g g' : Grammar} {depth : Nat}

theorem Follows.sound (hg : Follows gone levels g g' depth) : g.Sound := by
  obtain ⟨n, -, rfl⟩ := hg.level
  exact sound_ofDepth n

theorem Follows.sound' (hg : Follows gone levels g g' depth) : g'.Sound := by
  rw [hg.level']
  exact sound_ofDepth depth

/-! ### Before an operand -/

/-- The lexeme behind an operator stays, and stands right behind it at both cursors or at none. -/
theorem Kept.behind_operator (h : Kept gone levels before c c' x y) (hx : x.isOperator = true)
    (hdangling : c.advance.next (fun l => gone l || l.isSymbol "," && l.isApart) = true →
      Dangling (x :: before)) :
    c.advance.next gone = false ∧
      c'.advance.next (fun l => !l.isApart) = c.advance.next fun l => !l.isApart := by
  have hcomma : (x :: before).head?.any (fun l => l.isSymbol ",") = false :=
    isSymbol_of_isOperator hx (.inl rfl)
  cases h.later.meeting with
  | finished hahead hahead' =>
      rw [Cursor.next_of_nil hahead, Cursor.next_of_nil hahead, Cursor.next_of_nil hahead']
      exact ⟨rfl, rfl⟩
  | @kept z w hkept =>
      rw [hkept.next, hkept.next, hkept.next']
      rw [hkept.next, hkept.stays, Bool.false_or] at hdangling
      refine ⟨hkept.stays, ?_⟩
      cases hz : z.isSymbol "," with
      | false => rw [hkept.apart.eq hz hcomma]
      | true =>
          cases hapart : z.isApart with
          | false => rw [hkept.apart.of_not_isApart hapart hcomma]
          | true =>
              have hbefore := hdangling (by rw [hz, hapart]; rfl)
              have hharmless := h.later.harmless
              obtain ⟨ahead, hahead⟩ := Cursor.peek?_eq_some_iff.1 hkept.peek
              rw [hahead] at hharmless
              exact absurd (hbefore.completes.symm.trans (hharmless.comma hz hapart hx))
                Bool.false_ne_true
  | dropped hdropped =>
      have hbefore : Dangling (x :: before) := by
        refine hdangling ?_
        rw [Cursor.next_of_peek? hdropped.peek, hdropped.goes, Bool.true_or]
      have hstays := h.later.stays hbefore
      rw [Cursor.next_of_peek? hdropped.peek, hdropped.goes] at hstays
      exact absurd hstays Bool.noConfusion

theorem dangling_of_not_lone (h : Kept gone levels before c c' x y) (hx : x.isOperator = true)
    (hlone : ¬Lone gone before c)
    (hbehind : c.advance.next (fun l => gone l || l.isSymbol "," && l.isApart) = true) :
    Dangling (x :: before) := by
  refine dangling_of_isOperator hx (.inr ?_)
  cases hbefore : before.head?.any endsOperand with
  | false => rfl
  | true => exact absurd ⟨h.next.trans hx, hbefore, hbehind⟩ hlone

/-- As many lexemes stand before the operand at both cursors. -/
theorem Abreast.operandPrefixLength (h : Abreast gone levels before c c') (hnext : c.next gone = false)
    (hlone : ¬Lone gone before c) :
    Grammar.operandPrefixLength c'.ahead = Grammar.operandPrefixLength c.ahead ∧
      ∃ before', Abreast gone levels before' (c.advanceBy (Grammar.operandPrefixLength c.ahead))
          (c'.advanceBy (Grammar.operandPrefixLength c.ahead)) ∧
        (c.advanceBy (Grammar.operandPrefixLength c.ahead)).next gone = false := by
  induction hlength : c.ahead.length using Nat.strongRecOn generalizing before c c' with
  | _ n ih =>
    subst hlength
    have hzero : ∃ before', Abreast gone levels before' (c.advanceBy 0) (c'.advanceBy 0) ∧
        (c.advanceBy 0).next gone = false := ⟨before, h, hnext⟩
    cases h.meeting with
    | finished hahead hahead' =>
        rw [hahead, hahead']
        exact ⟨rfl, hzero⟩
    | dropped hdropped =>
        rw [Cursor.next_of_peek? hdropped.peek, hdropped.goes] at hnext
        exact absurd hnext Bool.noConfusion
    | @kept x y hkept =>
        have hpasses := Cursor.Passes.advance hkept.peek
        rw [operandPrefixLength_of_peek? hkept.peek, operandPrefixLength_of_peek? hkept.peek',
          hkept.alike.isKeyword, hkept.alike.isKeyword, hkept.alike.isOperator]
        by_cases hword : (x.isKeyword "try" || x.isKeyword "await") = true
        · rw [if_pos hword, if_pos hword]
          have hbefore : Dangling (x :: before) := by
            rw [Bool.or_eq_true] at hword
            rcases hword with hword | hword
            all_goals
              obtain ⟨hkind, htext⟩ := Lexeme.isKeyword_iff.1 hword
              refine dangling_of_keyword hkind ?_
              rw [htext]
              decide
          have hspaced : Spaced gone c.advance c'.advance := by
            refine hkept.spaced (isSymbol_of_kind_ne ?_ _)
            rw [Bool.or_eq_true, Lexeme.isKeyword_iff, Lexeme.isKeyword_iff] at hword
            rcases hword with hword | hword
            all_goals simp [hword.1]
          rw [hkept.later.next_isPostfixOperator_eq hspaced]
          -- a mark behind the word is taken with it
          cases hmark : c.advance.next Lexeme.isPostfixOperator with
          | false =>
              obtain ⟨heq, hrest⟩ := ih _ hpasses.2 hkept.later (hkept.later.stays hbefore)
                (not_lone_of_dangling hbefore) rfl
              rw [heq]
              exact ⟨rfl, hrest⟩
          | true =>
              obtain ⟨mark, mark', hkept', hpostfix⟩ := hkept.later.kept_of_next hmark fun _ =>
                isPostfixOperator_of_semicolon
              have hpasses' := hpasses.trans_reaches (Cursor.Reaches.advance c.advance)
              have hbefore' := dangling_of_mark hpostfix hbefore
              obtain ⟨heq, hrest⟩ := ih _ hpasses'.2 hkept'.later (hkept'.later.stays hbefore')
                (not_lone_of_dangling hbefore') rfl
              rw [heq]
              exact ⟨rfl, hrest⟩
        · rw [if_neg hword, if_neg hword]
          cases hx : x.isOperator with
          | false => exact ⟨rfl, hzero⟩
          | true =>
              obtain ⟨hstays, hapart⟩ := hkept.behind_operator hx (dangling_of_not_lone hkept hx hlone)
              rw [hapart]
              cases c.advance.next fun l => !l.isApart with
              | false => exact ⟨rfl, hzero⟩
              | true =>
                  have hends : (x :: before).head?.any endsOperand = false :=
                    endsOperand_of_isOperator hx
                  obtain ⟨heq, hrest⟩ := ih _ hpasses.2 hkept.later hstays
                    (fun hlone' => Bool.false_ne_true (hends.symm.trans hlone'.2.1)) rfl
                  rw [heq]
                  exact ⟨rfl, hrest⟩

/-! ### Without an operand -/

theorem primary_of_isOperator (hpeek : c.peek? = some x) (hx : x.isOperator = true) :
    g.primary c = .ok (none, c) := by
  refine primary_of_punctuation hpeek (kind_of_isOperator hx) fun htext => ?_
  simp only [List.mem_cons, List.not_mem_nil, or_false] at htext
  rcases htext with htext | htext | htext | htext | htext
  all_goals simp [Lexeme.isOperator, htext, Lexeme.isOperatorChar] at hx

/-- What begins no operand is none, and does not stand before one. -/
theorem primary_of_not_beginsOperand (hpeek : c.peek? = some x) (hx : beginsOperand x = false) :
    operandPrefixLength c.ahead = 0 ∧ g.primary c = .ok (none, c) := by
  cases hcloser : x.isCloser with
  | true =>
      simp only [Lexeme.isCloser, Bool.or_eq_true, Lexeme.isSymbol_iff] at hcloser
      refine ⟨?_, ?_⟩
      · rw [operandPrefixLength_of_peek? hpeek]
        rcases hcloser with (⟨hkind, htext⟩ | ⟨hkind, htext⟩) | ⟨hkind, htext⟩
        all_goals simp [Lexeme.isKeyword, Lexeme.isOperator, hkind, htext, Lexeme.isOperatorChar]
      · rcases hcloser with (⟨hkind, htext⟩ | ⟨hkind, htext⟩) | ⟨hkind, htext⟩
        all_goals
          refine primary_of_punctuation hpeek hkind ?_
          rw [htext]
          decide
  | false =>
      simp only [beginsOperand, hcloser, Bool.not_false, Bool.true_and, Bool.or_eq_false_iff,
        bne_eq_false_iff_eq, List.contains_cons, beq_eq_false_iff_ne] at hx
      obtain ⟨hkind, htry, hawait, hvalue⟩ := hx
      refine ⟨?_, ?_⟩
      · rw [operandPrefixLength_of_peek? hpeek]
        simp [Lexeme.isKeyword, htry, hawait, isOperator_of_kind_ne (x := x) (by simp [hkind])]
      · simp only [primary, hpeek, hkind, hvalue, Bool.false_eq_true, if_false]

/-- There is no expression at an operator with no operand right behind it. -/
theorem expressionBody_of_operator (hpeek : c.peek? = some x) (hx : x.isOperator = true)
    (hbehind : ∀ z, c.advance.peek? = some z →
      z.isApart = true ∨ z.isSymbol ";" = true ∨ z.isSymbol "," = true) (trailing : Bool) :
    ∃ later, (later = c ∨ later = c.advance) ∧
      g.expressionBody trailing c = .ok (⟨[], false⟩, later) := by
  have hword : ∀ word, x.isKeyword word = false := fun word => by
    rw [Lexeme.isKeyword, kind_of_isOperator hx]
    rfl
  have hfront := operandPrefixLength_of_peek? hpeek
  rw [hword, hword, Bool.or_self, if_neg Bool.false_ne_true, hx, Bool.true_and] at hfront
  cases hattached : c.advance.next fun l => !l.isApart with
  | false =>
      rw [hattached, if_neg Bool.false_ne_true] at hfront
      exact ⟨c, .inl rfl, expressionBody_of_primary (by rw [hfront]; rfl)
        (primary_of_isOperator hpeek hx)⟩
  | true =>
      obtain ⟨z, hz⟩ := Cursor.exists_peek?_of_next hattached
      rw [Cursor.next_of_peek? hz, Bool.not_eq_true'] at hattached
      have hseparator := (hbehind z hz).resolve_left fun hapart =>
        Bool.false_ne_true (hattached.symm.trans hapart)
      obtain ⟨hnothing, hnone⟩ := primary_of_separator (g := g) hz hseparator
      rw [Cursor.next_of_peek? hz, hattached, Bool.not_false, if_pos rfl, hnothing] at hfront
      exact ⟨c.advance, .inr rfl, expressionBody_of_primary (by rw [hfront]; rfl) hnone⟩

theorem Follows.expression_of_semicolon (hg : Follows gone levels g g' depth) (hpeek : c.peek? = some x)
    (hx : x.isSymbol ";" = true) {trailing : Bool} {r : ExpressionNodes × Cursor}
    (hr : g.expression trailing c = .ok r) : r = (⟨[], false⟩, c) := by
  obtain ⟨n, -, rfl⟩ := hg.level
  cases n with
  | zero => cases hr
  | succ n =>
      have hbody := expressionBody_of_semicolon (g := ofDepth n) hpeek hx trailing
      exact Except.ok.inj (hr.symm.trans hbody)

/-! ### Groups of expressions -/

theorem advance_of_stalled {later : Cursor} (hpeek : c.peek? = some x)
    (hlater : later = c ∨ later = c.advance) :
    (if c.hasStalled later then later.advance else later) = c.advance := by
  rcases hlater with rfl | rfl
  · rw [Cursor.hasStalled, BEq.rfl, if_pos rfl]
  · have hpasses := (Cursor.Passes.advance hpeek).2
    rw [Cursor.hasStalled, beq_false_of_ne (by omega), if_neg Bool.false_ne_true]

/-- A lexeme is taken at both cursors or at none when nothing has been read. -/
theorem Onward.unstalled {later later' : Cursor} (h : Onward gone levels c c' later later')
    (hc : Abreast gone levels before c c') (hkept : Kept gone levels before c c' x y) :
    Onward gone levels c c' (if c.hasStalled later then later.advance else later)
        (if c'.hasStalled later' then later'.advance else later') ∧
      c'.Passes (if c'.hasStalled later' then later'.advance else later') := by
  have heq := h.hasStalled_eq hc (hkept.next.trans hkept.stays)
  cases hstalled : c.hasStalled later with
  | true =>
      rw [hstalled] at heq
      have hlater := h.reaches.eq_of_hasStalled hkept.peek hstalled
      have hlater' := h.reaches'.eq_of_hasStalled hkept.peek' heq
      rw [if_pos rfl, heq, if_pos rfl, hlater, hlater']
      exact ⟨hkept.onward, hkept.passes'⟩
  | false =>
      rw [hstalled] at heq
      rw [if_neg Bool.false_ne_true, heq, if_neg Bool.false_ne_true]
      exact ⟨h, h.reaches'.passes heq⟩

/-- At an operator that stands alone there is no expression at either cursor. -/
theorem Follows.expression_of_lone (hg : Follows gone levels g g' depth)
    (hkept : Kept gone levels before c c' x y)
    (hlone : Lone gone before c) (hroom : 0 < depth) (trailing : Bool) :
    (∀ r, g.expression trailing c = .ok r →
      ∃ later, (later = c ∨ later = c.advance) ∧ r = (⟨[], false⟩, later)) ∧
    ∃ later', (later' = c' ∨ later' = c'.advance) ∧
      g'.expression trailing c' = .ok (⟨[], false⟩, later') := by
  have hx : x.isOperator = true := hkept.next.symm.trans hlone.1
  have hy : y.isOperator = true := hkept.alike.isOperator.trans hx
  have hbehind := hlone.2.2
  have hold : ∀ z, c.advance.peek? = some z →
      z.isApart = true ∨ z.isSymbol ";" = true ∨ z.isSymbol "," = true := by
    intro z hz
    rw [Cursor.next_of_peek? hz, Bool.or_eq_true, Bool.and_eq_true] at hbehind
    refine hbehind.elim (fun hgone => ?_) fun hcomma => .inl hcomma.2
    cases hkept.later.meeting with
    | finished hahead =>
        rw [Cursor.peek?, hahead] at hz
        cases hz
    | kept hkept' =>
        obtain rfl := Option.some.inj (hkept'.peek.symm.trans hz)
        exact absurd (hkept'.stays.symm.trans hgone) Bool.false_ne_true
    | dropped hdropped =>
        obtain rfl := Option.some.inj (hdropped.peek.symm.trans hz)
        exact .inr (.inl hdropped.semicolon)
  have hnew : ∀ w, c'.advance.peek? = some w →
      w.isApart = true ∨ w.isSymbol ";" = true ∨ w.isSymbol "," = true := by
    intro w hw
    cases hkept.later.meeting with
    | finished hahead hahead' =>
        rw [Cursor.peek?, hahead'] at hw
        cases hw
    | kept hkept' =>
        obtain rfl := Option.some.inj (hkept'.peek'.symm.trans hw)
        rw [hkept'.next, hkept'.stays, Bool.false_or, Bool.and_eq_true] at hbehind
        exact .inr (.inr ((hkept'.alike.isSymbol ",").trans hbehind.1))
    | dropped hdropped =>
        obtain ⟨ahead, hahead⟩ := Cursor.peek?_eq_some_iff.1 hw
        have hfresh := hdropped.fresh
        rw [hahead] at hfresh
        exact .inl (Lexeme.isApart_of_isOnNewLine hfresh.head_isOnNewLine)
  refine ⟨fun r hr => ?_, ?_⟩
  · obtain ⟨n, -, rfl⟩ := hg.level
    cases n with
    | zero => cases hr
    | succ n =>
        obtain ⟨later, hlater, hbody⟩ :=
          expressionBody_of_operator (g := ofDepth n) hkept.peek hx hold trailing
        exact ⟨later, hlater, Except.ok.inj (hr.symm.trans hbody)⟩
  · obtain ⟨n, rfl⟩ := Nat.exists_eq_succ_of_ne_zero (Nat.ne_of_gt hroom)
    rw [hg.level']
    exact expressionBody_of_operator (g := ofDepth n) hkept.peek' hy hnew trailing

theorem Follows.expressionOrLexeme (hg : Follows gone levels g g' depth)
    (h : Abreast gone levels before c c')
    (hkept : Kept gone levels before c c' x y) (hroom : 2 * c'.ahead.length + 1 ≤ depth) :
    Outcome.Follows (fun r r' => Along gone levels c c' SameOutline r r' ∧ c'.Passes r'.2)
      (g.expressionOrLexeme c) (g'.expressionOrLexeme c') := by
  by_cases hlone : Lone gone before c
  · obtain ⟨hold, later', hlater', hnew⟩ := hg.expression_of_lone hkept hlone (by omega) true
    rw [Grammar.expressionOrLexeme, Grammar.expressionOrLexeme, hnew]
    intro r hr
    cases he : g.expression true c with
    | error failure =>
        rw [he] at hr
        cases hr
    | ok e =>
        obtain ⟨later, hlater, rfl⟩ := hold e he
        rw [he] at hr
        obtain rfl := Except.ok.inj hr
        refine ⟨_, rfl, ⟨SameOutline.nil, ?_⟩, ?_⟩
        · dsimp only
          rw [advance_of_stalled hkept.peek hlater, advance_of_stalled hkept.peek' hlater']
          exact hkept.onward
        · dsimp only
          rw [advance_of_stalled hkept.peek' hlater']
          exact hkept.passes'
  · refine (hg.expression h (hkept.next.trans hkept.stays) hlone hroom true).bind ?_
    rintro ⟨e, later⟩ ⟨e', later'⟩ ⟨he, hlater⟩
    obtain ⟨honward, hpasses⟩ := hlater.unstalled h hkept
    exact .ok ⟨⟨he.nodes, honward⟩, hpasses⟩

/-- At a semicolon that goes nothing is read, and the semicolon is taken. -/
theorem Follows.expressionOrLexeme_of_semicolon (hg : Follows gone levels g g' depth)
    (hpeek : c.peek? = some x)
    (hx : x.isSymbol ";" = true) {r : List Node × Cursor} (hr : g.expressionOrLexeme c = .ok r) :
    r = ([], c.advance) := by
  rw [Grammar.expressionOrLexeme] at hr
  cases he : g.expression true c with
  | error failure =>
      rw [he] at hr
      cases hr
  | ok e =>
      obtain rfl := hg.expression_of_semicolon hpeek hx he
      rw [he] at hr
      rw [← Except.ok.inj hr, advance_of_stalled hpeek (.inl rfl)]

/-- The nodes end before the last lexeme behind the cursor does. -/
def EndsBefore (nodes : List Node) (later : Cursor) : Prop :=
  ∀ node ∈ nodes, node.span.stop < later.lastStop

theorem EndsBefore.append {nodes more : List Node} {later : Cursor} (h : EndsBefore nodes later)
    (hmore : EndsBefore more later) : EndsBefore (nodes ++ more) later := fun node hnode =>
  (List.mem_append.1 hnode).elim (h node) (hmore node)

theorem endsBefore_of_reads (hc : c.Valid) {nodes : List Node} {middle later : Cursor}
    (h : Reads c nodes middle) (hpasses : middle.Passes later) : EndsBefore nodes later := by
  intro node hnode
  have hmiddle := h.reaches.valid hc
  have hstop := h.arranged.stop_le_of_mem hnode
  have hhere := hmiddle.lastStop_le_here
  have hlast := hpasses.here_lt_lastStop hmiddle
  omega

/-- The states of two groups that are read from two cursors on. -/
structure GroupState (gone : Lexeme → Bool) (levels : Nat) (c c' : Cursor) (nodes : List Node)
    (middle : Cursor) (nodes' : List Node) (middle' : Cursor) : Prop where
  outline : SameOutline nodes nodes'
  abreast : ∃ before, Abreast gone levels before middle middle'
  reads : Reads c nodes middle
  reads' : Reads c' nodes' middle'

/-- Two groups of arguments end with a closing delimiter behind their nodes. -/
structure GroupEnd (gone : Lexeme → Bool) (levels : Nat) (c c' : Cursor) (nodes : List Node)
    (later : Cursor) (nodes' : List Node) (later' : Cursor) : Prop where
  outline : SameOutline nodes nodes'
  onward : Onward gone levels c c' later later'
  spaced : Spaced gone later later'
  ends : EndsBefore nodes later
  ends' : EndsBefore nodes' later'

namespace GroupState

variable {nodes nodes' : List Node} {middle middle' : Cursor}

theorem onward (h : GroupState gone levels c c' nodes middle nodes' middle') :
    Onward gone levels c c' middle middle' :=
  ⟨h.abreast, h.reads.reaches, h.reads'.reaches⟩

theorem start (h : Abreast gone levels before c c') : GroupState gone levels c c' [] c [] c' :=
  ⟨.nil, ⟨before, h⟩, .skip (.refl c), .skip (.refl c')⟩

/-- Lexemes are taken that give no nodes. -/
theorem skip (h : GroupState gone levels c c' nodes middle nodes' middle') (hc : c.Valid)
    (hc' : c'.Valid)
    {later later' : Cursor} (hlater : Onward gone levels middle middle' later later') :
    GroupState gone levels c c' nodes later nodes' later' :=
  ⟨h.outline, hlater.abreast, h.reads.trans_reaches hc hlater.reaches,
    h.reads'.trans_reaches hc' hlater.reaches'⟩

theorem close (h : GroupState gone levels c c' nodes middle nodes' middle') (hc : c.Valid)
    (hc' : c'.Valid)
    (hkept : Kept gone levels before middle middle' x y) (hx : x.isSymbol "," = false) :
    GroupEnd gone levels c c' nodes middle.advance nodes' middle'.advance where
  outline := h.outline
  onward := h.onward.trans hkept.onward
  spaced := hkept.spaced hx
  ends := endsBefore_of_reads hc h.reads (.advance hkept.peek)
  ends' := endsBefore_of_reads hc' h.reads' (.advance hkept.peek')

end GroupState

/-- The rest of a group is read alike behind an item. -/
theorem Follows.follows_item (hg : Follows gone levels g g' depth) (hc : c.Valid) (hc' : c'.Valid)
    {nodes nodes' : List Node} {middle middle' : Cursor}
    (h : GroupState gone levels c c' nodes middle nodes' middle')
    (habreast : Abreast gone levels before middle middle')
    (hkept : Kept gone levels before middle middle' x y) (hroom : 2 * c'.ahead.length + 1 ≤ depth) :
    Outcome.Follows
      (fun r r' => GroupState gone levels c c' (nodes ++ r.1) r.2 (nodes' ++ r'.1) r'.2 ∧
        middle'.Passes r'.2) (g.expressionOrLexeme middle) (g'.expressionOrLexeme middle') := by
  have hlength := h.reads'.reaches.length_le
  refine ((hg.expressionOrLexeme habreast hkept (by omega)).meets
    (hg.sound.expressionOrLexeme_append hc h.reads)
    (hg.sound'.expressionOrLexeme_append hc' h.reads')).mono ?_
  rintro r r' ⟨⟨⟨houtline, honward⟩, hpasses⟩, hreads, hreads'⟩
  exact ⟨⟨h.outline.append houtline, honward.abreast, hreads, hreads'⟩, hpasses⟩

theorem Follows.argumentRound (hg : Follows gone levels g g' depth) (hc : c.Valid) (hc' : c'.Valid)
    (opener opener' : Lexeme) {closing : String} (hclosing : closing ≠ ";" ∧ closing ≠ ",")
    {nodes nodes' : List Node} {middle middle' : Cursor}
    (h : GroupState gone levels c c' nodes middle nodes' middle')
    (hroom : 2 * c'.ahead.length + 1 ≤ depth) :
    (∃ more later, g.argumentRound opener closing nodes middle = .ok (.again more, later) ∧
      GroupState gone levels c c' more later nodes' middle') ∨
    Outcome.Follows
      (Round.Pair (GroupState gone levels c c')
        (fun r r' => GroupEnd gone levels c c' r.1.1 r.2 r'.1.1 r'.2) middle')
      (g.argumentRound opener closing nodes middle)
        (g'.argumentRound opener' closing nodes' middle') := by
  obtain ⟨before, habreast⟩ := h.abreast
  cases habreast.meeting with
  | finished hahead =>
      right
      rw [Grammar.argumentRound, Cursor.peek?, hahead]
      exact Outcome.follows_error _
  | @dropped x hdropped =>
      have hsemicolon := hdropped.semicolon
      rw [Grammar.argumentRound, hdropped.peek]
      dsimp only
      rw [isSymbol_of_semicolon hsemicolon hclosing.1, isSymbol_of_semicolon hsemicolon (by decide),
        isSymbol_of_semicolon hsemicolon (by decide), isCloser_of_semicolon hsemicolon,
        isWord_of_semicolon hsemicolon]
      cases hr : g.expressionOrLexeme middle with
      | error failure => exact .inr (Outcome.follows_error _)
      | ok r =>
          obtain rfl := hg.expressionOrLexeme_of_semicolon hdropped.peek hsemicolon hr
          refine .inl ⟨_, _, rfl, ?_⟩
          rw [List.append_nil]
          exact h.skip hc hc' hdropped.onward
  | @kept x y hkept =>
      right
      have halike := hkept.alike
      have hcolon : ((middle'.peekAt? 1).any fun l => l.isSymbol ":") =
          (middle.peekAt? 1).any fun l => l.isSymbol ":" := by
        rw [Cursor.peekAt?_one hkept.peek, Cursor.peekAt?_one hkept.peek']
        exact hkept.later.atSymbol_eq (by decide)
      rw [Grammar.argumentRound, Grammar.argumentRound, hkept.peek, hkept.peek']
      dsimp only
      rw [halike.isSymbol, halike.isSymbol, halike.isSymbol, halike.isCloser, halike.isWord, hcolon]
      split
      · rename_i hcloses
        exact .ok (h.close hc hc' hkept (isSymbol_ne hcloses hclosing.2))
      · split
        · exact .ok ⟨h.skip hc hc' hkept.onward, hkept.passes'.2⟩
        · split
          · exact Outcome.follows_error _
          · split
            · rename_i hlabel
              rw [Bool.and_eq_true, Cursor.peekAt?_one hkept.peek] at hlabel
              obtain ⟨colon, colon', hkept', -⟩ := hkept.later.kept_of_atSymbol hlabel.2 (by decide)
              exact .ok ⟨h.skip hc hc' (hkept.onward.trans hkept'.onward),
                (hkept.passes'.trans_reaches hkept'.passes'.1).2⟩
            · refine (hg.follows_item hc hc' h habreast hkept hroom).bind ?_
              rintro ⟨more, later⟩ ⟨more', later'⟩ ⟨hstate, hpasses⟩
              exact .ok ⟨hstate, hpasses.2⟩

theorem Follows.arguments (hg : Follows gone levels g g' depth) (h : Abreast gone levels before c c')
    (opener opener' : Lexeme) {closing : String} (hclosing : closing ≠ ";" ∧ closing ≠ ",")
    (hroom : 2 * c'.ahead.length + 1 ≤ depth) :
    Outcome.Follows (fun r r' => GroupEnd gone levels c c' r.1.1 r.2 r'.1.1 r'.2)
      (g.arguments opener closing c) (g'.arguments opener' closing c') :=
  follows_repeatRounds (S := GroupState gone levels c c')
    (fun _ _ _ _ _ hstate => hg.argumentRound h.valid h.valid' opener opener' hclosing hstate hroom)
      (.start h)

theorem Follows.itemRound (hg : Follows gone levels g g' depth) (hc : c.Valid) (hc' : c'.Valid)
    (opener opener' : Lexeme) {isDictionary : Bool} {nodes nodes' : List Node} {middle middle' : Cursor}
    (h : GroupState gone levels c c' nodes middle nodes' middle')
    (hroom : 2 * c'.ahead.length + 1 ≤ depth) :
    (∃ more later, g.itemRound opener (nodes, isDictionary) middle =
      .ok (.again (more, isDictionary), later) ∧
      GroupState gone levels c c' more later nodes' middle') ∨
    Outcome.Follows
      (Round.Pair (fun state later state' later' =>
          state'.2 = state.2 ∧ GroupState gone levels c c' state.1 later state'.1 later')
        (fun r r' => r'.1.2.1 = r.1.2.1 ∧ GroupEnd gone levels c c' r.1.1 r.2 r'.1.1 r'.2) middle')
      (g.itemRound opener (nodes, isDictionary) middle)
      (g'.itemRound opener' (nodes', isDictionary) middle') := by
  obtain ⟨before, habreast⟩ := h.abreast
  cases habreast.meeting with
  | finished hahead =>
      right
      rw [Grammar.itemRound, Cursor.peek?, hahead]
      exact Outcome.follows_error _
  | @dropped x hdropped =>
      have hsemicolon := hdropped.semicolon
      rw [Grammar.itemRound]
      dsimp only
      rw [hdropped.peek]
      dsimp only
      rw [isSymbol_of_semicolon hsemicolon (by decide), isSymbol_of_semicolon hsemicolon (by decide),
        isSymbol_of_semicolon hsemicolon (by decide), isCloser_of_semicolon hsemicolon]
      cases hr : g.expressionOrLexeme middle with
      | error failure => exact .inr (Outcome.follows_error _)
      | ok r =>
          obtain rfl := hg.expressionOrLexeme_of_semicolon hdropped.peek hsemicolon hr
          refine .inl ⟨_, _, rfl, ?_⟩
          rw [List.append_nil]
          exact h.skip hc hc' hdropped.onward
  | @kept x y hkept =>
      right
      have halike := hkept.alike
      rw [Grammar.itemRound, Grammar.itemRound]
      dsimp only
      rw [hkept.peek, hkept.peek']
      dsimp only
      rw [halike.isSymbol, halike.isSymbol, halike.isSymbol, halike.isCloser]
      split
      · rename_i hcloses
        exact .ok ⟨rfl, h.close hc hc' hkept (isSymbol_ne hcloses (by decide))⟩
      · split
        · exact .ok ⟨⟨rfl, h.skip hc hc' hkept.onward⟩, hkept.passes'.2⟩
        · split
          · exact .ok ⟨⟨rfl, h.skip hc hc' hkept.onward⟩, hkept.passes'.2⟩
          · split
            · exact Outcome.follows_error _
            · refine (hg.follows_item hc hc' h habreast hkept hroom).bind ?_
              rintro ⟨more, later⟩ ⟨more', later'⟩ ⟨hstate, hpasses⟩
              exact .ok ⟨⟨rfl, hstate⟩, hpasses.2⟩

/-- The last node is a call that ends where the last lexeme behind the cursor does. -/
def endsWithCall (nodes : List Node) (later : Cursor) : Bool :=
  nodes.getLast?.any fun call => call.kind == .call && call.span.stop == later.lastStop

theorem endsWithCall_of_endsBefore {nodes : List Node} {later : Cursor} (h : EndsBefore nodes later) :
    endsWithCall nodes later = false := by
  rw [endsWithCall, Option.any_eq_false]
  intro call hlast
  have hlt := h call (List.mem_of_getLast? hlast)
  rw [beq_false_of_ne (Nat.ne_of_lt hlt), Bool.and_false]

theorem endsWithCall_singleton {node : Node} {later : Cursor} (h : node.kind ≠ .call) :
    endsWithCall [node] later = false := by
  rw [endsWithCall, List.getLast?_singleton, Option.any_some, beq_false_of_ne h, Bool.false_and]

/-- Two operands as far as they have been read: they have the same outline, and both end with a call or
none does. -/
structure OperandPair (gone : Lexeme → Bool) (levels : Nat) (c c' : Cursor) (nodes : List Node)
    (later : Cursor) (nodes' : List Node) (later' : Cursor) : Prop where
  outline : SameOutline nodes nodes'
  onward : Onward gone levels c c' later later'
  spaced : Spaced gone later later'
  ends : endsWithCall nodes' later' = endsWithCall nodes later

theorem Follows.collection (hg : Follows gone levels g g' depth)
    (hkept : Kept gone levels before c c' x y) (hroom : 2 * c'.ahead.length ≤ depth) :
    Outcome.Follows (fun r r' => OperandPair gone levels c c' [r.1] r.2 [r'.1] r'.2)
      (g.collection x c.advance) (g'.collection y c'.advance) := by
  have hlength := hkept.passes'.2
  refine Outcome.Follows.bind (R := fun r r' => r'.1.2.1 = r.1.2.1 ∧
      GroupEnd gone levels c.advance c'.advance r.1.1 r.2 r'.1.1 r'.2)
    (follows_repeatRounds (S := fun state later state' later' =>
      state'.2 = state.2 ∧ GroupState gone levels c.advance c'.advance state.1 later state'.1
        later') ?_ ?_) ?_
  · rintro ⟨nodes, isDictionary⟩ middle ⟨nodes', _⟩ middle' - ⟨rfl, hstate⟩
    rcases hg.itemRound hkept.later.valid hkept.later.valid' x y hstate (by omega) with
      ⟨more, later, hround, hmore⟩ | hfollows
    · exact .inl ⟨_, _, hround, rfl, hmore⟩
    · exact .inr hfollows
  · exact ⟨rfl, .start hkept.later⟩
  · rintro ⟨⟨nodes, isDictionary, closer⟩, later⟩ ⟨⟨nodes', isDictionary', closer'⟩, later'⟩
      ⟨hkind, hend⟩
    obtain rfl : isDictionary' = isDictionary := hkind
    have hne : ∀ isDictionary : Bool,
        (if isDictionary then NodeKind.dictionary else NodeKind.array) ≠ .call := by decide
    refine .ok ⟨.singleton rfl hend.outline, hkept.onward.trans hend.onward, hend.spaced, ?_⟩
    rw [endsWithCall_singleton (hne _), endsWithCall_singleton (hne _)]

end SourceLint.Grammar
