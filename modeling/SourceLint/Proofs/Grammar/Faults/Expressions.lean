import SourceLint.Grammar.Expression
import SourceLint.Proofs.Grammar.Faults.Skipping

/-!
# Faults found in expressions

An expression is nested in another one behind a lexeme, so an expression needs one level of nesting less than the
expression around it for every lexeme between their starts. The opening delimiter that a group keeps for the case
that the text does not close it has been taken from the lexemes of the text.
-/

namespace SourceLint.Grammar

open Cursor (HasRoom)

/-- The grammar has results or finds fault where there is room: statements nest an expression at the same place, and
so need two levels when an expression needs one. -/
structure Handles (start : Cursor) (budget : Nat) (g : Grammar) : Prop where
  statements : ∀ {c : Cursor}, HasRoom start budget 2 c → ∀ scope inSwitch,
    (g.statements scope inSwitch c).Answers start fun r => c.Reaches r.2
  expression : ∀ {c : Cursor}, HasRoom start budget 1 c → ∀ trailing,
    (g.expression trailing c).Answers start fun r => c.Reaches r.2
  ifStatement : ∀ {c : Cursor} {x : Lexeme}, HasRoom start budget 1 c → c.peek? = some x →
    (g.ifStatement c).Answers start fun r => c.Reaches r.2

variable {g : Grammar} {start c : Cursor} {budget more : Nat} {opener x : Lexeme}

/-! ### Groups of expressions -/

theorem Handles.expressionOrLexeme (hg : g.Handles start budget) (h : HasRoom start budget 1 c)
    (hpeek : c.peek? = some x) :
    (g.expressionOrLexeme c).Answers start fun r => c.Passes r.2 := by
  apply (hg.expression h true).bind
  rintro ⟨e, later⟩ hlater
  exact hlater.passes_unstalled hpeek

theorem Handles.argumentRound (hg : g.Handles start budget) (h : HasRoom start budget 1 c)
    (hopener : opener ∈ start.ahead) (closing : String) (nodes : List Node) :
    (g.argumentRound opener closing nodes c).Answers start (Round.Advances c) := by
  rw [Grammar.argumentRound]
  split
  · exact Outcome.answers_unclosed hopener
  · rename_i lexeme hpeek
    have hpass := Cursor.Passes.advance hpeek
    split
    · exact hpass.1
    · split
      · exact hpass
      · split
        · exact Outcome.answers_unexpected (h.reached.mem_of_peek? hpeek)
        · split
          · exact hpass.trans_reaches (.advance c.advance)
          · apply (hg.expressionOrLexeme h hpeek).bind
            rintro ⟨more, later⟩ hlater
            exact hlater

theorem Handles.arguments (hg : g.Handles start budget) (h : HasRoom start budget 1 c)
    (hopener : opener ∈ start.ahead) (closing : String) :
    (g.arguments opener closing c).Answers start fun r => c.Reaches r.2 :=
  answers_repeatRounds (fun _ _ hmiddle => hg.argumentRound (h.reaches hmiddle) hopener closing _) []

theorem Handles.itemRound (hg : g.Handles start budget) (h : HasRoom start budget 1 c)
    (hopener : opener ∈ start.ahead) (state : List Node × Bool) :
    (g.itemRound opener state c).Answers start (Round.Advances c) := by
  obtain ⟨nodes, isDictionary⟩ := state
  rw [Grammar.itemRound]
  dsimp only
  split
  · exact Outcome.answers_unclosed hopener
  · rename_i lexeme hpeek
    have hpass := Cursor.Passes.advance hpeek
    split
    · exact hpass.1
    · split
      · exact hpass
      · split
        · exact hpass
        · split
          · exact Outcome.answers_unexpected (h.reached.mem_of_peek? hpeek)
          · apply (hg.expressionOrLexeme h hpeek).bind
            rintro ⟨more, later⟩ hlater
            exact hlater

theorem Handles.collection (hg : g.Handles start budget) (h : HasRoom start budget 1 c)
    (hopener : opener ∈ start.ahead) :
    (g.collection opener c).Answers start fun r => c.Reaches r.2 :=
  (answers_repeatRounds (fun state _ hmiddle => hg.itemRound (h.reaches hmiddle) hopener state)
    ([], false)).bind fun _ hlater => hlater

/-! ### Closures -/

theorem answers_captureSpecifier (h : start.Reaches c) :
    (captureSpecifier c).Answers start fun r => c.Reaches r.2 := by
  rw [captureSpecifier]
  split
  · exact Cursor.Reaches.refl c
  · split
    · apply (Cursor.answers_skipAttachedGroup (h.trans (.advance c))).bind
      intro later hlater
      exact (Cursor.Reaches.advance c).trans hlater
    · exact Cursor.Reaches.refl c

theorem Handles.captureRound (hg : g.Handles start budget) (h : HasRoom start budget 1 c)
    (hopener : opener ∈ start.ahead) (nodes : List Node) :
    (g.captureRound opener nodes c).Answers start (Round.Advances c) := by
  rw [Grammar.captureRound]
  split
  · exact Outcome.answers_unclosed hopener
  · rename_i lexeme hpeek
    have hpass := Cursor.Passes.advance hpeek
    split
    · exact hpass.1
    · split
      · exact hpass
      · apply (answers_captureSpecifier h.reached).bind
        rintro ⟨attributes, afterSpecifier⟩ hspecifier
        dsimp only
        generalize afterSpecifier.peek?.filter _ = name
        have hafterName : c.Reaches (if name.isSome then afterSpecifier.advance else afterSpecifier) := by
          split
          · exact hspecifier.trans (.advance _)
          · exact hspecifier
        generalize (if name.isSome then afterSpecifier.advance else afterSpecifier) = afterName
          at hafterName
        -- the rest of the round, whatever the captured value is
        have hfinish : ∀ (node : Node) (later : Cursor), c.Reaches later →
            Outcome.Answers start (Round.Advances c)
              (if c.hasStalled later then .ok (Round.again nodes, c.advance)
              else .ok (Round.again (nodes ++ [node]), later) :
                Outcome (Round (List Node) (List Node) × Cursor)) := by
          intro node later hlater
          cases hstalled : c.hasStalled later with
          | true => exact hpass
          | false => exact hlater.passes hstalled
        split
        · apply (hg.expression (h.reaches (hafterName.trans (.advance _))) true).bind
          rintro ⟨e, later⟩ hlater
          exact hfinish _ later ((hafterName.trans (.advance _)).trans hlater)
        · exact hfinish _ afterName hafterName

theorem Handles.captureList (hg : g.Handles start budget) (h : HasRoom start budget 1 c) :
    (g.captureList c).Answers start fun r => c.Reaches r.2 := by
  rw [Grammar.captureList]
  split
  · exact Cursor.Reaches.refl c
  · rename_i opener ahead hahead
    have hopener : opener ∈ start.ahead :=
      h.reached.mem_of_peek? (Cursor.peek?_eq_some_iff.2 ⟨ahead, hahead⟩)
    dsimp only
    split
    · refine (answers_repeatRounds (fun nodes _ hmiddle => hg.captureRound
        (h.reaches ((Cursor.Reaches.advance c).trans hmiddle)) hopener nodes) []).mono ?_
      exact fun _ hlater => (Cursor.Reaches.advance c).trans hlater
    · exact Cursor.Reaches.refl c

theorem reaches_closureParameters (c : Cursor) : c.Reaches (closureParameters c).2 := by
  rw [closureParameters]
  split
  · exact .advanceBy c _
  · exact .refl c

/-- A closure begins with a brace, behind which there is room for its statements. -/
theorem Handles.closure (hg : g.Handles start budget) (h : HasRoom start budget more c) :
    (g.closure c).Answers start fun r => c.Passes r.2 := by
  rw [Grammar.closure]
  apply (Cursor.answers_expectSymbol h.reached _ _).bind
  rintro ⟨opener, c₁⟩ ⟨hpasses, hopener⟩
  have h₁ := h.passes hpasses
  apply (hg.captureList (h₁.weaken (Nat.le_succ 1))).bind
  rintro ⟨captures, c₂⟩ hcaptures
  have hparameters := reaches_closureParameters c₂
  dsimp only
  generalize closureParameters c₂ = signature at hparameters
  obtain ⟨parameters, c₃⟩ := signature
  have h₃ := h₁.reaches (hcaptures.trans hparameters)
  apply (hg.statements h₃ _ _).bind
  rintro ⟨statements, c₄⟩ hstatements
  apply (Cursor.answers_expectCloser (h₃.reaches hstatements).reached _ hopener).bind
  rintro ⟨closer, c₅⟩ hcloser
  exact hpasses.trans_reaches ((hcaptures.trans hparameters).trans (hstatements.trans hcloser.1))

/-! ### Operands -/

theorem Handles.primary (hg : g.Handles start budget) (h : HasRoom start budget more c) :
    (g.primary c).Answers start fun r => c.Reaches r.2 := by
  have hnone : Outcome.Answers start (fun r : Option (List Node) × Cursor => c.Reaches r.2)
      (.ok (none, c)) := Cursor.Reaches.refl c
  have htake : ∀ n, Outcome.Answers start (fun r : Option (List Node) × Cursor => c.Reaches r.2)
      (.ok (some [], c.advanceBy n)) := Cursor.Reaches.advanceBy c
  rw [Grammar.primary]
  split
  · exact hnone
  · rename_i lexeme hpeek
    have hopener : lexeme ∈ start.ahead := h.reached.mem_of_peek? hpeek
    have hinside := h.inside hpeek
    split
    · exact htake 1
    · exact htake 1
    · exact htake 1
    · split
      · exact htake 1
      · exact hnone
    · split
      · apply (hg.arguments hinside hopener ")").bind
        rintro ⟨⟨nodes, closer⟩, later⟩ hlater
        exact (Cursor.Reaches.advance c).trans hlater
      · split
        · apply (hg.collection hinside hopener).bind
          rintro ⟨node, later⟩ hlater
          exact (Cursor.Reaches.advance c).trans hlater
        · split
          · apply (hg.closure h).bind
            rintro ⟨node, later⟩ hlater
            exact hlater.1
          · split
            · split
              · exact htake 2
              · exact hnone
            · split
              · exact htake 1
              · exact hnone
    · exact hnone

theorem Handles.suffixRound (hg : g.Handles start budget) (h : HasRoom start budget more c) (trailing : Bool)
    (first : Cursor) (state : OperandState) :
    (g.suffixRound trailing first state c).Answers start (Round.Advances c) := by
  have hstop : Outcome.Answers start (Round.Advances c)
      (.ok (.done state.nodes, c) : Outcome (Round OperandState (List Node) × Cursor)) :=
    Cursor.Reaches.refl c
  rw [Grammar.suffixRound]
  dsimp only
  split
  · exact hstop
  · rename_i lexeme hpeek
    have hpass := Cursor.Passes.advance hpeek
    have hopener : lexeme ∈ start.ahead := h.reached.mem_of_peek? hpeek
    have hinside := h.inside hpeek
    split
    · exact hstop
    · split
      · split
        · exact hpass.trans_reaches (.advance c.advance)
        · exact hstop
      · split
        · apply (hg.arguments hinside hopener ")").bind
          rintro ⟨⟨arguments, closer⟩, later⟩ hlater
          exact hpass.trans_reaches hlater
        · split
          · apply (hg.arguments hinside hopener "]").bind
            rintro ⟨⟨arguments, closer⟩, later⟩ hlater
            exact hpass.trans_reaches hlater
          · split
            · apply (hg.closure h).bind
              rintro ⟨closure, later⟩ hlater
              exact hlater
            · split
              · exact hpass
              · exact hstop

theorem Handles.operand (hg : g.Handles start budget) (h : HasRoom start budget more c) (trailing : Bool) :
    (g.operand trailing c).Answers start fun r => c.Reaches r.2 := by
  rw [Grammar.operand]
  apply (hg.primary h).bind
  rintro ⟨_ | nodes, later⟩ hprimary
  · exact hprimary
  · refine (answers_repeatRounds (fun state _ hmiddle => hg.suffixRound
      (h.reaches (hprimary.trans hmiddle)) trailing c state) ⟨nodes, later⟩).bind ?_
    rintro ⟨nodes, last⟩ hlast
    exact hprimary.trans hlast

/-! ### Operators -/

theorem answers_castRound (h : start.Reaches c) (state : Unit) :
    (castRound state c).Answers start (Round.Advances c) := by
  rw [castRound]
  split
  · rename_i hcast
    obtain ⟨x, hpeek⟩ : ∃ x, c.peek? = some x :=
      (Bool.or_eq_true_iff.1 hcast).elim Cursor.exists_peek?_of_next Cursor.exists_peek?_of_next
    have hpass := (Cursor.Passes.advance hpeek).trans_reaches (Cursor.reaches_skipPostfixOperator _)
    apply (Cursor.answers_skipType (h.trans hpass.1)).bind
    intro later hlater
    exact hpass.trans_reaches hlater
  · exact Cursor.Reaches.refl c

theorem Handles.operandRound (hg : g.Handles start budget) (h : HasRoom start budget more c)
    (trailing : Bool) (state : ExpressionNodes) :
    (g.operandRound trailing state c).Answers start (Round.Advances c) := by
  rw [Grammar.operandRound]
  dsimp only
  generalize hprefix : c.advanceBy _ = first
  have hfirst : c.Reaches first := ⟨_, hprefix.symm⟩
  apply (hg.operand (h.reaches hfirst) trailing).bind
  rintro ⟨_ | more, c₁⟩ hoperand
  · exact hfirst.trans hoperand
  · have hreaches₁ := hfirst.trans hoperand
    refine (answers_repeatRounds (fun state _ hmiddle => answers_castRound
      (h.reached.trans (hreaches₁.trans hmiddle)) state) ()).bind ?_
    rintro ⟨_, c₂⟩ hcasts
    have hreaches₂ := hreaches₁.trans hcasts
    dsimp only
    split
    · exact hreaches₂
    · rename_i lexeme hpeek
      have hpass := Cursor.Passes.of_reaches hreaches₂ (.advance hpeek)
      split
      · exact hreaches₂
      · split
        · apply (hg.expression ((h.reaches hreaches₂).inside hpeek) trailing).bind
          rintro ⟨e, later⟩ hlater
          dsimp only
          split
          · exact hpass.trans_reaches (hlater.trans (.advance later))
          · exact hpass.1.trans hlater
        · exact hpass

theorem Handles.expressionBody (hg : g.Handles start budget) (h : HasRoom start budget more c)
    (trailing : Bool) :
    (g.expressionBody trailing c).Answers start fun r => c.Reaches r.2 :=
  answers_repeatRounds (fun state _ hmiddle => hg.operandRound (h.reaches hmiddle) trailing state) _

end SourceLint.Grammar
