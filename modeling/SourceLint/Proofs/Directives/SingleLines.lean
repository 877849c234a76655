import SourceLint.Proofs.Directives.Regions

/-!
# Directives on regions and on single lines together

A rule is off on a line for one of two reasons: the region that the line lies in, or a directive that
singles the line out. Directives on single lines add up in any order, and one that stands on another line
or is about another line changes nothing. But the collected form writes `*` for all rules, and a directive
can name `*` as it can name any rule; on a single line it then turns every rule off, though it names one only.

## Main results

* `Suppression.isDisabled_iff`: when a rule is off on a line, in terms of the directives of the text.
* `Suppression.isDisabled_iff_of_names`: the same for lines that no directive singles out with the name `*`.
* `Suppression.isDisabled_star`: a directive that turns off a rule which it does not name.
-/

namespace SourceLint

namespace Directive

/-- Standing on the line `place`, the directive turns rules off on `line` and on no other line. -/
def SinglesOut (directive : Directive) (place line : Nat) : Prop :=
  ∃ target, directive.action = .disableLine target ∧ target.line? place = some line

/-- The directive names the rule, or it names none and stands for all. -/
def Concerns (directive : Directive) (rule : String) : Prop :=
  directive.rules = [] ∨ rule ∈ directive.rules

variable {directive : Directive} {place line : Nat} {rule : String}

theorem singlesOut_disableLine {target : Target} {rules : List String} :
    SinglesOut ⟨.disableLine target, rules⟩ place line ↔ target.line? place = some line := by
  constructor
  · rintro ⟨other, haction, hline⟩
    cases haction
    exact hline
  · intro hline
    exact ⟨target, rfl, hline⟩

/-- A directive on a region singles out no line. -/
theorem not_singlesOut (h : ∀ target, directive.action ≠ .disableLine target) :
    ¬directive.SinglesOut place line := by
  rintro ⟨target, haction, -⟩
  exact h target haction

/-- A directive that has the last word on a rule in a region names the rule or stands for all. -/
theorem concerns_of_governs (h : directive.governs rule = true) : directive.Concerns rule := by
  simp only [governs, Bool.and_eq_true, Bool.or_eq_true, List.isEmpty_iff, List.contains_iff_mem] at h
  exact h.2

end Directive

namespace Suppression

variable {source : String} {tokens : TokenStream} {sourceLength : Nat} {rule : String} {line : Nat}

/-! ### Regions -/

/-- Of the directives on lines before a line that are about regions and concern a rule, the last one turns
the rule off. -/
def LeavesOff (directives : List (Nat × Directive)) (rule : String) (line : Nat) : Prop :=
  ∃ last, (directives.filter fun x => x.1 < line && x.2.governs rule).getLast? = some last ∧
    last.2.action = .disable

/-- The region that a line lies in has the state that the directives before the line leave. -/
theorem isDisabled_regionAt (htokens : checkTokens sourceLength 0 0 tokens.toList = .ok ()) :
    ((ofTokens source tokens (.ofString source)).regionAt line).isDisabled rule = true ↔
      LeavesOff (directives source tokens (.ofString source)) rule line := by
  have hcollects : Collects (ofTokens source tokens (.ofString source)) _ :=
    .foldl_add (pairwise_directives htokens)
  simp only [hcollects.regionAt, stateBefore, RegionState.isDisabled_foldl_apply, List.filter_map,
    List.getLast?_map, Option.any_map, List.filter_filter, Option.any_eq_true, LeavesOff,
    Function.comp_def, beq_iff_eq, Bool.and_comm]

/-! ### Single lines -/

theorem singleLines_setState (s : Suppression) (line : Nat) (state : RegionState) :
    (s.setState line state).singleLines = s.singleLines := by
  simp only [setState]
  split
  · split
    · rfl
    · rfl
  · rfl

theorem isLineDisabled_disableLine (s : Suppression) (place : Nat) (rules : List String) :
    (s.disableLine place rules).isLineDisabled rule line = true ↔
      place = line ∧ (rules = [] ∨ rule ∈ rules ∨ "*" ∈ rules) ∨ s.isLineDisabled rule line = true := by
  cases rules with
  | nil => simp [disableLine, isLineDisabled]
  | cons name names => simp [disableLine, isLineDisabled, or_comm]

/-- One more directive turns a rule off on a single line when it singles the line out and names the rule,
no rule or `*`. -/
theorem isLineDisabled_add (s : Suppression) (place : Nat) (directive : Directive) :
    (s.add place directive).isLineDisabled rule line = true ↔
      directive.SinglesOut place line ∧ (directive.Concerns rule ∨ "*" ∈ directive.rules) ∨
        s.isLineDisabled rule line = true := by
  obtain ⟨action, rules⟩ := directive
  have hregion : ∀ state, (s.setState (place + 1) state).isLineDisabled rule line =
      s.isLineDisabled rule line := by
    intro state
    simp only [isLineDisabled, singleLines_setState]
  cases action with
  | disable => simp [add, hregion, Directive.not_singlesOut]
  | enable => simp [add, hregion, Directive.not_singlesOut]
  | disableLine target =>
      simp only [add, Directive.singlesOut_disableLine]
      cases target.line? place with
      | none => simp
      | some place' => simp [isLineDisabled_disableLine, Directive.Concerns, or_assoc]

/-- Directives on single lines add up. -/
theorem isLineDisabled_foldl_add (s : Suppression) (directives : List (Nat × Directive)) :
    (directives.foldl (fun s (line, directive) => s.add line directive) s).isLineDisabled rule line =
        true ↔
      (∃ x ∈ directives, x.2.SinglesOut x.1 line ∧ (x.2.Concerns rule ∨ "*" ∈ x.2.rules)) ∨
        s.isLineDisabled rule line = true := by
  induction directives generalizing s with
  | nil => simp
  | cons x directives ih =>
      rw [List.foldl_cons, ih, isLineDisabled_add, List.exists_mem_cons_iff, or_assoc]
      exact or_left_comm

/-! ### Both together -/

/-- A rule is off on a line exactly when the directives on regions before the line leave it off, or when some
directive singles the line out and names the rule, no rule at all or `*`. -/
theorem isDisabled_iff (htokens : checkTokens sourceLength 0 0 tokens.toList = .ok ()) :
    (ofTokens source tokens (.ofString source)).isDisabled rule line = true ↔
      LeavesOff (directives source tokens (.ofString source)) rule line ∨
      ∃ x ∈ directives source tokens (.ofString source),
        x.2.SinglesOut x.1 line ∧ (x.2.Concerns rule ∨ "*" ∈ x.2.rules) := by
  have hsingle : (ofTokens source tokens (.ofString source)).isLineDisabled rule line = true ↔ _ :=
    isLineDisabled_foldl_add {} _
  have hnone : ({} : Suppression).isLineDisabled rule line = false := rfl
  rw [isDisabled, Bool.or_eq_true, isDisabled_regionAt htokens, hsingle, hnone]
  simp only [Bool.false_eq_true, or_false]
  exact or_comm

/-- On a line that no directive singles out with the name `*`, a rule is off exactly when the directives on
regions before the line leave it off, or when some directive singles the line out and names the rule or no
rule at all. -/
theorem isDisabled_iff_of_names (htokens : checkTokens sourceLength 0 0 tokens.toList = .ok ())
    (hnames : ∀ x ∈ directives source tokens (.ofString source),
      x.2.SinglesOut x.1 line → "*" ∉ x.2.rules) :
    (ofTokens source tokens (.ofString source)).isDisabled rule line = true ↔
      LeavesOff (directives source tokens (.ofString source)) rule line ∨
      ∃ x ∈ directives source tokens (.ofString source), x.2.SinglesOut x.1 line ∧ x.2.Concerns rule := by
  rw [isDisabled_iff htokens]
  apply or_congr_right
  constructor
  · rintro ⟨x, hx, hline, hconcerns | hstar⟩
    · exact ⟨x, hx, hline, hconcerns⟩
    · exact absurd hstar (hnames x hx hline)
  · rintro ⟨x, hx, hline, hconcerns⟩
    exact ⟨x, hx, hline, .inl hconcerns⟩

/-- On such a line a rule is on when no directive names it and none stands for all rules. -/
theorem isDisabled_eq_false_of_not_concerns
    (htokens : checkTokens sourceLength 0 0 tokens.toList = .ok ())
    (hnames : ∀ x ∈ directives source tokens (.ofString source),
      x.2.SinglesOut x.1 line → "*" ∉ x.2.rules)
    (hrule : ∀ x ∈ directives source tokens (.ofString source), ¬x.2.Concerns rule) :
    (ofTokens source tokens (.ofString source)).isDisabled rule line = false := by
  rw [Bool.eq_false_iff, ne_eq, isDisabled_iff_of_names htokens hnames]
  rintro (⟨last, hlast, -⟩ | ⟨x, hx, -, hconcerns⟩)
  · obtain ⟨hmem, hgoverns⟩ := List.mem_filter.1 (List.mem_of_getLast? hlast)
    rw [Bool.and_eq_true] at hgoverns
    exact hrule last hmem (Directive.concerns_of_governs hgoverns.2)
  · exact hrule x hx hconcerns

/-- A directive names the rule `*` only, and all rules are off on its line. In a region the same name stands
for nothing but itself. -/
theorem isDisabled_star :
    let source := "f() // sift:disable:this *\n// sift:disable *\ng()"
    let tokens := TokenStream.ofList
      [⟨.identifier, ⟨0, 1⟩⟩, ⟨.comment, ⟨4, 22⟩⟩, ⟨.comment, ⟨27, 17⟩⟩, ⟨.identifier, ⟨45, 1⟩⟩]
    let suppression := ofTokens source tokens (.ofString source)
    checkTokens 48 0 0 tokens.toList = .ok () ∧
      directives source tokens (.ofString source) =
        [(1, ⟨.disableLine .this, ["*"]⟩), (2, ⟨.disable, ["*"]⟩)] ∧
      suppression.isDisabled "todo" 1 = true ∧ suppression.isDisabled "todo" 3 = false := by
  decide +kernel

end Suppression

end SourceLint
