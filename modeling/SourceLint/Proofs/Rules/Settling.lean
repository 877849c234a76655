import SourceLint.Proofs.Linter.Passes

/-!
# Commas settle in one pass

A pass that makes all corrections of the rule on commas leaves it nothing to report. The edits are made at
once and none of them needs to know of another one: spacing between two commas belongs to the first of them,
and whether a comma begins or ends its line is seen from characters that no edit touches. Comments and string
literals come out of the pass as they went in, so the rule looks at the same commas again.

## Main results

* `CommaSpacing.validate_apply_eq_nil`: the rule has nothing to report on its own corrected text.
-/

namespace SourceLint.CommaSpacing

variable (options : SeverityOptions) {source content : String} {snapshot snapshot' : Snapshot}
  {marks : List Mark} {placed : List PlacedLexeme}

/-- The corrections of the rule are the edits of all commas outside comments and string literals. -/
theorem filterMap_proposal?_validate (h : Shading 0 "" 1 marks placed)
    (hsource : source.toList = Mark.chars marks) (hsnapshot : Snapshot.ofSource source = .ok snapshot) :
    ((rule options).validate { source := source, snapshot := snapshot }).filterMap
      (Corrector.proposal? {}) = (edits (fun _ => false) 0 [] marks).map fun e => ⟨identifier, e⟩ := by
  let context : Context := { source := source, snapshot := snapshot }
  have htokens := h.tokens_of_ofSource hsource hsnapshot
  calc
    ((rule options).validate context).filterMap (Corrector.proposal? {})
        = (rule options).fileProposals {} (fun _ _ => false) context :=
          Rule.filterMap_proposal?_validate rfl {} context
    _ = (edits (fun _ => false) 0 [] marks).map fun e => ⟨identifier, e⟩ :=
          @fileProposals_rule context marks placed h hsource htokens rfl {} (fun _ _ => false) options

/-- Whatever the rule reports carries a correction. -/
theorem canFix_of_mem_validate {context : Context} {v : Violation}
    (hv : v ∈ (rule options).validate context) : Corrector.canFix {} v = true := by
  obtain ⟨e, -, rfl⟩ := List.mem_map.1 hv
  rfl

/-- After a pass that makes all corrections of the rule, the rule has nothing to report on the corrected
text, if this can be read. -/
theorem validate_apply_eq_nil (hsnapshot : Snapshot.ofSource source = .ok snapshot)
    (hcontent : (Corrector.apply {} source ((rule options).validate
      { source := source, snapshot := snapshot })).content = content)
    (hsnapshot' : Snapshot.ofSource content = .ok snapshot') :
    (rule options).validate { source := content, snapshot := snapshot' } = [] := by
  obtain ⟨marks, placed, hshading, hsource⟩ := Snapshot.exists_shading hsnapshot
  obtain ⟨marks', hrespaced⟩ := Respaced.exists_respaced (fun _ => false) none marks
  -- the corrected text is the respaced one, which is cut into lexemes again
  have hproposals := filterMap_proposal?_validate options hshading hsource hsnapshot
  have hchars := Corrector.content_of_respaced hsource identifier hproposals hrespaced
  rw [hcontent] at hchars
  obtain ⟨⟨placed', hshading', -⟩, hsettled, -⟩ := hrespaced.settles hshading
  have hnone := filterMap_proposal?_validate options hshading' hchars hsnapshot'
  rw [hsettled, List.map_nil, Corrector.filterMap_proposal?_eq_nil_iff] at hnone
  apply List.eq_nil_iff_forall_not_mem.2
  intro v hv
  have hcannot := hnone v hv
  rw [canFix_of_mem_validate options hv] at hcannot
  cases hcannot

/-- Commas in a row, at the beginning and the end of their lines, and in a literal and a comment. -/
theorem validate_apply_eq_nil_rows :
    let source := "f(a ,  ,b, ,\n  , \"c ,d\" ,\t\n  e\t,\tg) // h ,i,"
    let content := "f(a, , b, ,\n  , \"c ,d\",\t\n  e, g) // h ,i,"
    ∃ snapshot snapshot', Snapshot.ofSource source = .ok snapshot ∧
      ((rule {}).validate { source := source, snapshot := snapshot }).map Violation.offset =
        [3, 7, 23, 30] ∧
      (Corrector.apply {} source ((rule {}).validate
        { source := source, snapshot := snapshot })).content = content ∧
      Snapshot.ofSource content = .ok snapshot' ∧
      (rule {}).validate { source := content, snapshot := snapshot' } = [] := by
  intro source content
  have hrun : ((Snapshot.ofSource source).toOption.any fun snapshot =>
      (Snapshot.ofSource content).toOption.any fun _ =>
        ((rule {}).validate { source := source, snapshot := snapshot }).map Violation.offset ==
          [3, 7, 23, 30] &&
        (Corrector.apply {} source ((rule {}).validate
          { source := source, snapshot := snapshot })).content == content) = true := by
    decide +kernel
  obtain ⟨snapshot, hsnapshot, hrun⟩ := exists_of_toOption_any hrun
  obtain ⟨snapshot', hsnapshot', hrun⟩ := exists_of_toOption_any hrun
  rw [Bool.and_eq_true, beq_iff_eq, beq_iff_eq] at hrun
  exact ⟨snapshot, snapshot', hsnapshot, hrun.1, hrun.2, hsnapshot',
    validate_apply_eq_nil {} hsnapshot hrun.2 hsnapshot'⟩

end SourceLint.CommaSpacing
