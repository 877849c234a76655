import SourceLint.Proofs.Basic
import SourceLint.Proofs.Linter.Dispatching
import SourceLint.Rules.Standard

/-!
# What the standard rules report

Every standard rule puts its own name on its violations, whatever its options are, and all but two of them
never correct anything.
-/

namespace SourceLint

/-! ### Violations without corrections -/

/-- The violation has the name of the rule and no correction. -/
structure Violation.IsRemark (v : Violation) (identifier : String) : Prop where
  rule_eq : v.rule = identifier
  correction_eq : v.correction = none

theorem UnusedEnumerated.isRemark_of_mem {severity : Severity} {context : Context} {node : Node}
    {v : Violation} (h : v ∈ violations severity context node) : v.IsRemark identifier := by
  rw [violations] at h
  split at h
  · split at h
    · obtain ⟨found, -, rfl⟩ := Option.map_eq_some_iff.1 (Option.mem_toList.1 h)
      exact ⟨rfl, rfl⟩
    · cases h
  · cases h

theorem UnownedVariableCapture.isRemark_of_mem {severity : Severity} {context : Context}
    {node : Node} {v : Violation} (h : v ∈ violations severity context node) :
    v.IsRemark identifier := by
  rw [violations] at h
  split at h
  · obtain ⟨modifier, -, rfl⟩ := List.mem_map.1 h
    exact ⟨rfl, rfl⟩
  · cases h

theorem LiteralBrackets.isRemark_of_mem {severity : Severity} {context : Context} {node : Node}
    {v : Violation} (h : v ∈ violations severity context node) : v.IsRemark identifier := by
  rw [violations] at h
  split at h
  · split at h
    · unfold violationsIn at h
      simp only at h
      split at h
      · rcases List.mem_append.1 h with h | h
        · split at h
          · cases h
          · rw [List.mem_singleton.1 h]
            exact ⟨rfl, rfl⟩
        · split at h
          · cases h
          · rw [List.mem_singleton.1 h]
            exact ⟨rfl, rfl⟩
      · cases h
    · cases h
  · cases h

theorem OpenRemark.isRemark_of_mem {severity : Severity} {context : Context} {v : Violation}
    (h : v ∈ violations severity context) : v.IsRemark identifier := by
  obtain ⟨marker, -, rfl⟩ := List.mem_map.1 h
  exact ⟨rfl, rfl⟩

theorem LineLength.isRemark_of_mem {options : LineLengthOptions} {context : Context}
    {v : Violation} (h : v ∈ violations options context) : v.IsRemark identifier := by
  obtain ⟨line, -, rfl⟩ := List.mem_map.1 h
  exact ⟨rfl, rfl⟩

/-! ### Names -/

theorem TrailingSemicolon.rule_eq_of_mem {severity : Severity} {context : Context} {v : Violation}
    (h : v ∈ violations severity context) : v.rule = identifier := by
  obtain ⟨run, -, rfl⟩ := List.mem_map.1 h
  rfl

theorem CommaSpacing.rule_eq_of_mem {severity : Severity} {context : Context} {v : Violation}
    (h : v ∈ violations severity context) : v.rule = identifier := by
  obtain ⟨correction, -, rfl⟩ := List.mem_map.1 h
  rfl

namespace Rule

/-- The rule puts its own name on whatever it reports. -/
structure SignsReports (rule : Rule) : Prop where
  file : ∀ context, ∀ v ∈ rule.fileViolations context, v.rule = rule.identifier
  node : ∀ context node, ∀ v ∈ rule.nodeViolations context node, v.rule = rule.identifier

theorem SignsReports.visit {rule : Rule} (h : rule.SignsReports) (context : Context) (node : Node) :
    ∀ v ∈ rule.visit context node, v.rule = rule.identifier := by
  intro v hv
  exact h.node context node v (mem_nodeViolations_of_mem_visit hv)

theorem SignsReports.ofFile {rule : Rule} {run : Context → List Violation}
    (hcheck : rule.check = .file run) (h : ∀ context, ∀ v ∈ run context, v.rule = rule.identifier) :
    rule.SignsReports where
  file := by simpa [fileViolations, hcheck] using h
  node := by simp [nodeViolations, hcheck]

theorem SignsReports.ofNodes {rule : Rule} {kinds : List NodeKind}
    {run : Context → Node → List Violation} (hcheck : rule.check = .nodes kinds run)
    (h : ∀ context node, ∀ v ∈ run context node, v.rule = rule.identifier) : rule.SignsReports where
  file := by simp [fileViolations, hcheck]
  node := by simpa [nodeViolations, hcheck] using h

end Rule

/-! ### The rules of a configuration -/

/-- Whatever the configuration is, the known rule is built with its own identifier, and it signs what it
reports. -/
def KnownRule.Signs (known : KnownRule) : Prop :=
  ∀ config rule, known.build config = .ok rule →
    rule.identifier = known.identifier ∧ rule.SignsReports

theorem KnownRule.Signs.ofSeverity {make : SeverityOptions → Rule}
    (hidentifier : ∀ options, (make options).identifier = (make {}).identifier)
    (hsigns : ∀ options, (make options).SignsReports) : (KnownRule.ofSeverity make).Signs := by
  intro config rule h
  obtain ⟨options, -, rfl⟩ := exceptMap_eq_ok_iff.1 h
  exact ⟨hidentifier options, hsigns options⟩

namespace Registry

theorem buildAll_cons {config : Config} {known : KnownRule} {rest : List KnownRule}
    {rules : List Rule} (h : buildAll config (known :: rest) = .ok rules) :
    ∃ rule later, known.build config = .ok rule ∧ buildAll config rest = .ok later ∧
      rules = rule :: later := by
  rw [buildAll] at h
  cases hrule : known.build config with
  | error e =>
      rw [hrule] at h
      cases h
  | ok rule =>
      cases hlater : buildAll config rest with
      | error e =>
          rw [hrule, hlater] at h
          cases h
      | ok later =>
          rw [hrule, hlater] at h
          exact ⟨rule, later, rfl, rfl, (Except.ok.inj h).symm⟩

/-- What holds of each known rule when it is built holds of all rules that are built. -/
theorem forall_of_buildAll {P : Rule → Prop} {config : Config} {knowns : List KnownRule}
    {rules : List Rule} (hknowns : ∀ known ∈ knowns, ∀ rule, known.build config = .ok rule → P rule)
    (h : buildAll config knowns = .ok rules) : ∀ rule ∈ rules, P rule := by
  induction knowns generalizing rules with
  | nil =>
      obtain rfl := Except.ok.inj h
      simp
  | cons known knowns ih =>
      obtain ⟨rule, later, hrule, hlater, rfl⟩ := buildAll_cons h
      obtain ⟨hknown, hrest⟩ := List.forall_mem_cons.1 hknowns
      rw [List.forall_mem_cons]
      constructor
      · exact hknown rule hrule
      · exact ih hrest hlater

/-- Known rules that sign their reports are built under their identifiers, in their order. -/
theorem signs_of_buildAll {config : Config} {knowns : List KnownRule} {rules : List Rule}
    (hknowns : ∀ known ∈ knowns, known.Signs) (h : buildAll config knowns = .ok rules) :
    rules.map Rule.identifier = knowns.map KnownRule.identifier ∧
      ∀ rule ∈ rules, rule.SignsReports := by
  constructor
  · induction knowns generalizing rules with
    | nil =>
        obtain rfl := Except.ok.inj h
        rfl
    | cons known knowns ih =>
        obtain ⟨rule, later, hrule, hlater, rfl⟩ := buildAll_cons h
        obtain ⟨hknown, hrest⟩ := List.forall_mem_cons.1 hknowns
        rw [List.map_cons, List.map_cons, (hknown config rule hrule).1, ih hrest hlater]
  · exact forall_of_buildAll (fun known hknown rule hrule => (hknowns known hknown config rule hrule).2) h

theorem signs_standard : ∀ known ∈ standard.known, known.Signs := by
  rw [standard]
  simp only [List.forall_mem_cons]
  refine ⟨.ofSeverity (fun _ => rfl) fun _ => .ofNodes rfl fun _ _ _ h =>
      (UnusedEnumerated.isRemark_of_mem h).rule_eq,
    .ofSeverity (fun _ => rfl) fun _ => .ofNodes rfl fun _ _ _ h =>
      (UnownedVariableCapture.isRemark_of_mem h).rule_eq,
    .ofSeverity (fun _ => rfl) fun _ => .ofNodes rfl fun _ _ _ h =>
      (LiteralBrackets.isRemark_of_mem h).rule_eq,
    .ofSeverity (fun _ => rfl) fun _ => .ofFile rfl fun _ _ h =>
      TrailingSemicolon.rule_eq_of_mem h,
    .ofSeverity (fun _ => rfl) fun _ => .ofFile rfl fun _ _ h => CommaSpacing.rule_eq_of_mem h,
    .ofSeverity (fun _ => rfl) fun _ => .ofFile rfl fun _ _ h =>
      (OpenRemark.isRemark_of_mem h).rule_eq, ?_, by simp⟩
  intro config rule h
  obtain ⟨options, -, rfl⟩ := exceptMap_eq_ok_iff.1 h
  exact ⟨rfl, .ofFile rfl fun _ _ h => (LineLength.isRemark_of_mem h).rule_eq⟩

end Registry

/-- The rules of a linter with a configuration have names of their own and sign what they report. -/
theorem Linter.signs_of_ofConfig {config : Config} {linter : Linter}
    (h : Linter.ofConfig config = .ok linter) :
    (linter.rules.map Rule.identifier).Nodup ∧ ∀ rule ∈ linter.rules, rule.SignsReports := by
  obtain ⟨rules, hrules, rfl⟩ := exceptMap_eq_ok_iff.1 h
  obtain ⟨all, hall, rfl⟩ := exceptMap_eq_ok_iff.1 hrules
  obtain ⟨hidentifiers, hsigns⟩ := Registry.signs_of_buildAll Registry.signs_standard hall
  have hdistinct : (all.map Rule.identifier).Nodup := hidentifiers ▸ Registry.standard.distinct
  exact ⟨hdistinct.sublist (List.filter_sublist.map _),
    fun rule hrule => hsigns rule (List.mem_filter.1 hrule).1⟩

end SourceLint
