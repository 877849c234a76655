import Mathlib.Data.List.Induction
import SourceLint.Proofs.Rules.Reports

/-!
# Registration, and faults in the options of registered rules

A registry is filled by calls of `register`, of which those fail that come with an identifier that is
already taken. What a sequence of calls leaves is told by the first call with each identifier. When rules
are built for a configuration, the first one with malformed options is reported, and nothing but the tables
of the rules decides which one that is.
-/

namespace SourceLint

namespace Registry

variable {registry : Registry} {rule : KnownRule}

/-! ### Calls one after the other -/

theorem register_of_mem (h : rule.identifier ∈ registry.identifiers) :
    registry.register rule = .error ⟨rule.identifier⟩ :=
  dif_pos h

theorem register_of_not_mem (h : rule.identifier ∉ registry.identifiers) :
    ∃ larger, registry.register rule = .ok larger ∧ larger.known = registry.known ++ [rule] :=
  ⟨_, dif_neg h, rfl⟩

theorem register_eq_error_iff {taken : Duplicate} :
    registry.register rule = .error taken ↔
      rule.identifier ∈ registry.identifiers ∧ taken = ⟨rule.identifier⟩ := by
  by_cases h : rule.identifier ∈ registry.identifiers
  · simp [register_of_mem h, h, eq_comm]
  · obtain ⟨larger, hlarger, -⟩ := register_of_not_mem h
    simp [hlarger, h]

/-- The registry behind a call of `register`: the new one, or the old one if the call fails. -/
def after (registry : Registry) (rule : KnownRule) : Registry :=
  match registry.register rule with
  | .ok larger => larger
  | .error _ => registry

/-- The registry behind some calls, the first of them on a registry without rules. -/
def ofCalls (calls : List KnownRule) : Registry := calls.foldl after {}

theorem ofCalls_append_singleton (calls : List KnownRule) (rule : KnownRule) :
    ofCalls (calls ++ [rule]) = (ofCalls calls).after rule := by
  simp [ofCalls]

theorem after_of_mem (h : rule.identifier ∈ registry.identifiers) : registry.after rule = registry := by
  simp [after, register_of_mem h]

theorem known_after (registry : Registry) (rule : KnownRule) :
    (registry.after rule).known =
      if rule.identifier ∈ registry.identifiers then registry.known else registry.known ++ [rule] := by
  split
  · rename_i h
    rw [after_of_mem h]
  · rename_i h
    obtain ⟨larger, hlarger, hknown⟩ := register_of_not_mem h
    simp [after, hlarger, hknown]

/-! ### What calls leave -/

theorem identifiers_after (registry : Registry) (rule : KnownRule) :
    (registry.after rule).identifiers =
      if rule.identifier ∈ registry.identifiers then registry.identifiers
      else registry.identifiers ++ [rule.identifier] := by
  rw [identifiers, known_after]
  split
  · rfl
  · rw [List.map_append, List.map_singleton]
    rfl

theorem identifiers_ofCalls (calls : List KnownRule) :
    (ofCalls calls).identifiers = (calls.map KnownRule.identifier).eraseDups := by
  induction calls using List.reverseRecOn with
  | nil => rfl
  | append_singleton calls rule ih =>
      have htaken : rule.identifier ∈ (ofCalls calls).identifiers ↔
          rule.identifier ∈ calls.map KnownRule.identifier := by
        rw [ih, List.mem_eraseDups]
      rw [ofCalls_append_singleton, identifiers_after, List.map_append, List.map_singleton,
        List.eraseDups_append, ← ih]
      split
      · rename_i h
        have hrest : [rule.identifier].removeAll (calls.map KnownRule.identifier) = [] := by
          simpa [List.removeAll] using htaken.1 h
        rw [hrest, List.eraseDups_nil, List.append_nil]
      · rename_i h
        have hrest : [rule.identifier].removeAll (calls.map KnownRule.identifier) =
            [rule.identifier] := by
          simpa [List.removeAll] using fun hmem => h (htaken.2 hmem)
        rw [hrest, List.eraseDups_cons, List.filter_nil, List.eraseDups_nil]

theorem find?_known_ofCalls (calls : List KnownRule) (identifier : String) :
    (ofCalls calls).known.find? (fun rule => rule.identifier == identifier) =
      calls.find? fun rule => rule.identifier == identifier := by
  induction calls using List.reverseRecOn with
  | nil => rfl
  | append_singleton calls rule ih =>
      rw [ofCalls_append_singleton, known_after, List.find?_append, ← ih]
      split
      · rename_i htaken
        -- a call that fails comes behind the one that took the identifier
        by_cases hrule : rule.identifier = identifier
        · obtain ⟨first, hfirst, hidentifier⟩ := List.mem_map.1 htaken
          have hfound : ((ofCalls calls).known.find? fun rule => rule.identifier == identifier).isSome := by
            rw [List.find?_isSome]
            exact ⟨first, hfirst, by simpa using hidentifier.trans hrule⟩
          rw [Option.or_of_isSome hfound]
        · simp [hrule]
      · rw [List.find?_append]

theorem get?_ofCalls (calls : List KnownRule) (identifier : String) :
    (ofCalls calls).get? identifier =
      (calls.find? fun rule => rule.identifier == identifier).map KnownRule.standard := by
  rw [get?, find?_known_ofCalls]

/-- Every registry comes about by calls, one for each of its rules. -/
theorem ofCalls_known (registry : Registry) : ofCalls registry.known = registry := by
  obtain ⟨known, hdistinct⟩ := registry
  have hknown : (ofCalls known).known = known := by
    induction known using List.reverseRecOn with
    | nil => rfl
    | append_singleton known rule ih =>
        obtain ⟨hdistinct, -, hfresh⟩ := List.nodup_append.1 (List.map_append ▸ hdistinct)
        have hfree : rule.identifier ∉ (ofCalls known).identifiers := by
          intro hmem
          rw [identifiers, ih hdistinct] at hmem
          exact hfresh _ hmem _ (List.mem_singleton.2 rfl) rfl
        rw [ofCalls_append_singleton, known_after, if_neg hfree, ih hdistinct]
  cases hcalls : ofCalls known with
  | mk found _ =>
      rw [hcalls] at hknown
      simpa using hknown

/-! ### Building the rules of a registry -/

/-- The first rule, in the order of registration, that cannot be built for the configuration fails with the
error. -/
def FirstFault (registry : Registry) (config : Config) (e : ConfigError) : Prop :=
  ∃ front rule behind, registry.known = front ++ rule :: behind ∧
    (∀ earlier ∈ front, ∃ built, earlier.build config = .ok built) ∧ rule.build config = .error e

/-- Either all rules are built, or the first one that fails is told. -/
theorem buildAll_cases (config : Config) (knowns : List KnownRule) :
    (∃ rules, buildAll config knowns = .ok rules ∧
      ∀ rule ∈ knowns, ∃ built, rule.build config = .ok built) ∨
    ∃ front rule behind e, knowns = front ++ rule :: behind ∧
      (∀ earlier ∈ front, ∃ built, earlier.build config = .ok built) ∧
      rule.build config = .error e ∧ buildAll config knowns = .error e := by
  induction knowns with
  | nil => exact .inl ⟨[], rfl, by simp⟩
  | cons known knowns ih =>
      cases hknown : known.build config with
      | error e =>
          refine .inr ⟨[], known, knowns, e, rfl, by simp, hknown, ?_⟩
          simp [buildAll, hknown, bind, Except.bind]
      | ok built =>
          rcases ih with ⟨rules, hrules, hall⟩ | ⟨front, rule, behind, e, rfl, hfront, hrule, hfault⟩
          · refine .inl ⟨built :: rules, ?_, List.forall_mem_cons.2 ⟨⟨built, hknown⟩, hall⟩⟩
            simp [buildAll, hknown, hrules, bind, Except.bind, pure, Except.pure]
          · refine .inr ⟨known :: front, rule, behind, e, rfl,
              List.forall_mem_cons.2 ⟨⟨built, hknown⟩, hfront⟩, hrule, ?_⟩
            simp [buildAll, hknown, hfault, bind, Except.bind]

theorem buildAll_congr {config config' : Config} {knowns : List KnownRule}
    (h : ∀ rule ∈ knowns, rule.build config = rule.build config') :
    buildAll config knowns = buildAll config' knowns := by
  induction knowns with
  | nil => rfl
  | cons known knowns ih =>
      obtain ⟨hknown, hrest⟩ := List.forall_mem_cons.1 h
      rw [buildAll, buildAll, hknown, ih hrest]

end Registry

/-- The rule is built from nothing but its own table. -/
def KnownRule.ReadsOwnTable (rule : KnownRule) : Prop :=
  ∀ config config' : Config, config.rule? rule.identifier = config'.rule? rule.identifier →
    rule.build config = rule.build config'

theorem Options.load_congr {γ α : Type} {withField : γ → String × Json → Except OptionFault γ}
    {start : γ} {complete : γ → α} {config config' : Config} {rule : String}
    (h : config.rule? rule = config'.rule? rule) :
    load withField start complete config rule = load withField start complete config' rule := by
  rw [load, load, h]

theorem KnownRule.readsOwnTable_ofSeverity (make : SeverityOptions → Rule) :
    (KnownRule.ofSeverity make).ReadsOwnTable := by
  intro config config' h
  exact congrArg (Except.map make) (Options.load_congr h)

theorem LineLength.readsOwnTable_known : LineLength.known.ReadsOwnTable := by
  intro config config' h
  exact congrArg (Except.map LineLength.rule) (Options.load_congr h)

namespace Registry

theorem readsOwnTable_standard : ∀ rule ∈ standard.known, rule.ReadsOwnTable := by
  rw [standard]
  simp only [List.forall_mem_cons]
  exact ⟨KnownRule.readsOwnTable_ofSeverity _, KnownRule.readsOwnTable_ofSeverity _,
    KnownRule.readsOwnTable_ofSeverity _, KnownRule.readsOwnTable_ofSeverity _,
    KnownRule.readsOwnTable_ofSeverity _, KnownRule.readsOwnTable_ofSeverity _,
    LineLength.readsOwnTable_known, by simp⟩

/-- Whether a registry can be configured, and the fault otherwise, is decided by the tables of its rules. -/
theorem configure_cases {registry : Registry} (hreads : ∀ rule ∈ registry.known, rule.ReadsOwnTable)
    {config config' : Config}
    (htables : ∀ identifier ∈ registry.identifiers, config.rule? identifier = config'.rule? identifier) :
    (∃ e, registry.FirstFault config e ∧ registry.configure config = .error e ∧
      registry.configure config' = .error e) ∨
    ((∀ rule ∈ registry.known, ∃ built, rule.build config = .ok built) ∧
      (∃ rules, registry.configure config = .ok rules) ∧
      ∃ rules, registry.configure config' = .ok rules) := by
  have hsame : registry.instantiate config' = registry.instantiate config := by
    apply buildAll_congr
    intro rule hrule
    exact (hreads rule hrule _ _ (htables _ (List.mem_map_of_mem hrule))).symm
  rcases buildAll_cases config registry.known with
    ⟨rules, hrules, hall⟩ | ⟨front, rule, behind, e, hknown, hfront, hrule, hfault⟩
  · refine .inr ⟨hall, ?_, ?_⟩
    · exact ⟨_, exceptMap_eq_ok_iff.2 ⟨rules, hrules, rfl⟩⟩
    · exact ⟨_, exceptMap_eq_ok_iff.2 ⟨rules, hsame.trans hrules, rfl⟩⟩
  · refine .inl ⟨e, ⟨front, rule, behind, hknown, hfront, hrule⟩, ?_, ?_⟩
    · exact exceptMap_eq_error_iff.2 hfault
    · exact exceptMap_eq_error_iff.2 (hsame.trans hfault)

/-- A call of `register` fails exactly when the identifier is taken, and then changes nothing. Behind any
calls the identifiers are those of the calls, each where it came first, and the rule under an identifier is
the one that came first. Every registry comes about by calls. When its rules are built from their own tables only, as
all standard rules are, then configurations with equal tables for them either both give rules, or both fail
with the fault of the first rule that has one, whatever their global options are. -/
theorem registration_spec :
    (∀ (calls : List KnownRule) (rule : KnownRule),
      (∀ taken, (ofCalls calls).register rule = .error taken ↔
        rule.identifier ∈ (ofCalls calls).identifiers ∧ taken = ⟨rule.identifier⟩) ∧
      (rule.identifier ∈ (ofCalls calls).identifiers → ofCalls (calls ++ [rule]) = ofCalls calls) ∧
      (rule.identifier ∉ (ofCalls calls).identifiers →
        (ofCalls calls).register rule = .ok (ofCalls (calls ++ [rule])))) ∧
    (∀ calls : List KnownRule,
      (ofCalls calls).identifiers = (calls.map KnownRule.identifier).eraseDups ∧
      (ofCalls calls).identifiers.Nodup ∧
      ∀ identifier, (ofCalls calls).get? identifier =
        (calls.find? fun rule => rule.identifier == identifier).map KnownRule.standard) ∧
    (∀ rule ∈ standard.known, rule.ReadsOwnTable) ∧
    ∀ registry : Registry, ofCalls registry.known = registry ∧
      ((∀ rule ∈ registry.known, rule.ReadsOwnTable) → ∀ config config' : Config,
        (∀ identifier ∈ registry.identifiers, config.rule? identifier = config'.rule? identifier) →
        (∃ e, registry.FirstFault config e ∧ registry.configure config = .error e ∧
          registry.configure config' = .error e) ∨
        ((∀ rule ∈ registry.known, ∃ built, rule.build config = .ok built) ∧
          (∃ rules, registry.configure config = .ok rules) ∧
          ∃ rules, registry.configure config' = .ok rules)) := by
  refine ⟨fun calls rule => ⟨fun taken => register_eq_error_iff, ?_, ?_⟩, ?_,
    readsOwnTable_standard, ?_⟩
  · intro htaken
    rw [ofCalls_append_singleton, after_of_mem htaken]
  · intro hfree
    obtain ⟨larger, hlarger, -⟩ := register_of_not_mem hfree
    rw [ofCalls_append_singleton, after, hlarger]
  · intro calls
    exact ⟨identifiers_ofCalls calls, (ofCalls calls).distinct, get?_ofCalls calls⟩
  · intro registry
    constructor
    · exact ofCalls_known registry
    · intro hreads config config' htables
      exact configure_cases hreads htables

/-- One rule is registered twice, and its severity is malformed in two configurations, of which one disables
all rules. -/
theorem registration_spec_twice :
    ∃ (remark : KnownRule) (registry : Registry) (config config' : Config),
      registry = ofCalls [remark, LineLength.known] ∧
      registry.register remark = .error ⟨"todo"⟩ ∧
      ofCalls [remark, LineLength.known, remark] = registry ∧
      registry.identifiers = ["todo", "line-length"] ∧
      config.global.disable = [] ∧ config'.global.disable = ["all"] ∧
      registry.configure config = .error (.invalidOption "todo" (.unknownSeverity "fatal")) ∧
      registry.configure config' = .error (.invalidOption "todo" (.unknownSeverity "fatal")) := by
  let remark := KnownRule.ofSeverity OpenRemark.rule
  let registry := ofCalls [remark, LineLength.known]
  let config : Config := {
    rules := [("line-length", [("warning", .integer 0)]), ("todo", [("severity", .string "fatal")])] }
  let config' : Config := { config with global := { disable := ["all"] } }
  obtain ⟨hcalls, -, -, hconfigure⟩ := registration_spec
  obtain ⟨hfails, hkeeps, -⟩ := hcalls [remark, LineLength.known] remark
  have htaken : remark.identifier ∈ registry.identifiers := by decide
  have hreads : ∀ rule ∈ registry.known, rule.ReadsOwnTable := by
    rw [show registry.known = [remark, LineLength.known] from rfl]
    simp only [List.forall_mem_cons]
    exact ⟨KnownRule.readsOwnTable_ofSeverity _, LineLength.readsOwnTable_known, by simp⟩
  have hfault : registry.configure config =
      .error (.invalidOption "todo" (.unknownSeverity "fatal")) := rfl
  refine ⟨remark, registry, config, config', rfl, (hfails _).2 ⟨htaken, rfl⟩, hkeeps htaken,
    by decide, rfl, rfl, hfault, ?_⟩
  rcases (hconfigure registry).2 hreads config config' fun _ _ => rfl with
    ⟨e, -, he, he'⟩ | ⟨-, ⟨rules, hrules⟩, -⟩
  · obtain rfl := Except.error.inj (hfault.symm.trans he)
    exact he'
  · rw [hfault] at hrules
    cases hrules

end Registry

end SourceLint
