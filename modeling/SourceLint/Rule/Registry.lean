import SourceLint.Linter
import SourceLint.Rule.Selection

/-!
# Known rules

A registry knows some rules, each under an identifier of its own: the rule with its default options,
and how it is built for a configuration. Rules are built and run in the order of their registration.
-/

namespace SourceLint

/-- A known rule, with its default options and for a configuration. -/
structure KnownRule where
  standard : Rule
  build : Config → Except ConfigError Rule

namespace KnownRule

def identifier (known : KnownRule) : String := known.standard.identifier

/-- A rule that only has options on severity. -/
def ofSeverity (rule : SeverityOptions → Rule) : KnownRule where
  standard := rule {}
  build config := (SeverityOptions.load config (rule {}).identifier).map rule

end KnownRule

/-- Known rules in the order of their registration. -/
structure Registry where
  known : List KnownRule := []
  distinct : (known.map KnownRule.identifier).Nodup := by decide

/-- An identifier that is already taken. -/
structure Registry.Duplicate where
  identifier : String
deriving DecidableEq, Repr

namespace Registry

def Duplicate.message (e : Duplicate) : String :=
  "rule identifier '" ++ e.identifier ++ "' is registered more than once"

def identifiers (registry : Registry) : List String := registry.known.map KnownRule.identifier

/-- Add a rule. Its identifier must not be taken. -/
def register (registry : Registry) (rule : KnownRule) : Except Duplicate Registry :=
  if taken : rule.identifier ∈ registry.identifiers then .error ⟨rule.identifier⟩
  else .ok {
    known := registry.known ++ [rule]
    distinct := by
      rw [List.map_append, List.nodup_append]
      refine ⟨registry.distinct, by simp, ?_⟩
      intro a ha b hb hab
      rw [List.map_singleton, List.mem_singleton] at hb
      exact taken (hb ▸ hab ▸ ha) }

/-- The rule with an identifier, with its default options. -/
def get? (registry : Registry) (identifier : String) : Option Rule :=
  (registry.known.find? fun known => known.identifier == identifier).map KnownRule.standard

/-- The default options of all rules that have some. -/
def defaultOptions (registry : Registry) : Toml.Table :=
  SortedTable.ofEntries (registry.known.filterMap fun known => known.standard.defaultSection)

/-- Build rules in their order. The first one that cannot be built is reported. -/
def buildAll (config : Config) : List KnownRule → Except ConfigError (List Rule)
  | [] => .ok []
  | known :: rest => do
    let rule ← known.build config
    return rule :: (← buildAll config rest)

/-- All rules for a configuration, whether they run or not. -/
def instantiate (registry : Registry) (config : Config) : Except ConfigError (List Rule) :=
  buildAll config registry.known

/-- The rules that run under a configuration. -/
def configure (registry : Registry) (config : Config) : Except ConfigError (List Rule) :=
  (registry.instantiate config).map (config.global.select config.languageVersion)

/-- What there is to say about names in a configuration that no rule has. -/
def warnings (registry : Registry) (config : Config) : List String :=
  (config.unknownRules registry.identifiers).map fun name =>
    "Unknown rule in configuration: " ++ name

/-- The linter for a configuration. -/
def linter (registry : Registry) (config : Config) : Except ConfigError Linter :=
  (registry.configure config).map fun rules =>
    { rules := rules, languageVersion := config.languageVersion }

end Registry

end SourceLint
