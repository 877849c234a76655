import SourceLint.Rule.Basic

/-!
# Which rules run

The global options of a configuration select rules. A list under `only` names them all. Otherwise the
rules that are not opt-in run, and those that are run if they are enabled. Disabled rules do not run;
disabling `all` disables every rule that is not named. A rule that needs a newer version of the
language never runs.
-/

namespace SourceLint.GlobalOptions

/-- The options name the rule under `enable` or `only`. -/
def names (options : GlobalOptions) (identifier : String) : Bool :=
  options.enable.contains identifier || options.only.contains identifier

/-- The options ask for the rule. -/
def wants (options : GlobalOptions) (d : Description) : Bool :=
  if options.only.isEmpty then
    !d.isOptIn || options.enable.contains "all" || options.enable.contains d.identifier
  else options.only.contains d.identifier

/-- The options turn the rule off. -/
def removes (options : GlobalOptions) (identifier : String) : Bool :=
  options.disable.contains identifier ||
    options.disable.contains "all" && !options.names identifier

/-- The rule runs under the options, in a given version of the language. -/
def selects (options : GlobalOptions) (version : LanguageVersion) (rule : Rule) : Bool :=
  options.wants rule.description && !options.removes rule.identifier &&
    rule.description.minimumVersion.all fun minimum => minimum.isAtMost version

/-- The rules that run, in their order. -/
def select (options : GlobalOptions) (version : LanguageVersion) (rules : List Rule) : List Rule :=
  rules.filter (options.selects version)

end SourceLint.GlobalOptions
