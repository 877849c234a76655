import SourceLint.Correction.Corrector
import SourceLint.Rule.Registry
import SourceLint.Rules.CommaSpacing
import SourceLint.Rules.LineLength
import SourceLint.Rules.LiteralBrackets
import SourceLint.Rules.OpenRemark
import SourceLint.Rules.TrailingSemicolon
import SourceLint.Rules.UnownedVariableCapture
import SourceLint.Rules.UnusedEnumerated

/-!
# The standard rules

The rules that every linter knows, in the order in which they run.
-/

namespace SourceLint

/-- The rule on the length of lines. -/
def LineLength.known : KnownRule where
  standard := rule {}
  build config := (LineLengthOptions.load config identifier).map rule

/-- The standard rules. -/
def Registry.standard : Registry where
  known := [
    .ofSeverity UnusedEnumerated.rule,
    .ofSeverity UnownedVariableCapture.rule,
    .ofSeverity LiteralBrackets.rule,
    .ofSeverity TrailingSemicolon.rule,
    .ofSeverity CommaSpacing.rule,
    .ofSeverity OpenRemark.rule,
    LineLength.known]

/-- The linter with the standard rules for a configuration. -/
def Linter.ofConfig (config : Config) : Except ConfigError Linter := Registry.standard.linter config

/-- The corrector for a configuration. -/
def Corrector.ofConfig (config : Config) : Corrector := ⟨config.global.unfixable⟩

end SourceLint
