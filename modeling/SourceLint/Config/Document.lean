import SourceLint.Config.Basic
import SourceLint.Toml.Document

/-!
# Configuration documents

A configuration is written as a TOML document.
-/

namespace SourceLint

/-- The configuration that a TOML document holds. -/
def Config.ofDocument (text : String) : Except Config.Fault Config :=
  match Toml.Table.ofDocument? text with
  | some table => ofTable table
  | none => .error .noDocument

end SourceLint
