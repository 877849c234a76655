import SourceLint.Grammar.Statement
import SourceLint.Syntax.Snapshot

/-!
# The structure of a source text

A source text is cut into lexemes, the lexemes that are no comments are read as a file, and the
forest and the tokens are put together as a snapshot. Either the whole text has a structure or there
is an error.
-/

namespace SourceLint

/-- The snapshot of a source text. -/
def Snapshot.ofSource (source : String) : Except SyntaxError Snapshot := do
  let lexemes ← Lexeme.ofSource source
  let tokens := TokenStream.ofList (lexemes.filterMap Lexeme.token?)
  match Grammar.file (Lexeme.significant "" lexemes) source.utf8ByteSize with
  | .ok forest => Snapshot.assemble forest tokens source.utf8ByteSize
  | .error (.fault error) => .error error
  | .error .exhausted => .error (.unexpected "" source.utf8ByteSize)

end SourceLint
