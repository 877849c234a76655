import SourceLint.Config.Basic
import SourceLint.Config.Document
import SourceLint.Config.Options
import SourceLint.Context
import SourceLint.Correction.Corrector
import SourceLint.Correction.Edit
import SourceLint.Correction.Passes
import SourceLint.Directive
import SourceLint.Example
import SourceLint.Grammar.Cursor
import SourceLint.Grammar.Declaration
import SourceLint.Grammar.Expression
import SourceLint.Grammar.Skip
import SourceLint.Grammar.Source
import SourceLint.Grammar.Statement
import SourceLint.LanguageVersion
import SourceLint.LineIndex
import SourceLint.Linter
import SourceLint.Number.Binary64
import SourceLint.Number.Decimal
import SourceLint.Proofs.Basic
import SourceLint.Proofs.Bytes.Encoding
import SourceLint.Proofs.Bytes.Literals
import SourceLint.Proofs.Bytes.Scanning
import SourceLint.Proofs.Config.Conversion
import SourceLint.Proofs.Config.DefaultSections
import SourceLint.Proofs.Config.Loading
import SourceLint.Proofs.Config.Names
import SourceLint.Proofs.Config.Normal
import SourceLint.Proofs.Config.Reading
import SourceLint.Proofs.Config.Spelling
import SourceLint.Proofs.Correction.Acceptance
import SourceLint.Proofs.Correction.Composition
import SourceLint.Proofs.Correction.Independence
import SourceLint.Proofs.Correction.Rearranging
import SourceLint.Proofs.Correction.Splicing
import SourceLint.Proofs.Correction.Sweeping
import SourceLint.Proofs.Correction.Warning
import SourceLint.Proofs.Directives.Regions
import SourceLint.Proofs.Directives.Rows
import SourceLint.Proofs.Directives.SingleLines
import SourceLint.Proofs.Directives.Spelling
import SourceLint.Proofs.Grammar.Abreast.Alike
import SourceLint.Proofs.Grammar.Abreast.Basic
import SourceLint.Proofs.Grammar.Abreast.Closures
import SourceLint.Proofs.Grammar.Abreast.Cursors
import SourceLint.Proofs.Grammar.Abreast.Declarations
import SourceLint.Proofs.Grammar.Abreast.Expressions
import SourceLint.Proofs.Grammar.Abreast.Groups
import SourceLint.Proofs.Grammar.Abreast.Skipping
import SourceLint.Proofs.Grammar.Abreast.Statements
import SourceLint.Proofs.Grammar.Abreast.Thinning
import SourceLint.Proofs.Grammar.Closures
import SourceLint.Proofs.Grammar.Declarations
import SourceLint.Proofs.Grammar.Delimiters.Balance
import SourceLint.Proofs.Grammar.Delimiters.Basic
import SourceLint.Proofs.Grammar.Delimiters.Declarations
import SourceLint.Proofs.Grammar.Delimiters.Expressions
import SourceLint.Proofs.Grammar.Delimiters.Skipping
import SourceLint.Proofs.Grammar.Delimiters.Statements
import SourceLint.Proofs.Grammar.Embedding.Basic
import SourceLint.Proofs.Grammar.Embedding.Declarations
import SourceLint.Proofs.Grammar.Embedding.Expressions
import SourceLint.Proofs.Grammar.Embedding.Groups
import SourceLint.Proofs.Grammar.Embedding.Relocation
import SourceLint.Proofs.Grammar.Embedding.Skipping
import SourceLint.Proofs.Grammar.Embedding.Statements
import SourceLint.Proofs.Grammar.Entering
import SourceLint.Proofs.Grammar.Expressions
import SourceLint.Proofs.Grammar.Faults.Basic
import SourceLint.Proofs.Grammar.Faults.Declarations
import SourceLint.Proofs.Grammar.Faults.Expressions
import SourceLint.Proofs.Grammar.Faults.Skipping
import SourceLint.Proofs.Grammar.Faults.Source
import SourceLint.Proofs.Grammar.Faults.Statements
import SourceLint.Proofs.Grammar.Forming.Basic
import SourceLint.Proofs.Grammar.Forming.Declarations
import SourceLint.Proofs.Grammar.Forming.Expressions
import SourceLint.Proofs.Grammar.Forming.Places
import SourceLint.Proofs.Grammar.Forming.Spans
import SourceLint.Proofs.Grammar.Forming.Statements
import SourceLint.Proofs.Grammar.Harmless
import SourceLint.Proofs.Grammar.Joining
import SourceLint.Proofs.Grammar.Levels.Basic
import SourceLint.Proofs.Grammar.Levels.Declarations
import SourceLint.Proofs.Grammar.Levels.Expressions
import SourceLint.Proofs.Grammar.Levels.Statements
import SourceLint.Proofs.Grammar.Levels.Termination
import SourceLint.Proofs.Grammar.Levels.Unbounded
import SourceLint.Proofs.Grammar.Loops
import SourceLint.Proofs.Grammar.Reading
import SourceLint.Proofs.Grammar.Separators
import SourceLint.Proofs.Grammar.Skipping
import SourceLint.Proofs.Grammar.Statements
import SourceLint.Proofs.Grammar.Structure
import SourceLint.Proofs.Grammar.Terms.Printing
import SourceLint.Proofs.Grammar.Terms.Reading
import SourceLint.Proofs.LineEndings.FileRules
import SourceLint.Proofs.LineEndings.Lexemes
import SourceLint.Proofs.LineEndings.Literals
import SourceLint.Proofs.LineEndings.NodeRules
import SourceLint.Proofs.LineEndings.Reports
import SourceLint.Proofs.LineEndings.Structure
import SourceLint.Proofs.LineEndings.Text
import SourceLint.Proofs.Linter.Corrections
import SourceLint.Proofs.Linter.Dispatching
import SourceLint.Proofs.Linter.FileReports
import SourceLint.Proofs.Linter.Independence
import SourceLint.Proofs.Linter.Lines
import SourceLint.Proofs.Linter.Outline
import SourceLint.Proofs.Linter.Passes
import SourceLint.Proofs.Linter.Preservation
import SourceLint.Proofs.Linter.Separation
import SourceLint.Proofs.Rules.CommaSpacing
import SourceLint.Proofs.Rules.CommentLines
import SourceLint.Proofs.Rules.LineLength
import SourceLint.Proofs.Rules.OpenRemarks
import SourceLint.Proofs.Rules.Places
import SourceLint.Proofs.Rules.QuotedNames
import SourceLint.Proofs.Rules.Registration
import SourceLint.Proofs.Rules.Reports
import SourceLint.Proofs.Rules.Respacing
import SourceLint.Proofs.Rules.Selection
import SourceLint.Proofs.Rules.Settling
import SourceLint.Proofs.Rules.Tidying
import SourceLint.Proofs.Rules.TrailingSemicolon
import SourceLint.Proofs.Rules.Uncovering
import SourceLint.Proofs.Rules.UnownedCaptures
import SourceLint.Proofs.Rules.UnusedEnumerated
import SourceLint.Proofs.Rules.Verification
import SourceLint.Proofs.SortedTable
import SourceLint.Proofs.Spans
import SourceLint.Proofs.Syntax.Arrangement
import SourceLint.Proofs.Syntax.BlockComments
import SourceLint.Proofs.Syntax.Comments
import SourceLint.Proofs.Syntax.Composition
import SourceLint.Proofs.Syntax.Enclosed
import SourceLint.Proofs.Syntax.LexemeOrder
import SourceLint.Proofs.Syntax.Meeting
import SourceLint.Proofs.Syntax.Nesting
import SourceLint.Proofs.Syntax.Outline
import SourceLint.Proofs.Syntax.PlainLiterals
import SourceLint.Proofs.Syntax.Restarting
import SourceLint.Proofs.Syntax.Retouching
import SourceLint.Proofs.Syntax.Shading
import SourceLint.Proofs.Syntax.Stretches
import SourceLint.Proofs.Syntax.Tiling
import SourceLint.Proofs.Syntax.Traversal
import SourceLint.Proofs.Syntax.Unterminated
import SourceLint.Proofs.Syntax.Visible
import SourceLint.Proofs.Syntax.Walks
import SourceLint.Proofs.Text.Blanks
import SourceLint.Proofs.Text.Boundaries
import SourceLint.Proofs.Text.Lines
import SourceLint.Proofs.Text.Marks
import SourceLint.Proofs.Text.Occurrences
import SourceLint.Proofs.Text.Positions
import SourceLint.Proofs.Text.Remarks
import SourceLint.Proofs.Text.Searching
import SourceLint.Proofs.Versions
import SourceLint.Report
import SourceLint.Rule.Basic
import SourceLint.Rule.Registry
import SourceLint.Rule.Selection
import SourceLint.Rule.Verification
import SourceLint.Rules.CommaSpacing
import SourceLint.Rules.LineLength
import SourceLint.Rules.LiteralBrackets
import SourceLint.Rules.OpenRemark
import SourceLint.Rules.Standard
import SourceLint.Rules.TrailingSemicolon
import SourceLint.Rules.UnownedVariableCapture
import SourceLint.Rules.UnusedEnumerated
import SourceLint.Severity
import SourceLint.SortedTable
import SourceLint.Sorting
import SourceLint.Span
import SourceLint.Suppression
import SourceLint.Syntax.Error
import SourceLint.Syntax.Lexeme
import SourceLint.Syntax.Node
import SourceLint.Syntax.Snapshot
import SourceLint.Syntax.Token
import SourceLint.Syntax.Traversal
import SourceLint.Text.Blank
import SourceLint.Text.Occurrence
import SourceLint.Text.Offset
import SourceLint.Text.Quoted
import SourceLint.Text.Search
import SourceLint.Text.Slice
import SourceLint.Text.Word
import SourceLint.Toml.Document
import SourceLint.Toml.Json
import SourceLint.Toml.Scalar
import SourceLint.Toml.Text
import SourceLint.Toml.Tree
import SourceLint.Toml.Value
import SourceLint.Violation
