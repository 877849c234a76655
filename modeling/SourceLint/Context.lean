import SourceLint.LanguageVersion
import SourceLint.LineIndex
import SourceLint.Syntax.Snapshot

/-!
# What rules read

A rule reads a source text together with its snapshot and its lines, and nothing else.
-/

namespace SourceLint

/-- One source text as rules see it. -/
structure Context where
  source : String
  snapshot : Snapshot
  lines : LineIndex := LineIndex.ofString source
  languageVersion : LanguageVersion := .standard

namespace Context

/-- The text under a span, if it lies in the source and cuts no character. -/
def contents? (context : Context) (range : Span) : Option String := range.slice? context.source

/-- The tokens that lie within a span. -/
def tokensIn (context : Context) (range : Span) : List Token := context.snapshot.tokens.tokensIn range

/-- The filter accepts the tokens that share a byte with a span. -/
def accepts (context : Context) (filter : TokenFilter) (range : Span) : Bool :=
  filter.accepts (context.snapshot.tokens.kindsOverlapping range)

/-- The spans whose tokens the filter accepts. -/
def filterMatches (context : Context) (ranges : List Span) (filter : TokenFilter) : List Span :=
  ranges.filter (context.accepts filter)

end Context

end SourceLint
