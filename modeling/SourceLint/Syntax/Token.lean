import SourceLint.Span
import SourceLint.Text.Search

/-!
# Tokens of a source text

The words of a source text with their lexical kinds. Punctuation gives no token. The tokens of a
file come in source order and do not overlap, so both their starts and their ends ascend and the
tokens under a span form one stretch, which two binary searches find.
-/

namespace SourceLint

/-- The lexical kind of a token. Numbers, attributes and compiler directives are `other`. -/
inductive TokenKind where
  | keyword
  | identifier
  | string
  | comment
  | other
deriving DecidableEq, Repr, Inhabited

structure Token where
  kind : TokenKind
  span : Span
deriving DecidableEq, Repr, Inhabited

/-- The text of a token in its source. -/
def Token.text? (token : Token) (source : String) : Option String := token.span.slice? source

/-- The tokens of one file in source order. -/
structure TokenStream where
  tokens : Array Token
deriving DecidableEq, Repr, Inhabited

namespace TokenStream

def ofList (tokens : List Token) : TokenStream := ⟨tokens.toArray⟩

def toList (stream : TokenStream) : List Token := stream.tokens.toList

/-- The tokens that lie within a span. -/
def tokensIn (stream : TokenStream) (range : Span) : List Token :=
  let start := partitionPoint stream.tokens fun t => t.span.location < range.location
  let later := stream.tokens.extract start stream.tokens.size
  let count := partitionPoint later fun t => t.span.stop ≤ range.stop
  later.toList.take count

/-- The tokens that share a byte with a span. -/
def overlapping (stream : TokenStream) (range : Span) : List Token :=
  if range.isEmpty then []
  else
    let start := partitionPoint stream.tokens fun t => t.span.stop ≤ range.location
    let stop := partitionPoint stream.tokens fun t => t.span.location < range.stop
    (stream.tokens.extract start stop).toList

/-- The kinds of the tokens that share a byte with a span. -/
def kindsOverlapping (stream : TokenStream) (range : Span) : List TokenKind :=
  (stream.overlapping range).map Token.kind

end TokenStream

/-- A test on the kinds of the tokens under a match. -/
inductive TokenFilter where
  /-- No token under the match has one of the kinds. -/
  | excluding (kinds : List TokenKind)
  /-- There is a token under the match, and all of them have one of the kinds. -/
  | only (kinds : List TokenKind)
deriving DecidableEq, Repr

def TokenFilter.accepts : TokenFilter → List TokenKind → Bool
  | excluding kinds, found => !found.any kinds.contains
  | only kinds, found => !found.isEmpty && found.all kinds.contains

end SourceLint
