import SourceLint.Syntax.Lexeme
import SourceLint.Text.Blank

/-!
# Reading lexemes in order

A production of the grammar starts at a cursor, takes some lexemes and says where it stopped. It
fails with a fault of the text, or because the bound on nesting or repetition that it was given is
exhausted. Repetition goes through `repeatRounds`, whose bound is the lexemes that are left: one
round more than there are lexemes is enough when every round but the last one takes a lexeme.
-/

namespace SourceLint

namespace Lexeme

def isSymbol (lexeme : Lexeme) (text : String) : Bool :=
  lexeme.kind == .punctuation && lexeme.text == text

def isKeyword (lexeme : Lexeme) (text : String) : Bool :=
  lexeme.kind == .token .keyword && lexeme.text == text

def isIdentifier (lexeme : Lexeme) : Bool := lexeme.kind == .token .identifier

/-- The lexeme is a word, whether an identifier or a keyword. -/
def isWord (lexeme : Lexeme) : Bool := lexeme.isIdentifier || lexeme.kind == .token .keyword

/-- There is a newline between the lexeme and the one before it. -/
def isOnNewLine (lexeme : Lexeme) : Bool := lexeme.gap.toList.contains '\n'

/-- There is something between the lexeme and the one before it. -/
def isApart (lexeme : Lexeme) : Bool := !lexeme.gap.toList.isEmpty

def isOpener (lexeme : Lexeme) : Bool :=
  lexeme.isSymbol "(" || lexeme.isSymbol "[" || lexeme.isSymbol "\x7b"

def isCloser (lexeme : Lexeme) : Bool :=
  lexeme.isSymbol ")" || lexeme.isSymbol "]" || lexeme.isSymbol "\x7d"

/-- The lexeme `closer` closes what `opener` has opened. -/
def closes (closer opener : Lexeme) : Bool :=
  (opener.isSymbol "(" && closer.isSymbol ")") || (opener.isSymbol "[" && closer.isSymbol "]") ||
    (opener.isSymbol "\x7b" && closer.isSymbol "\x7d")

/-- The lexeme begins with the character. -/
def beginsWith (lexeme : Lexeme) (c : Char) : Bool := lexeme.text.toList.head? == some c

/-- The lexeme may stand between or before operands. An arrow may not. -/
def isOperator (lexeme : Lexeme) : Bool :=
  lexeme.kind == .punctuation && lexeme.text != "->" &&
    (lexeme.text == "..." || lexeme.text == "..<" ||
      (lexeme.text.toList.head?.map isOperatorChar).getD false)

/-- The lexeme is one or more question or exclamation marks right behind an operand. -/
def isPostfixOperator (lexeme : Lexeme) : Bool :=
  lexeme.kind == .punctuation && !lexeme.isApart && !lexeme.text.toList.isEmpty &&
    lexeme.text.toList.all fun c => c == '?' || c == '!'

/-- The lexeme may name a member behind a point. -/
def isMemberName (lexeme : Lexeme) : Bool := lexeme.isWord || lexeme.kind == .token .other

/-- The lexeme is an attribute, which begins with an at sign. -/
def isAttribute (lexeme : Lexeme) : Bool := lexeme.kind == .token .other && lexeme.beginsWith '@'

/-- The text from the first lexeme to the last one, without its white space. -/
def spelling : List Lexeme → String
  | [] => ""
  | first :: others =>
    let between := others.flatMap fun l => l.gap.toList ++ l.text.toList
    String.ofList ((first.text.toList ++ between).filter fun c => !isBlank c)

end Lexeme

/-- A place among the significant lexemes of a source text: the lexemes ahead, where the last lexeme
behind ends, and where the text ends. -/
structure Cursor where
  ahead : List Lexeme
  lastStop : Nat
  sourceStop : Nat
deriving Repr

/-- Why a production fails. -/
inductive Failure where
  | fault (error : SyntaxError)
  | exhausted
deriving DecidableEq, Repr

/-- What a production answers. -/
abbrev Outcome := Except Failure

/-- Fail because of the text. -/
def Outcome.fault {α : Type} (error : SyntaxError) : Outcome α := .error (.fault error)

namespace Cursor

def peek? (c : Cursor) : Option Lexeme := c.ahead.head?

/-- The lexeme behind the next `n` ones. -/
def peekAt? (c : Cursor) (n : Nat) : Option Lexeme := c.ahead[n]?

/-- Take the next lexeme, if there is one. -/
def advance (c : Cursor) : Cursor :=
  match c.ahead with
  | [] => c
  | lexeme :: ahead => { c with ahead := ahead, lastStop := lexeme.stop }

/-- Take the next `n` lexemes. -/
def advanceBy (c : Cursor) : Nat → Cursor
  | 0 => c
  | n + 1 => c.advance.advanceBy n

/-- The next lexeme passes a test. -/
def next (c : Cursor) (test : Lexeme → Bool) : Bool := c.peek?.any test

def atSymbol (c : Cursor) (text : String) : Bool := c.next fun l => l.isSymbol text

def atKeyword (c : Cursor) (text : String) : Bool := c.next fun l => l.isKeyword text

/-- The offset at which the next lexeme begins, or the end of the text. -/
def here (c : Cursor) : Nat := (c.peek?.map Lexeme.start).getD c.sourceStop

/-- The lexemes that lie between a cursor and a later one. -/
def lexemesTo (c later : Cursor) : List Lexeme :=
  c.ahead.take (c.ahead.length - later.ahead.length)

/-- No lexeme has been taken between the two cursors. -/
def hasStalled (c later : Cursor) : Bool := c.ahead.length == later.ahead.length

end Cursor

namespace Outcome

/-- Fail at a lexeme that has no place there. -/
def unexpected {α : Type} (lexeme : Lexeme) : Outcome α :=
  fault (.unexpected lexeme.text lexeme.start)

/-- Fail for want of something at the cursor. -/
def expected {α : Type} (c : Cursor) (what : Expectation) : Outcome α := fault (.expected what c.here)

/-- Fail since an opening delimiter has no closing one. -/
def unclosed {α : Type} (opener : Lexeme) : Outcome α :=
  fault (.unclosed (opener.text.toList.headD '\x7b') opener.start)

end Outcome

namespace Cursor

/-- Take the symbol, or fail for want of what stands for it. -/
def expectSymbol (c : Cursor) (text : String) (what : Expectation) : Outcome (Lexeme × Cursor) :=
  match c.peek? with
  | some lexeme => if lexeme.isSymbol text then .ok (lexeme, c.advance) else .expected c what
  | none => .expected c what

/-- Take the keyword, or fail for want of it. -/
def expectKeyword (c : Cursor) (word : String) : Outcome Cursor :=
  if c.atKeyword word then .ok c.advance else .expected c (.keyword word)

/-- Take the closing delimiter of `opener`. Another closing delimiter has no place there. -/
def expectCloser (c : Cursor) (text : String) (opener : Lexeme) : Outcome (Lexeme × Cursor) :=
  match c.peek? with
  | some lexeme =>
    if lexeme.isSymbol text then .ok (lexeme, c.advance)
    else if lexeme.isCloser then .unexpected lexeme
    else .unclosed opener
  | none => .unclosed opener

end Cursor

/-- How a round of a repetition ends: with a state for another round, or with a result. -/
inductive Round (σ β : Type) where
  | again (state : σ)
  | done (result : β)

/-- Go through rounds until one is done: one round for each lexeme of `bound`, and one more. -/
def boundedRounds {σ β : Type} (round : σ → Cursor → Outcome (Round σ β × Cursor))
    (bound : List Lexeme) (state : σ) (c : Cursor) : Outcome (β × Cursor) :=
  match round state c with
  | .error failure => .error failure
  | .ok (.done result, c) => .ok (result, c)
  | .ok (.again state, c) =>
    match bound with
    | [] => .error .exhausted
    | _ :: bound => boundedRounds round bound state c

/-- Go through rounds until one is done. -/
def repeatRounds {σ β : Type} (round : σ → Cursor → Outcome (Round σ β × Cursor)) (state : σ)
    (c : Cursor) : Outcome (β × Cursor) :=
  boundedRounds round c.ahead state c

end SourceLint
