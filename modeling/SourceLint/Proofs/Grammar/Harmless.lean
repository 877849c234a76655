import SourceLint.Grammar.Statement

/-!
# Semicolons that may go

A semicolon between two statements may be taken away when the statement before it is complete and what
comes behind it does not carry that statement on. Blanks around a comma may change when the grammar does
not ask whether the lexemes next to the comma stand apart.

## Main definitions

* `Grammar.completes`, `Grammar.startsAfresh` — what may stand before and behind a semicolon that goes.
* `Grammar.harmless` — at no place of a text does it matter to the grammar that semicolons go.

## Implementation notes

The lexemes before a place come with the nearest one first. Where a condition is about a list or a type
that the grammar reads in rounds, the rounds themselves are run (`roundsThrough`), so the condition asks
about the very cursors that the grammar comes through.
-/

namespace SourceLint

/-- The states and the cursors that a repetition comes through. -/
def roundsThrough {σ β : Type} (round : σ → Cursor → Outcome (Round σ β × Cursor)) :
    (bound : List Lexeme) → σ → Cursor → List (σ × Cursor)
  | [], state, c => [(state, c)]
  | _ :: bound, state, c =>
    (state, c) ::
      match round state c with
      | .ok (.again state, later) => roundsThrough round bound state later
      | _ => []

namespace Grammar

/-! ### Before and behind a semicolon -/

/-- The lexeme may end an operand. -/
def endsOperand (lexeme : Lexeme) : Bool :=
  !modifierWords.contains lexeme.text &&
    match lexeme.kind with
    | .token .identifier => lexeme.text != "some" && lexeme.text != "any"
    | .token .string => true
    | .token .other => !lexeme.beginsWith '@'
    | .token .keyword => valueKeywords.contains lexeme.text
    | .token .comment => false
    | .punctuation => lexeme.isCloser

/-- The keywords that something has to follow. -/
def danglingWords : List String :=
  ["try", "await", "as", "is", "inout", "func", "let", "var", "where", "for", "case"]

/-- A statement may end behind the lexemes. -/
def completes : (before : List Lexeme) → Bool
  | [] => true
  | lexeme :: before =>
    if lexeme.isPostfixOperator then before.head?.any endsOperand
    else
      endsOperand lexeme || lexeme.isSymbol ";" ||
        (lexeme.kind == .token .keyword && !danglingWords.contains lexeme.text &&
          !modifierWords.contains lexeme.text)

/-- The last of the lexemes is an operator that may as well close angle brackets. -/
def closesAngle : (before : List Lexeme) → Bool
  | [] => false
  | lexeme :: before =>
    lexeme.isOperator && lexeme.text.toList.contains '>' && !lexeme.isOnNewLine &&
      before.head?.any endsOperand

/-- The first lexeme that is no semicolon. -/
def behindSemicolons? (ahead : List Lexeme) : Option Lexeme := ahead.find? fun l => !l.isSymbol ";"

/-- The lexeme may begin an operand. -/
def beginsOperand (lexeme : Lexeme) : Bool :=
  !lexeme.isCloser && (lexeme.kind != .token .keyword ||
    ("try" :: "await" :: valueKeywords).contains lexeme.text)

/-- The keywords that carry on what stands before them. -/
def carryingWords : List String :=
  ["as", "is", "else", "catch", "where", "async", "throws", "rethrows"]

/-- The lexemes cannot carry on a statement before them. An operator at the beginning of a line cannot
when its operand stands right behind it. -/
def startsAfresh : (ahead : List Lexeme) → Bool
  | [] => true
  | lexeme :: ahead =>
    (signatureLength? (lexeme :: ahead)).isNone &&
      match lexeme.kind with
      | .token .keyword => !carryingWords.contains lexeme.text
      | .token _ => true
      | .punctuation =>
        ["(", "[", ";", "\\"].contains lexeme.text || lexeme.isCloser ||
          (lexeme.isOperator && lexeme.text != "=" && !lexeme.beginsWith '<' &&
            ahead.head?.any fun l => !l.isApart)

/-! ### Types -/

variable (gone : Lexeme → Bool)

/-- Angle brackets are still open at a semicolon that goes. -/
def leavesOpen (depth : Int) (opens : Nat) : (ahead : List Lexeme) → Bool
  | [] => false
  | lexeme :: ahead =>
    match opens with
    | outer + 1 =>
      if lexeme.isOpener then leavesOpen depth (outer + 2) ahead
      else if lexeme.isCloser then leavesOpen depth outer ahead
      else leavesOpen depth (outer + 1) ahead
    | 0 =>
      if lexeme.isSymbol "(" || lexeme.isSymbol "[" then leavesOpen depth 1 ahead
      else if gone lexeme then true
      else if lexeme.isSymbol "\x7b" || lexeme.isCloser || lexeme.isSymbol ";" then false
      else
        let depth :=
          if lexeme.kind == .punctuation then depth + Cursor.angleDepth lexeme else depth
        0 < depth && leavesOpen depth 0 ahead

/-- The lexeme begins with an angle bracket. -/
def isAngle (lexeme : Lexeme) : Bool := lexeme.kind == .punctuation && lexeme.beginsWith '<'

/-- The lexeme begins with an angle bracket right behind the last lexeme. -/
def isAttachedAngle (lexeme : Lexeme) : Bool := isAngle lexeme && !lexeme.isApart

/-- A type may come behind the lexeme. -/
def announcesType (lexeme : Lexeme) : Bool :=
  lexeme.isSymbol ":" || lexeme.isSymbol "->" || lexeme.isSymbol "," || lexeme.isKeyword "as" ||
    lexeme.isKeyword "is" || lexeme.isPostfixOperator

/-- A type at the cursor has no angle brackets open at a semicolon that goes. -/
def typeHarmless (c : Cursor) : Bool :=
  (roundsThrough Cursor.typeRound c.ahead true c).all fun place =>
    !place.2.next isAttachedAngle || !leavesOpen gone 0 0 place.2.ahead

/-! ### Heads of declarations -/

/-- The generic parameters at the cursor, if there are some, are not open at a semicolon that goes. -/
def genericsHarmless (c : Cursor) : Bool := !c.next isAngle || !leavesOpen gone 0 0 c.ahead

/-- The words at the cursor, which name a parameter, do not come together with words behind a semicolon
that goes. -/
def parameterHarmless (c : Cursor) : Bool :=
  let behind := c.ahead.dropWhile Lexeme.isWord
  !(c.next Lexeme.isWord && behind.head?.any gone && (behindSemicolons? behind).any Lexeme.isWord)

/-- No semicolon that goes matters to the head of the function behind its keyword: it does not keep the
head from going on with a list of parameters, nor names of parameters apart. -/
def functionHarmless (g : Grammar) (keyword : Lexeme) (c : Cursor) : Bool :=
  (functionName keyword c).toOption.all fun named =>
    genericsHarmless gone named.2 && named.2.skipGenericParameters.toOption.all fun c =>
      !(c.next gone && (behindSemicolons? c.ahead).any fun l => l.isSymbol "(") &&
        c.peek?.all fun opener => !opener.isSymbol "(" ||
          (roundsThrough (g.parameterRound opener) c.advance.ahead [] c.advance).all fun place =>
            parameterHarmless gone place.2

/-- No semicolon that goes and no blanks around commas matter to the head of the type behind its
keyword. -/
def typeHeadHarmless (c : Cursor) : Bool :=
  let c := c.advanceBy (typeNameLength c.ahead)
  genericsHarmless gone c && c.skipGenericParameters.toOption.all fun c =>
    !c.atSymbol ":" ||
      (roundsThrough inheritanceRound c.advance.ahead () c.advance).all fun place =>
        !place.2.next fun l => isAttachedAngle l || l.isPostfixOperator

/-- A modifier or an attribute at the cursor has no semicolon that goes and no operator right behind
it. -/
def attributeHarmless (c : Cursor) : Bool :=
  !((modifierKind? c).isSome || c.atKeyword "weak" || c.atKeyword "unowned") ||
    c.advance.skipAttachedGroup.toOption.all fun later =>
      !later.next fun l => gone l || l.isOperator

/-! ### Texts -/

/-- The keywords behind which the head of a function comes. -/
def functionWords : List String := ["func", "init", "deinit", "subscript"]

/-- The keywords behind which the head of a type comes. -/
def typeWords : List String := ["class", "struct", "enum", "extension", "protocol", "actor"]

/-- What stands behind the lexeme, with the cursor right behind it, is harmless. -/
def harmlessBehind (g : Grammar) (lexeme : Lexeme) (c : Cursor) : Bool :=
  (!announcesType lexeme || typeHarmless gone c) &&
    (lexeme.kind != .token .keyword ||
      (!functionWords.contains lexeme.text || functionHarmless gone g lexeme c) &&
        (!typeWords.contains lexeme.text || typeHeadHarmless gone c))

/-- A semicolon that goes stands between two statements. -/
def semicolonHarmless (before ahead : List Lexeme) : Bool :=
  !ahead.head?.any gone ||
    (completes before || closesAngle before && !(behindSemicolons? ahead).any beginsOperand) &&
      startsAfresh ahead.tail

/-- No operator without an operand stands before a comma that stands apart. -/
def commaHarmless (before ahead : List Lexeme) : Bool :=
  !(ahead.head?.any (fun l => l.isSymbol "," && l.isApart) && before.head?.any Lexeme.isOperator) ||
    completes before

/-- The cursor between two lists of lexemes. -/
def cursorAt (sourceStop : Nat) (before ahead : List Lexeme) : Cursor :=
  ⟨ahead, (before.head?.map Lexeme.stop).getD 0, sourceStop⟩

/-- At the place between the two lists of lexemes it does not matter that semicolons go. -/
def harmlessAt (g : Grammar) (sourceStop : Nat) (before ahead : List Lexeme) : Bool :=
  let c := cursorAt sourceStop before ahead
  semicolonHarmless gone before ahead && commaHarmless before ahead && attributeHarmless gone c &&
    before.head?.all fun lexeme => harmlessBehind gone g lexeme c

/-- At no place from the one between the two lists on does it matter that semicolons go. -/
def harmlessFrom (g : Grammar) (sourceStop : Nat) (before : List Lexeme) : List Lexeme → Bool
  | [] => harmlessAt gone g sourceStop before []
  | lexeme :: ahead =>
    harmlessAt gone g sourceStop before (lexeme :: ahead) &&
      harmlessFrom g sourceStop (lexeme :: before) ahead

/-- In a text with the given significant lexemes it does not matter to the grammar, on any of the levels
that it needs, that some semicolons go and that the blanks around commas change. -/
def Harmless (sourceStop : Nat) (lexemes : List Lexeme) : Prop :=
  ∀ depth ≤ depthBound lexemes.length, harmlessFrom gone (ofDepth depth) sourceStop [] lexemes = true

instance decidableHarmless (sourceStop : Nat) (lexemes : List Lexeme) :
    Decidable (Harmless gone sourceStop lexemes) :=
  Nat.decidableBallLE _ fun depth _ => harmlessFrom gone (ofDepth depth) sourceStop [] lexemes = true

end Grammar

end SourceLint
