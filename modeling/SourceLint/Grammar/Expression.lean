import SourceLint.Grammar.Skip

/-!
# Expressions

An expression is a chain of operands and operators. Only calls, collection literals and closures
give nodes; the nodes of an expression stand in source order. The productions that contain one
another come as a record, so each one is defined from the record of the productions one level
below it.
-/

namespace SourceLint

/-- Where a declaration stands. -/
inductive Scope where
  | topLevel
  | typeBody
  | functionBody
deriving DecidableEq, Repr

/-- The nodes of an expression, and whether there was an operand at all. -/
structure ExpressionNodes where
  nodes : List Node
  isPresent : Bool

/-- The productions that may stand inside one another. -/
structure Grammar where
  /-- The statements up to the end of the block, or of the case clause if `inSwitch` is true. -/
  statements : (scope : Scope) → (inSwitch : Bool) → Cursor → Outcome (List Node × Cursor)
  /-- One expression. Without `trailing`, an opening brace ends it. -/
  expression : (trailing : Bool) → Cursor → Outcome (ExpressionNodes × Cursor)
  /-- An `if` statement with its alternatives. -/
  ifStatement : Cursor → Outcome (Node × Cursor)

namespace Grammar

/-- The keywords that are operands. -/
def valueKeywords : List String := ["self", "Self", "super", "true", "false", "nil", "_", "init"]

variable (g : Grammar)

/-! ### Groups of expressions -/

/-- The nodes of the expression at the cursor. If nothing there belongs to an expression, one lexeme
is taken all the same. -/
def expressionOrLexeme (c : Cursor) : Outcome (List Node × Cursor) := do
  let (e, later) ← g.expression true c
  return (e.nodes, if c.hasStalled later then later.advance else later)

/-- One item of a group of arguments that ends with the symbol `closing`: a separator, a label or an
expression. -/
def argumentRound (opener : Lexeme) (closing : String) (nodes : List Node) (c : Cursor) :
    Outcome (Round (List Node) (List Node × Lexeme) × Cursor) :=
  match c.peek? with
  | none => .unclosed opener
  | some lexeme =>
    if lexeme.isSymbol closing then .ok (.done (nodes, lexeme), c.advance)
    else if lexeme.isSymbol "," || lexeme.isSymbol ":" then .ok (.again nodes, c.advance)
    else if lexeme.isCloser then .unexpected lexeme
    else if lexeme.isWord && (c.peekAt? 1).any fun l => l.isSymbol ":" then
      .ok (.again nodes, c.advanceBy 2)
    else do
      let (more, c) ← g.expressionOrLexeme c
      return (.again (nodes ++ more), c)

/-- The arguments behind an opening delimiter and their closing delimiter. -/
def arguments (opener : Lexeme) (closing : String) (c : Cursor) :
    Outcome ((List Node × Lexeme) × Cursor) :=
  repeatRounds (g.argumentRound opener closing) [] c

/-- One item of a collection literal. The state tells whether a colon has made it a dictionary. -/
def itemRound (opener : Lexeme) (state : List Node × Bool) (c : Cursor) :
    Outcome (Round (List Node × Bool) (List Node × Bool × Lexeme) × Cursor) :=
  let (nodes, isDictionary) := state
  match c.peek? with
  | none => .unclosed opener
  | some lexeme =>
    if lexeme.isSymbol "]" then .ok (.done (nodes, isDictionary, lexeme), c.advance)
    else if lexeme.isSymbol ":" then .ok (.again (nodes, true), c.advance)
    else if lexeme.isSymbol "," then .ok (.again (nodes, isDictionary), c.advance)
    else if lexeme.isCloser then .unexpected lexeme
    else do
      let (more, c) ← g.expressionOrLexeme c
      return (.again (nodes ++ more, isDictionary), c)

/-- The array or dictionary literal that `opener` opens; the cursor stands behind it. -/
def collection (opener : Lexeme) (c : Cursor) : Outcome (Node × Cursor) := do
  let ((nodes, isDictionary, closer), c) ← repeatRounds (g.itemRound opener) ([], false) c
  let kind := if isDictionary then NodeKind.dictionary else NodeKind.array
  let body := Span.ofBounds opener.stop closer.start
  return ({ kind, span := .ofBounds opener.start closer.stop, body, children := nodes }, c)

/-! ### Closures -/

/-- The number of lexemes up to the closing delimiter of the group that the first one opens, with
`depth` groups open before it. Here any closing delimiter fits any opening one. -/
def groupLength? (depth : Nat) : List Lexeme → Option Nat
  | [] => none
  | lexeme :: lexemes =>
    if lexeme.isOpener then (groupLength? (depth + 1) lexemes).map (· + 1)
    else if lexeme.isCloser then
      match depth with
      | 0 => none
      | 1 => some 1
      | depth + 1 => (groupLength? depth lexemes).map (· + 1)
    else (groupLength? depth lexemes).map (· + 1)

/-- The lexeme may stand in the signature of a closure. -/
def isSignaturePart (lexeme : Lexeme) : Bool :=
  match lexeme.kind with
  | .token .identifier => true
  | .token .keyword => ["_", "throws", "rethrows", "async", "inout", "Self"].contains lexeme.text
  | .token .other => lexeme.beginsWith '@'
  | .punctuation =>
    ["(", ")", ",", ":", "->", ".", "[", "]", "...", "&"].contains lexeme.text ||
      lexeme.text.toList.all fun c => c == '?' || c == '!' || c == '<' || c == '>'
  | .token .string | .token .comment => false

/-- The number of lexemes before the `in` that ends the signature of a closure, if the lexemes begin
with a signature. -/
def signatureLength? : List Lexeme → Option Nat
  | [] => none
  | lexeme :: lexemes =>
    if lexeme.isKeyword "in" then some 0
    else if isSignaturePart lexeme then (signatureLength? lexemes).map (· + 1)
    else none

/-- What is known while the parameters of a signature are read: whether a type is being read, whether
a name may come, and how many parentheses are open. -/
structure SignatureState where
  inType : Bool := false
  expectsName : Bool := true
  depth : Nat := 0

/-- The node of a parameter that consists of its name alone. -/
def nameParameter (lexeme : Lexeme) : Node :=
  { kind := .varParameter, span := lexeme.span, name := lexeme.text, nameSpan := lexeme.span }

/-- The parameters that a signature names. -/
def signatureParameters (state : SignatureState) : List Lexeme → List Node
  | [] => []
  | lexeme :: lexemes =>
    if lexeme.isSymbol "(" then
      signatureParameters
        { state with
          depth := state.depth + 1, expectsName := state.expectsName || state.depth == 0 }
        lexemes
    else if lexeme.isSymbol ")" then
      signatureParameters { state with depth := state.depth - 1 } lexemes
    else if lexeme.isSymbol "," && state.depth ≤ 1 then
      signatureParameters { state with inType := false, expectsName := true } lexemes
    else if lexeme.isSymbol ":" || lexeme.isSymbol "->" then
      signatureParameters { state with inType := true } lexemes
    else if lexeme.isWord && !state.inType && state.expectsName then
      let more := signatureParameters { state with expectsName := false } lexemes
      if lexeme.text == "_" then more else nameParameter lexeme :: more
    else signatureParameters state lexemes

/-- The specifier of a captured variable, if it has one. -/
def captureSpecifier (c : Cursor) : Outcome (List Attribute × Cursor) :=
  match c.peek? with
  | none => .ok ([], c)
  | some lexeme =>
    if lexeme.isKeyword "weak" || lexeme.isKeyword "unowned" then do
      let c ← c.advance.skipAttachedGroup
      return ([⟨.weak, .ofBounds lexeme.start c.lastStop⟩], c)
    else .ok ([], c)

/-- One item of a capture list: a separator or a variable. -/
def captureRound (opener : Lexeme) (nodes : List Node) (c : Cursor) :
    Outcome (Round (List Node) (List Node) × Cursor) :=
  match c.peek? with
  | none => .unclosed opener
  | some lexeme =>
    if lexeme.isSymbol "]" then .ok (.done nodes, c.advance)
    else if lexeme.isSymbol "," then .ok (.again nodes, c.advance)
    else do
      let (attributes, afterSpecifier) ← captureSpecifier c
      let name := afterSpecifier.peek?.filter fun l => l.isIdentifier || l.isKeyword "self"
      let afterName := if name.isSome then afterSpecifier.advance else afterSpecifier
      let (children, later) ←
        if afterName.atSymbol "=" then do
          let (e, later) ← g.expression true afterName.advance
          pure (e.nodes, later)
        else pure ([], afterName)
      if c.hasStalled later then return (.again nodes, c.advance)
      let node : Node :=
        { kind := .varLocal, span := .ofBounds lexeme.start later.lastStop
          name := name.map Lexeme.text, nameSpan := name.map Lexeme.span, attributes, children }
      return (.again (nodes ++ [node]), later)

/-- The capture list of a closure, if the next lexemes are one. A bracketed group is a capture list
when a signature follows it. -/
def captureList (c : Cursor) : Outcome (List Node × Cursor) :=
  match c.ahead with
  | [] => .ok ([], c)
  | opener :: _ =>
    let isCaptureList := opener.isSymbol "[" &&
      ((groupLength? 0 c.ahead).bind fun n => signatureLength? (c.ahead.drop n)).isSome
    if isCaptureList then repeatRounds (g.captureRound opener) [] c.advance else .ok ([], c)

/-- The parameters of a closure, if it has a signature, which is taken with its `in`. -/
def closureParameters (c : Cursor) : List Node × Cursor :=
  match signatureLength? c.ahead with
  | some n => (signatureParameters {} (c.ahead.take n), c.advanceBy (n + 1))
  | none => ([], c)

/-- A closure. -/
def closure (c : Cursor) : Outcome (Node × Cursor) := do
  let (opener, c) ← c.expectSymbol "\x7b" .openingBrace
  let (captures, c) ← g.captureList c
  let (parameters, c) := closureParameters c
  let (statements, c) ← g.statements .functionBody false c
  let (closer, c) ← c.expectCloser "\x7d" opener
  let node : Node :=
    { kind := .closure, span := .ofBounds opener.start closer.stop
      body := Span.ofBounds opener.stop closer.start
      children := captures ++ parameters ++ statements }
  return (node, c)

/-! ### Operands -/

/-- The next lexemes are a point and the name of a member right behind it. -/
def atMember (c : Cursor) : Bool :=
  c.atSymbol "." && (c.peekAt? 1).any fun l => l.isMemberName && !l.isApart

/-- An operand without what may follow it, if there is one. -/
def primary (c : Cursor) : Outcome (Option (List Node) × Cursor) :=
  match c.peek? with
  | none => .ok (none, c)
  | some lexeme =>
    match lexeme.kind with
    | .token .identifier | .token .string | .token .other => .ok (some [], c.advance)
    | .token .keyword =>
      if valueKeywords.contains lexeme.text then .ok (some [], c.advance) else .ok (none, c)
    | .punctuation =>
      if lexeme.text == "(" then do
        let ((nodes, _), c) ← g.arguments lexeme ")" c.advance
        return (some nodes, c)
      else if lexeme.text == "[" then do
        let (node, c) ← g.collection lexeme c.advance
        return (some [node], c)
      else if lexeme.text == "\x7b" then do
        let (node, c) ← g.closure c
        return (some [node], c)
      else if lexeme.text == "." then
        if atMember c then .ok (some [], c.advanceBy 2) else .ok (none, c)
      else if lexeme.text == "\\" then .ok (some [], c.advance)
      else .ok (none, c)
    | .token .comment => .ok (none, c)

/-- An operand as far as it has been read: its nodes, and the cursor behind the part that a call at
the current place would call. -/
structure OperandState where
  nodes : List Node
  callee : Cursor

/-- A call of the operand that begins at `first`, with the name that the callee has in the source. -/
def callNode (first : Cursor) (callee : Cursor) (stop : Nat) (children : List Node) : Node :=
  { kind := .call, span := .ofBounds first.here stop
    name := Lexeme.spelling (first.lexemesTo callee)
    nameSpan := Span.ofBounds first.here callee.lastStop, children }

/-- The nodes of an operand with a closure behind it. It joins the call that ends the operand, or
else it makes the operand a call. -/
def attachClosure (first : Cursor) (state : OperandState) (stop : Nat) (closure : Node) : List Node :=
  match state.nodes.getLast? with
  | some call =>
    if call.kind == .call && call.span.stop == stop then
      state.nodes.dropLast ++
        [{ call with
          span := .ofBounds call.span.location closure.span.stop
          children := call.children ++ [closure] }]
    else [callNode first state.callee closure.span.stop (state.nodes ++ [closure])]
  | none => [callNode first state.callee closure.span.stop (state.nodes ++ [closure])]

/-- One thing behind an operand: a member, a call, a subscript, a trailing closure, or a mark. -/
def suffixRound (trailing : Bool) (first : Cursor) (state : OperandState) (c : Cursor) :
    Outcome (Round OperandState (List Node) × Cursor) :=
  let stop : Outcome (Round OperandState (List Node) × Cursor) := .ok (.done state.nodes, c)
  match c.peek? with
  | none => stop
  | some lexeme =>
    if lexeme.kind != .punctuation then stop
    else if lexeme.text == "." then
      if atMember c then .ok (.again { state with callee := c.advanceBy 2 }, c.advanceBy 2) else stop
    else if lexeme.text == "(" && !lexeme.isOnNewLine then do
      let ((arguments, closer), c) ← g.arguments lexeme ")" c.advance
      let call := callNode first state.callee closer.stop (state.nodes ++ arguments)
      let body := Span.ofBounds lexeme.stop closer.start
      return (.again { state with nodes := [{ call with body }] }, c)
    else if lexeme.text == "[" && !lexeme.isOnNewLine && !lexeme.isApart then do
      let ((arguments, _), c) ← g.arguments lexeme "]" c.advance
      return (.again ⟨state.nodes ++ arguments, c⟩, c)
    else if lexeme.text == "\x7b" && trailing && !lexeme.isOnNewLine then do
      let (closure, later) ← g.closure c
      return (.again { state with nodes := attachClosure first state c.lastStop closure }, later)
    else if lexeme.isPostfixOperator then .ok (.again { state with callee := c.advance }, c.advance)
    else stop

/-- An operand with all that follows it, if there is one. -/
def operand (trailing : Bool) (c : Cursor) : Outcome (Option (List Node) × Cursor) := do
  match ← g.primary c with
  | (none, later) => return (none, later)
  | (some nodes, later) =>
    let (nodes, later) ← repeatRounds (g.suffixRound trailing c) ⟨nodes, later⟩ later
    return (some nodes, later)

/-! ### Operators -/

/-- The number of lexemes that stand before an operand: `try` and `await`, and operators with the
next lexeme right behind them. -/
def operandPrefixLength : List Lexeme → Nat
  | [] => 0
  | lexeme :: lexemes =>
    if lexeme.isKeyword "try" || lexeme.isKeyword "await" then
      match lexemes with
      | [] => 1
      | mark :: others =>
        if mark.isPostfixOperator then operandPrefixLength others + 2
        else operandPrefixLength (mark :: others) + 1
    else if lexeme.isOperator && lexemes.head?.any fun l => !l.isApart then
      operandPrefixLength lexemes + 1
    else 0

/-- One cast behind an operand. -/
def castRound (_ : Unit) (c : Cursor) : Outcome (Round Unit Unit × Cursor) :=
  if c.atKeyword "as" || c.atKeyword "is" then do
    let c ← c.advance.skipPostfixOperator.skipType
    return (.again (), c)
  else .ok (.done (), c)

/-- One operand and the operator behind it. An operator that begins a line and has the next lexeme
right behind it belongs to the next statement. The first half of a ternary operator has a whole
expression behind it. -/
def operandRound (trailing : Bool) (state : ExpressionNodes) (c : Cursor) :
    Outcome (Round ExpressionNodes ExpressionNodes × Cursor) := do
  let c := c.advanceBy (operandPrefixLength c.ahead)
  match ← g.operand trailing c with
  | (none, c) => return (.done state, c)
  | (some more, c) =>
    let state : ExpressionNodes := ⟨state.nodes ++ more, true⟩
    let (_, c) ← repeatRounds castRound () c
    match c.peek? with
    | none => return (.done state, c)
    | some lexeme =>
      let beginsStatement := lexeme.isOnNewLine && (c.peekAt? 1).any fun l => !l.isApart
      if !lexeme.isOperator || beginsStatement then return (.done state, c)
      else if lexeme.text == "?" then
        let (e, c) ← g.expression trailing c.advance
        let state : ExpressionNodes := ⟨state.nodes ++ e.nodes, true⟩
        if c.atSymbol ":" then return (.again state, c.advance) else return (.done state, c)
      else return (.again state, c.advance)

/-- An expression: operands with operators between them. -/
def expressionBody (trailing : Bool) (c : Cursor) : Outcome (ExpressionNodes × Cursor) :=
  repeatRounds (g.operandRound trailing) ⟨[], false⟩ c

end Grammar

end SourceLint
