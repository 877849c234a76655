import SourceLint.Span

/-!
# Structure of a source text

The constructs of a source text that rules inspect form a forest: statements, declarations and
expressions, each with the spans of its parts and with the constructs inside it in source order.
-/

namespace SourceLint

/-- The kinds of constructs: statements, expressions, declarations. -/
inductive NodeKind where
  | brace
  | forEach
  | ifStatement
  | guardStatement
  | whileLoop
  | repeatWhile
  | switchStatement
  | caseClause
  | call
  | array
  | dictionary
  | closure
  | classType
  | structType
  | enumType
  | extensionType
  | protocolType
  | functionFree
  | functionMethod
  | varGlobal
  | varInstance
  | varLocal
  | varParameter
deriving DecidableEq, Repr, Inhabited

/-- The name that messages use for a kind. -/
def NodeKind.name : NodeKind → String
  | brace => "Brace"
  | forEach => "ForEach"
  | ifStatement => "If"
  | guardStatement => "Guard"
  | whileLoop => "While"
  | repeatWhile => "RepeatWhile"
  | switchStatement => "Switch"
  | caseClause => "Case"
  | call => "Call"
  | array => "Array"
  | dictionary => "Dictionary"
  | closure => "Closure"
  | classType => "Class"
  | structType => "Struct"
  | enumType => "Enum"
  | extensionType => "Extension"
  | protocolType => "Protocol"
  | functionFree => "FunctionFree"
  | functionMethod => "FunctionMethod"
  | varGlobal => "VarGlobal"
  | varInstance => "VarInstance"
  | varLocal => "VarLocal"
  | varParameter => "VarParameter"

/-- The parts of a construct that are no constructs themselves. -/
inductive ElementKind where
  /-- The pattern that a loop binds. -/
  | id
  /-- The sequence that a loop runs over. -/
  | expr
  /-- One clause of a condition list. -/
  | condition
deriving DecidableEq, Repr, Inhabited

structure Element where
  kind : ElementKind
  span : Span
deriving DecidableEq, Repr, Inhabited

/-- What a modifier or an attribute says about a declaration. Several spellings share one kind; the
spelling itself stands in the source. -/
inductive AttributeKind where
  | weak
  | lazy
  | final
  | static
  | override
  | mutating
  | accessControl
  | custom
deriving DecidableEq, Repr, Inhabited

/-- The kind that a modifier stands for, if it stands for one. -/
def AttributeKind.ofModifier? : String → Option AttributeKind
  | "weak" | "unowned" => some weak
  | "lazy" => some lazy
  | "final" => some final
  | "static" | "class" => some static
  | "override" => some override
  | "mutating" | "nonmutating" => some mutating
  | "private" | "fileprivate" | "internal" | "public" | "open" => some accessControl
  | _ => none

structure Attribute where
  kind : AttributeKind
  span : Span
deriving DecidableEq, Repr, Inhabited

/-- One construct. The body is what stands between its delimiters. -/
structure Node where
  kind : NodeKind
  span : Span
  name : Option String := none
  nameSpan : Option Span := none
  body : Option Span := none
  elements : List Element := []
  attributes : List Attribute := []
  children : List Node := []
deriving Repr, Inhabited

namespace Node

/-- The span of the first element of a kind. -/
def elementSpan? (node : Node) (kind : ElementKind) : Option Span :=
  (node.elements.find? fun e => e.kind == kind).map Element.span

/-- The node with a name that is written at a span. -/
def withName (node : Node) (name : String) (span : Span) : Node :=
  { node with name := some name, nameSpan := some span }

mutual

/-- The number of nodes of a tree. -/
def count : Node → Nat
  | ⟨_, _, _, _, _, _, _, children⟩ => 1 + countAll children

/-- The number of nodes of a forest. -/
def countAll : List Node → Nat
  | [] => 0
  | node :: nodes => count node + countAll nodes

end

theorem count_eq (node : Node) : node.count = 1 + countAll node.children := by
  cases node; rw [count]

@[simp] theorem countAll_nil : countAll [] = 0 := by rw [countAll]

@[simp] theorem countAll_cons (node : Node) (nodes : List Node) :
    countAll (node :: nodes) = node.count + countAll nodes := by rw [countAll]

@[simp] theorem countAll_append (nodes more : List Node) :
    countAll (nodes ++ more) = countAll nodes + countAll more := by
  induction nodes with
  | nil => simp
  | cons node nodes ih => simp [ih, Nat.add_assoc]

end Node

end SourceLint
