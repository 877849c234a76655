import SourceLint.Grammar.Source
import SourceLint.Proofs.Basic
import SourceLint.Proofs.Grammar.Forming.Statements
import SourceLint.Proofs.Grammar.Structure

/-!
# Declarations are where their kinds say

The kind of a variable or of a function says where it is declared: at top level, in a type or in a function. The
grammar passes the scope on by hand, and in the tree of a source text the kinds agree with the places.

## Main result

* `Snapshot.places_ofSource`
-/

namespace SourceLint

namespace NodeKind

variable {parent child : NodeKind}

/-- What a node may not have for a child, whatever it is. -/
theorem ne_varGlobal_of_mayHold (h : parent.mayHold child = true) : child ≠ .varGlobal := by
  rintro rfl
  revert h
  cases parent <;> decide

theorem isType_of_mayHold (h : parent.mayHold child = true)
    (hchild : child = .varInstance ∨ child = .functionMethod) : parent.isType = true := by
  revert h
  rcases hchild with rfl | rfl <;> cases parent <;> decide

/-- What stands directly in a type. -/
theorem ne_of_mayHold_of_isType (h : parent.mayHold child = true) (hparent : parent.isType = true) :
    child ≠ .varLocal ∧ child ≠ .functionFree := by
  constructor <;> rintro rfl <;> revert h hparent <;> cases parent <;> decide

theorem isFunction_or_of_mayHold (h : parent.mayHold child = true) (hchild : child = .varParameter) :
    parent.isFunction = true ∨ parent = .closure := by
  subst hchild
  revert h
  cases parent <;> decide

/-- Which declarations do not stand at top level. -/
theorem ne_of_admits_topLevel (h : Scope.topLevel.admits child = true) :
    child ≠ .varInstance ∧ child ≠ .functionMethod ∧ child ≠ .varLocal ∧ child ≠ .varParameter := by
  refine ⟨?_, ?_, ?_, ?_⟩ <;> rintro rfl <;> revert h <;> decide

end NodeKind

namespace Snapshot

/-- The forest of a source is formed from the significant lexemes of its text. -/
theorem forms_ofSource {source : String} {snapshot : Snapshot} (h : ofSource source = .ok snapshot) :
    ∃ lexemes later, Lexeme.ofSource source = .ok lexemes ∧
      Lexeme.InOrder 0 source.utf8ByteSize (Lexeme.significant "" lexemes) ∧
      Forms ⟨Lexeme.significant "" lexemes, 0, source.utf8ByteSize⟩ Scope.topLevel.admits
        ⟨Lexeme.significant "" lexemes, 0, source.utf8ByteSize⟩ snapshot.forest later := by
  obtain ⟨lexemes, forest, hlexemes, hforest, rfl⟩ := ofSource_eq_ok_iff.1 h
  have horder := (Lexeme.inOrder_of_ofSource hlexemes).significant ""
  obtain ⟨later, hforms⟩ := (Grammar.forms_file horder).of_ok hforest
  exact ⟨lexemes, later, hlexemes, horder, hforms⟩

/-- In the tree of a source text a global variable is a root; an instance variable and a method are directly in a
type; a local variable is neither a root nor directly in a type, and a free function is not directly in a type; a
parameter is directly below a function or a closure. -/
theorem places_ofSource {source : String} {snapshot : Snapshot} (h : ofSource source = .ok snapshot) :
    (∀ root ∈ snapshot.forest, root.kind ≠ .varInstance ∧ root.kind ≠ .functionMethod ∧
      root.kind ≠ .varLocal ∧ root.kind ≠ .varParameter) ∧
    ∀ parent ∈ Node.listingAll snapshot.forest, ∀ child ∈ parent.children,
      child.kind ≠ .varGlobal ∧
      (child.kind = .varInstance ∨ child.kind = .functionMethod → parent.kind.isType = true) ∧
      (parent.kind.isType = true → child.kind ≠ .varLocal ∧ child.kind ≠ .functionFree) ∧
      (child.kind = .varParameter → parent.kind.isFunction = true ∨ parent.kind = .closure) := by
  obtain ⟨lexemes, later, -, -, hforms⟩ := forms_ofSource h
  constructor
  · intro root hroot
    exact NodeKind.ne_of_admits_topLevel (hforms.admitted root hroot)
  · intro parent hparent child hchild
    have hholds := (hforms.formed parent hparent).placed child hchild
    exact ⟨NodeKind.ne_varGlobal_of_mayHold hholds, NodeKind.isType_of_mayHold hholds,
      NodeKind.ne_of_mayHold_of_isType hholds, NodeKind.isFunction_or_of_mayHold hholds⟩

/-- Variables and functions of all kinds, each in its place. -/
theorem places_ofSource_kinds :
    ∃ snapshot, ofSource ("let g = \x7b a in let y = a \x7d\n" ++
        "class A \x7b var x = 1; func f(p: Int) \x7b func h() \x7b\x7d \x7d \x7d") = .ok snapshot ∧
      (Node.listingAll snapshot.forest).map Node.kind =
        [.varGlobal, .closure, .varParameter, .varLocal, .classType, .varInstance, .functionMethod,
          .varParameter, .functionFree] ∧
      ∀ parent ∈ Node.listingAll snapshot.forest, ∀ child ∈ parent.children,
        child.kind = .varInstance ∨ child.kind = .functionMethod → parent.kind.isType = true := by
  have hread : ((ofSource ("let g = \x7b a in let y = a \x7d\n" ++
      "class A \x7b var x = 1; func f(p: Int) \x7b func h() \x7b\x7d \x7d \x7d")).toOption.any
        fun snapshot => (Node.listingAll snapshot.forest).map Node.kind ==
          [.varGlobal, .closure, .varParameter, .varLocal, .classType, .varInstance, .functionMethod,
            .varParameter, .functionFree]) = true := by
    decide +kernel
  obtain ⟨snapshot, hsnapshot, hkinds⟩ := exists_of_toOption_any hread
  refine ⟨snapshot, hsnapshot, eq_of_beq hkinds, fun parent hparent child hchild => ?_⟩
  exact ((places_ofSource hsnapshot).2 parent hparent child hchild).2.1

end Snapshot

end SourceLint
