import SourceLint.Proofs.Grammar.Delimiters.Basic

/-!
# Delimiters that are balanced

Where a text has no place in which the grammar takes delimiters unseen, lexemes that nest close each group
with the delimiter that fits. An opening delimiter may still be skipped in a list of parameters, where a
closing one may not; so the delimiters are balanced when no more of them open groups than close them.

## Main definitions

* `Lexeme.isBalanced` — each closing delimiter fits the last opening one, and no group is left open.
* `Grammar.exposesDelimiters` — the text has no place in which the grammar takes delimiters unseen.
-/

namespace SourceLint

namespace Lexeme

/-- Behind the opening delimiters `opens`, the innermost one first, each closing delimiter fits the last
opening one, and no group is left open. -/
def isBalanced : (opens : List Lexeme) → List Lexeme → Bool
  | opens, [] => opens.isEmpty
  | opens, lexeme :: lexemes =>
    if lexeme.isOpener then isBalanced (lexeme :: opens) lexemes
    else if lexeme.isCloser then
      match opens with
      | opener :: outer => lexeme.closes opener && isBalanced outer lexemes
      | [] => false
    else isBalanced opens lexemes

/-- How many more groups the lexemes open than they close. -/
def surplus (lexemes : List Lexeme) : Int :=
  (lexemes.countP isOpener : Int) - (lexemes.countP isCloser : Int)

variable {lexeme opener closer : Lexeme} {opens lexemes : List Lexeme}

theorem isBalanced_of_not_isDelimiter (h : lexeme.isDelimiter = false) :
    isBalanced opens (lexeme :: lexemes) = isBalanced opens lexemes := by
  rw [isDelimiter_eq, Bool.or_eq_false_iff] at h
  rw [isBalanced.eq_def]
  simp only [h.1, h.2, Bool.false_eq_true, if_false]

theorem isBalanced_of_isOpener (h : opener.isOpener = true) :
    isBalanced opens (opener :: lexemes) = isBalanced (opener :: opens) lexemes := by
  rw [isBalanced.eq_def]
  exact if_pos h

theorem isBalanced_of_closes (h : closer.closes opener = true) :
    isBalanced (opener :: opens) (closer :: lexemes) = isBalanced opens lexemes := by
  have hcloser := isCloser_of_closes h
  rw [isBalanced, isOpener_of_isCloser hcloser, if_neg Bool.false_ne_true, if_pos hcloser, h,
    Bool.true_and]

theorem surplus_of_not_isDelimiter (h : lexeme.isDelimiter = false) :
    surplus (lexeme :: lexemes) = surplus lexemes := by
  rw [isDelimiter_eq, Bool.or_eq_false_iff] at h
  simp only [surplus, List.countP_cons, h.1, h.2, Bool.false_eq_true, if_false, Nat.add_zero]

theorem surplus_of_isOpener (h : opener.isOpener = true) (lexemes : List Lexeme) :
    surplus (opener :: lexemes) = surplus lexemes + 1 := by
  have hcloser : opener.isCloser = false := by
    cases hcloser : opener.isCloser with
    | false => rfl
    | true => rw [isOpener_of_isCloser hcloser] at h; cases h
  simp only [surplus, List.countP_cons, h, hcloser, Bool.false_eq_true, if_false, if_true]
  omega

theorem surplus_of_isCloser (h : closer.isCloser = true) (lexemes : List Lexeme) :
    surplus (closer :: lexemes) = surplus lexemes - 1 := by
  simp only [surplus, List.countP_cons, h, isOpener_of_isCloser h, Bool.false_eq_true, if_false, if_true]
  omega

end Lexeme

namespace Grammar

open Lexeme

/-! ### Texts whose delimiters are all seen -/

/-- Where the grammar takes what comes behind the lexeme for a name, `name` is no delimiter. The parenthesis
of a tuple pattern is not taken for a name. -/
def exposes (lexeme name : Lexeme) : Bool :=
  !name.isDelimiter || (name.isSymbol "(" || !(lexeme.isKeyword "let" || lexeme.isKeyword "var")) &&
    !lexeme.isKeyword "func"

/-- The text has no loop over a sequence, no closure with a signature, and no delimiter in the place of a
name. -/
def exposesDelimiters : List Lexeme → Bool
  | [] => true
  | lexeme :: lexemes =>
    !lexeme.isKeyword "in" && lexemes.head?.all (exposes lexeme) && exposesDelimiters lexemes

theorem exposesDelimiters_of_suffix {xs ys : List Lexeme} (h : ys <:+ xs)
    (hxs : exposesDelimiters xs = true) : exposesDelimiters ys = true := by
  obtain ⟨front, rfl⟩ := h
  induction front with
  | nil => exact hxs
  | cons lexeme front ih =>
      rw [List.cons_append, exposesDelimiters, Bool.and_eq_true] at hxs
      exact ih hxs.2

section

variable {place : Place} {lexeme keyword name : Lexeme} {xs ys : List Lexeme}

theorem not_isKeyword_in_of_exposesDelimiters (hxs : exposesDelimiters xs = true) (hmem : lexeme ∈ xs) :
    lexeme.isKeyword "in" = false := by
  obtain ⟨front, back, rfl⟩ := List.append_of_mem hmem
  have hback := exposesDelimiters_of_suffix (List.suffix_append front _) hxs
  rw [exposesDelimiters, Bool.and_eq_true, Bool.and_eq_true, Bool.not_eq_true'] at hback
  exact hback.1.1

theorem exposes_of_exposesDelimiters (h : exposesDelimiters (keyword :: name :: xs) = true) :
    exposes keyword name = true := by
  rw [exposesDelimiters, Bool.and_eq_true, Bool.and_eq_true, List.head?_cons, Option.all_some] at h
  exact h.1.2

/-- Only a text with the keyword `in` has closures with a head. -/
theorem TakesHead.eq_of_exposesDelimiters {opener : Lexeme} (h : TakesHead opener xs ys)
    (hxs : exposesDelimiters xs = true) : ys = xs := by
  have hsignature : ∀ {front later}, front <:+ xs → ¬ TakesSignature front later := by
    rintro front later hfront ⟨parts, word, rfl, hword, -⟩
    have hmem : word ∈ xs := hfront.mem (List.mem_append_right _ List.mem_cons_self)
    rw [not_isKeyword_in_of_exposesDelimiters hxs hmem] at hword
    cases hword
  obtain rfl | ⟨-, middle, rfl | ⟨hahead, -⟩, hrest⟩ := h
  · rfl
  · exact hrest.resolve_right (hsignature List.suffix_rfl)
  · obtain ⟨n, hn⟩ := Option.isSome_iff_exists.1 hahead
    obtain ⟨m, -, hm⟩ := Option.bind_eq_some_iff.1 hn
    exact absurd (takesSignature_of_signatureLength? hm) (hsignature (List.drop_suffix _ _))

/-- The groups that are open stay as they are from one list of lexemes to the other one, unless more groups
open than close. -/
structure KeepsOpen (xs ys : List Lexeme) : Prop where
  surplus_le : surplus ys ≤ surplus xs
  isBalanced_eq : surplus xs = surplus ys → ∀ opens, isBalanced opens xs = isBalanced opens ys

namespace KeepsOpen

variable {zs : List Lexeme}

theorem refl (xs : List Lexeme) : KeepsOpen xs xs := ⟨Int.le_refl _, fun _ _ => rfl⟩

theorem trans (h : KeepsOpen xs ys) (h' : KeepsOpen ys zs) : KeepsOpen xs zs := by
  have hle := h.surplus_le
  have hle' := h'.surplus_le
  refine ⟨Int.le_trans hle' hle, fun heq opens => ?_⟩
  rw [h.isBalanced_eq (by omega), h'.isBalanced_eq (by omega)]

theorem plain (h : lexeme.isDelimiter = false) : KeepsOpen (lexeme :: xs) xs :=
  ⟨Int.le_of_eq (surplus_of_not_isDelimiter h).symm, fun _ _ => isBalanced_of_not_isDelimiter h⟩

theorem group {opener closer : Lexeme} (hcloses : closer.closes opener = true)
    (h : KeepsOpen xs (closer :: ys)) : KeepsOpen (opener :: xs) ys := by
  have hopener := isOpener_of_closes hcloses
  have hle := h.surplus_le
  have hinside := surplus_of_isOpener hopener xs
  have hbehind := surplus_of_isCloser (isCloser_of_closes hcloses) ys
  refine ⟨by omega, fun heq opens => ?_⟩
  rw [isBalanced_of_isOpener hopener, h.isBalanced_eq (by omega), isBalanced_of_closes hcloses]

end KeepsOpen

theorem Takes.keepsOpen (h : Takes place xs ys) (hxs : exposesDelimiters xs = true) :
    KeepsOpen xs ys := by
  cases h with
  | plain hplain => exact .plain hplain
  | @stray opener _ hopener =>
      have hsurplus := surplus_of_isOpener hopener ys
      exact ⟨by omega, fun heq => by omega⟩
  | @name _ keyword name _ hkeyword =>
      have hname := exposes_of_exposesDelimiters hxs
      rw [exposes, hkeyword, Bool.not_true, Bool.and_false, Bool.or_false, Bool.not_eq_true'] at hname
      exact (KeepsOpen.plain (isDelimiter_of_isKeyword hkeyword)).trans (.plain hname)
  | @binding _ leader keyword name _ hleader hkeyword hopen =>
      have hkeywordPlain : keyword.isDelimiter = false :=
        isDelimiter_of_or isDelimiter_of_isKeyword isDelimiter_of_isKeyword hkeyword
      have hname := exposes_of_exposesDelimiters
        (exposesDelimiters_of_suffix (List.suffix_cons leader _) hxs)
      rw [exposes, hkeyword, hopen, Bool.not_true, Bool.or_false, Bool.false_and, Bool.or_false,
        Bool.not_eq_true'] at hname
      exact (KeepsOpen.plain (isDelimiter_of_leadsCondition hleader)).trans
        ((KeepsOpen.plain hkeywordPlain).trans (.plain hname))
  | @pattern _ keyword word inside _ _ _ hword =>
      have hmem : word ∈ keyword :: (inside ++ word :: ys) :=
        List.mem_cons_of_mem _ (List.mem_append_right _ List.mem_cons_self)
      rw [not_isKeyword_in_of_exposesDelimiters hxs hmem] at hword
      cases hword

/-- Lexemes that nest keep the open groups, where the grammar looks at every delimiter. -/
theorem Nests.keepsOpen (h : Nests place xs ys) (hxs : exposesDelimiters xs = true) :
    KeepsOpen xs ys := by
  induction h with
  | refl => exact .refl _
  | take htake _ ih =>
      exact (htake.keepsOpen hxs).trans (ih (exposesDelimiters_of_suffix htake.suffix hxs))
  | @group _ opener closer xs ys zs ws hcloses hhead hinside _ ihInside ih =>
      have hbehind := exposesDelimiters_of_suffix (List.suffix_cons opener xs) hxs
      obtain rfl := hhead.eq_of_exposesDelimiters hbehind
      have hrest := exposesDelimiters_of_suffix ((List.suffix_cons closer zs).trans hinside.suffix) hbehind
      exact (KeepsOpen.group hcloses (ihInside hbehind)).trans (ih hrest)
  | @parameters _ keyword opener closer xs ys zs ws _ hhead hcloses hinside _ ihHead ihInside ih =>
      have hlist := exposesDelimiters_of_suffix ((List.suffix_cons opener ys).trans hhead.suffix) hxs
      have hrest := exposesDelimiters_of_suffix ((List.suffix_cons closer zs).trans hinside.suffix) hlist
      exact (ihHead hxs).trans ((KeepsOpen.group hcloses (ihInside hlist)).trans (ih hrest))

/-- Lexemes that nest are balanced when the grammar looks at every delimiter and no more groups open than
close. -/
theorem Nests.isBalanced (h : Nests place xs []) (hxs : exposesDelimiters xs = true)
    (hcount : xs.countP isOpener ≤ xs.countP isCloser) : isBalanced [] xs = true := by
  have hkeeps := h.keepsOpen hxs
  have hle : (0 : Int) ≤ surplus xs := hkeeps.surplus_le
  refine hkeeps.isBalanced_eq ?_ []
  change surplus xs = 0
  rw [surplus] at hle ⊢
  omega

end

end Grammar

end SourceLint
