import SourceLint.Proofs.Grammar.Abreast.Alike
import SourceLint.Proofs.Grammar.Abreast.Basic
import SourceLint.Proofs.Grammar.Separators
import SourceLint.Proofs.Grammar.Statements

/-!
# Cursors that are abreast

Two cursors are abreast when the lexemes ahead of the second one are those ahead of the first one
without the semicolons that go. Either the same lexeme comes next at both, or the first one stands
before a semicolon that goes; then what comes next at the second one begins a line and cannot carry
on a statement.

## Main results

* `Grammar.Abreast.cases` — what comes next at two cursors that are abreast.
* `Grammar.Abreast.next_eq` — the tests that have the same answer at both.
-/

namespace SourceLint.Grammar

variable {gone : Lexeme → Bool} {levels : Nat} {sourceStop : Nat}
    {before lexemes others : List Lexeme} {x y : Lexeme}

/-! ### Lexemes without some semicolons -/

/-- The lexemes stand apart alike, but that blanks before a comma may go and blanks behind a comma may
come. -/
def ApartAlike (before : List Lexeme) (x y : Lexeme) : Prop :=
  y.isApart = x.isApart ∨ x.isSymbol "," = true ∧ x.isApart = true ∨
    before.head?.any (fun l => l.isSymbol ",") = true ∧ y.isApart = true

/-- The second list has the lexemes of the first one without the semicolons that go. Behind a semicolon
that goes the line ends. The lexemes before the first list come with the nearest one first. -/
inductive Thinned (gone : Lexeme → Bool) : (before lexemes others : List Lexeme) → Prop
  | nil {before : List Lexeme} : Thinned gone before [] []
  | keep {before lexemes others : List Lexeme} {x y : Lexeme} (hgone : gone x = false)
      (halike : x.Alike y) (hapart : ApartAlike before x y)
      (hrest : Thinned gone (x :: before) lexemes others) :
      Thinned gone before (x :: lexemes) (y :: others)
  | drop {before lexemes others : List Lexeme} {x : Lexeme} (hgone : gone x = true)
      (hsemicolon : x.isSymbol ";" = true) (hline : others.head?.all Lexeme.isOnNewLine = true)
      (hrest : Thinned gone (x :: before) lexemes others) :
      Thinned gone before (x :: lexemes) others

/-- At no place from the one between the two lists on does it matter to the grammar that semicolons go,
on whichever of some levels it is. -/
def HarmlessFrom (gone : Lexeme → Bool) (levels sourceStop : Nat) (before lexemes : List Lexeme) :
    Prop :=
  ∀ depth ≤ levels, harmlessFrom gone (ofDepth depth) sourceStop before lexemes = true

namespace HarmlessFrom

theorem tail (h : HarmlessFrom gone levels sourceStop before (x :: lexemes)) :
    HarmlessFrom gone levels sourceStop (x :: before) lexemes := by
  intro depth hlevel
  have hdepth := h depth hlevel
  rw [harmlessFrom, Bool.and_eq_true] at hdepth
  exact hdepth.2

theorem place (h : HarmlessFrom gone levels sourceStop before lexemes) {depth : Nat}
    (hlevel : depth ≤ levels) : harmlessAt gone (ofDepth depth) sourceStop before lexemes = true := by
  have hdepth := h depth hlevel
  cases lexemes with
  | nil => exact hdepth
  | cons x lexemes =>
      rw [harmlessFrom, Bool.and_eq_true] at hdepth
      exact hdepth.1

/-- What stands at the place is harmless: the semicolon that goes, the comma, the attribute, and what
comes behind the last lexeme. -/
theorem parts (h : HarmlessFrom gone levels sourceStop before lexemes) {depth : Nat}
    (hlevel : depth ≤ levels) :
    semicolonHarmless gone before lexemes = true ∧ commaHarmless before lexemes = true ∧
      attributeHarmless gone (cursorAt sourceStop before lexemes) = true ∧
        before.head?.all (fun lexeme => harmlessBehind gone (ofDepth depth) lexeme
          (cursorAt sourceStop before lexemes)) = true := by
  have hplace := h.place hlevel
  rw [harmlessAt, Bool.and_eq_true, Bool.and_eq_true, Bool.and_eq_true] at hplace
  exact ⟨hplace.1.1.1, hplace.1.1.2, hplace.1.2, hplace.2⟩

/-- A semicolon that goes stands behind a complete statement and before what begins afresh. -/
theorem semicolon (h : HarmlessFrom gone levels sourceStop before (x :: lexemes))
    (hgone : gone x = true) : (completes before = true ∨ closesAngle before = true ∧
      (behindSemicolons? (x :: lexemes)).any beginsOperand = false) ∧ startsAfresh lexemes = true := by
  have hparts := (h.parts (Nat.zero_le _)).1
  rw [semicolonHarmless] at hparts
  simpa [hgone] using hparts

/-- An operator before a comma that stands apart has an operand. -/
theorem comma (h : HarmlessFrom gone levels sourceStop (y :: before) (x :: lexemes))
    (hcomma : x.isSymbol "," = true) (hapart : x.isApart = true) (hy : y.isOperator = true) :
    completes (y :: before) = true := by
  have hparts := (h.parts (Nat.zero_le _)).2.1
  rw [commaHarmless] at hparts
  simpa [hcomma, hapart, hy] using hparts

end HarmlessFrom

/-! ### Which lexemes may stand before a semicolon that goes -/

theorem endsOperand_of_isOperator (h : x.isOperator = true) : endsOperand x = false := by
  have hkind : x.kind = .punctuation := by
    simp only [Lexeme.isOperator, Bool.and_eq_true, beq_iff_eq] at h
    exact h.1.1
  have hcloser : x.isCloser = false := by
    cases hx : x.isCloser with
    | false => rfl
    | true =>
        simp only [Lexeme.isCloser, Bool.or_eq_true, Lexeme.isSymbol_iff] at hx
        rcases hx with (⟨-, htext⟩ | ⟨-, htext⟩) | ⟨-, htext⟩
        all_goals simp [Lexeme.isOperator, htext, Lexeme.isOperatorChar] at h
  simp [endsOperand, hkind, hcloser]

theorem isSymbol_of_isOperator (h : x.isOperator = true) {text : String}
    (htext : text = "," ∨ text = ";") : x.isSymbol text = false := by
  cases hx : x.isSymbol text with
  | false => rfl
  | true =>
      rcases htext with rfl | rfl
      all_goals simp [Lexeme.isOperator, (Lexeme.isSymbol_iff.1 hx).2, Lexeme.isOperatorChar] at h

/-- Something has to follow the last of the lexemes. -/
structure Dangling (before : List Lexeme) : Prop where
  completes : completes before = false
  closesAngle : closesAngle before = false
  endsOperand : before.head?.any endsOperand = false

/-- No semicolon goes where something has to follow. -/
theorem Dangling.stays (h : Dangling before)
    (hharmless : HarmlessFrom gone levels sourceStop before (x :: lexemes)) : gone x = false := by
  cases hgone : gone x with
  | false => rfl
  | true =>
      rcases (hharmless.semicolon hgone).1 with hcompletes | ⟨hcloses, -⟩
      · exact absurd (h.completes.symm.trans hcompletes) Bool.false_ne_true
      · exact absurd (h.closesAngle.symm.trans hcloses) Bool.false_ne_true

/-- Behind an operator that is no mark behind an operand no statement ends. -/
theorem completes_of_isOperator (hx : x.isOperator = true) (hmark : x.isPostfixOperator = false) :
    completes (x :: before) = false := by
  rw [completes, hmark, if_neg Bool.false_ne_true, endsOperand_of_isOperator hx,
    isSymbol_of_isOperator hx (.inr rfl), kind_of_isOperator hx]
  rfl

theorem dangling_of_isOperator (hx : x.isOperator = true)
    (hfirst : x.isOnNewLine = true ∨ before.head?.any endsOperand = false) :
    Dangling (x :: before) := by
  have hmark : x.isPostfixOperator = true → before.head?.any endsOperand = false := by
    intro hpostfix
    refine hfirst.resolve_left fun hline => ?_
    rw [Lexeme.isPostfixOperator_of_isApart (Lexeme.isApart_of_isOnNewLine hline)] at hpostfix
    exact Bool.false_ne_true hpostfix
  refine ⟨?_, ?_, ?_⟩
  · cases hpostfix : x.isPostfixOperator with
    | true => rw [completes, hpostfix, if_pos rfl, hmark hpostfix]
    | false => exact completes_of_isOperator hx hpostfix
  · rw [closesAngle]
    rcases hfirst with hline | hbefore
    · rw [hline, Bool.not_true, Bool.and_false, Bool.false_and]
    · rw [hbefore, Bool.and_false]
  · rw [List.head?_cons, Option.any_some, endsOperand_of_isOperator hx]

/-- Something has to follow an operator that closes no angle bracket. -/
theorem dangling_of_not_contains (hx : x.isOperator = true) (hmark : x.isPostfixOperator = false)
    (hangle : x.text.toList.contains '>' = false) : Dangling (x :: before) := by
  refine ⟨completes_of_isOperator hx hmark, ?_, ?_⟩
  · rw [closesAngle, hangle, Bool.and_false, Bool.false_and, Bool.false_and]
  · rw [List.head?_cons, Option.any_some, endsOperand_of_isOperator hx]

theorem dangling_of_not_isOperator (hx : x.isOperator = false) (hends : endsOperand x = false)
    (hsemicolon : x.isSymbol ";" = false)
    (hword : x.kind = .token .keyword → (danglingWords ++ modifierWords).contains x.text = true) :
    Dangling (x :: before) := by
  have hpostfix : x.isPostfixOperator = false := by
    cases h : x.isPostfixOperator with
    | false => rfl
    | true => exact absurd (hx.symm.trans (Lexeme.isOperator_of_isPostfixOperator h)) Bool.false_ne_true
  refine ⟨?_, ?_, ?_⟩
  · rw [completes, hpostfix, if_neg Bool.false_ne_true, hends, hsemicolon, Bool.false_or, Bool.false_or]
    by_cases hkind : x.kind = .token .keyword
    · have hcontains := hword hkind
      rw [List.contains_eq_any_beq, List.any_append, ← List.contains_eq_any_beq,
        ← List.contains_eq_any_beq, Bool.or_eq_true] at hcontains
      rcases hcontains with hcontains | hcontains
      · rw [hcontains, Bool.not_true, Bool.and_false, Bool.false_and]
      · rw [hcontains, Bool.not_true, Bool.and_false]
    · rw [beq_false_of_ne hkind, Bool.false_and, Bool.false_and]
  · rw [closesAngle, hx, Bool.false_and, Bool.false_and, Bool.false_and]
  · rw [List.head?_cons, Option.any_some, hends]

/-- The symbols that something has to follow. -/
def danglingSymbols : List String := [":", "->", ",", ".", "=", "(", "[", "\x7b", "...", "&"]

theorem dangling_of_isSymbol {text : String} (hx : x.isSymbol text = true)
    (htext : text ∈ danglingSymbols) : Dangling (x :: before) := by
  obtain ⟨hkind, rfl⟩ := Lexeme.isSymbol_iff.1 hx
  have hends : endsOperand x = false := by
    simp only [danglingSymbols, List.mem_cons, List.not_mem_nil, or_false] at htext
    rcases htext with h | h | h | h | h | h | h | h | h | h
    all_goals simp [endsOperand, hkind, Lexeme.isCloser, Lexeme.isSymbol, h]
  have hpostfix : x.isPostfixOperator = false := by
    simp only [danglingSymbols, List.mem_cons, List.not_mem_nil, or_false] at htext
    rcases htext with h | h | h | h | h | h | h | h | h | h
    all_goals simp [Lexeme.isPostfixOperator, h]
  have hangle : x.isOperator = true → x.text.toList.contains '>' = false := by
    intro hoperator
    simp only [danglingSymbols, List.mem_cons, List.not_mem_nil, or_false] at htext
    rcases htext with h | h | h | h | h | h | h | h | h | h
    all_goals simp [Lexeme.isOperator, Lexeme.isOperatorChar, h] at hoperator ⊢
  have hsemicolon : x.isSymbol ";" = false := by
    simp only [danglingSymbols, List.mem_cons, List.not_mem_nil, or_false] at htext
    rcases htext with h | h | h | h | h | h | h | h | h | h
    all_goals simp [Lexeme.isSymbol, h]
  refine ⟨?_, ?_, ?_⟩
  · rw [completes, hpostfix, if_neg Bool.false_ne_true, hends, hsemicolon, hkind]
    rfl
  · rw [closesAngle]
    cases hoperator : x.isOperator with
    | false => rw [Bool.false_and, Bool.false_and, Bool.false_and]
    | true => rw [hangle hoperator, Bool.and_false, Bool.false_and, Bool.false_and]
  · rw [List.head?_cons, Option.any_some, hends]

theorem isOperator_of_kind_ne (h : x.kind ≠ .punctuation) : x.isOperator = false := by
  cases hx : x.isOperator with
  | false => rfl
  | true => exact absurd (kind_of_isOperator hx) h

theorem isSymbol_of_kind_ne (h : x.kind ≠ .punctuation) (text : String) : x.isSymbol text = false := by
  rw [Lexeme.isSymbol, beq_false_of_ne h, Bool.false_and]

theorem dangling_of_keyword (hkind : x.kind = .token .keyword)
    (hword : x.text ∈ danglingWords ++ modifierWords) : Dangling (x :: before) := by
  have hpunctuation : x.kind ≠ .punctuation := by simp [hkind]
  refine dangling_of_not_isOperator (isOperator_of_kind_ne hpunctuation) ?_
    (isSymbol_of_kind_ne hpunctuation _) fun _ => List.contains_iff_mem.2 hword
  rw [endsOperand, hkind]
  rcases List.mem_append.1 hword with hdangling | hmodifier
  · have hvalue : ∀ word ∈ danglingWords, valueKeywords.contains word = false := by decide
    exact Bool.and_eq_false_imp.2 fun _ => hvalue _ hdangling
  · rw [List.contains_iff_mem.2 hmodifier]
    rfl

theorem dangling_of_isKeyword {word : String} (hx : x.isKeyword word = true)
    (hword : word ∈ danglingWords) : Dangling (x :: before) := by
  obtain ⟨hkind, rfl⟩ := Lexeme.isKeyword_iff.1 hx
  exact dangling_of_keyword hkind (List.mem_append_left _ hword)

theorem endsOperand_of_isKeyword {word : String} (hx : x.isKeyword word = true)
    (hword : valueKeywords.contains word = false) : (x :: before).head?.any endsOperand = false := by
  obtain ⟨hkind, rfl⟩ := Lexeme.isKeyword_iff.1 hx
  rw [List.head?_cons, Option.any_some, endsOperand, hkind]
  exact Bool.and_eq_false_imp.2 fun _ => hword

theorem isOperator_of_modifier (hx : modifierWords.contains x.text = true) : x.isOperator = false := by
  have hplain : ∀ word ∈ modifierWords, (word == "..." || word == "..<" ||
      (word.toList.head?.map Lexeme.isOperatorChar).getD false) = false := by
    decide
  rw [Lexeme.isOperator, hplain _ (List.contains_iff_mem.1 hx), Bool.and_false]

/-- A word that may modify a declaration, whatever kind of lexeme it is. -/
theorem dangling_of_modifier (hx : modifierWords.contains x.text = true) : Dangling (x :: before) := by
  have hmem : x.text ∈ modifierWords := List.contains_iff_mem.1 hx
  have hsemicolon : x.text ≠ ";" := by
    intro htext
    rw [htext] at hx
    exact absurd hx (by decide)
  refine dangling_of_not_isOperator (isOperator_of_modifier hx) ?_ ?_ fun _ => ?_
  · rw [endsOperand, hx]
    rfl
  · rw [Lexeme.isSymbol, beq_false_of_ne hsemicolon, Bool.and_false]
  · exact List.contains_iff_mem.2 (List.mem_append_right _ hmem)

theorem dangling_of_isAttribute (hx : x.isAttribute = true) : Dangling (x :: before) := by
  rw [Lexeme.isAttribute, Bool.and_eq_true, beq_iff_eq] at hx
  have hpunctuation : x.kind ≠ .punctuation := by simp [hx.1]
  refine dangling_of_not_isOperator (isOperator_of_kind_ne hpunctuation) ?_
    (isSymbol_of_kind_ne hpunctuation _) fun hkeyword => by simp [hx.1] at hkeyword
  rw [endsOperand, hx.1, hx.2]
  exact Bool.and_false _

/-- The words `some` and `any` that begin a type. -/
theorem dangling_of_identifier (hkind : x.kind = .token .identifier)
    (htext : x.text = "some" ∨ x.text = "any") : Dangling (x :: before) := by
  have hpunctuation : x.kind ≠ .punctuation := by simp [hkind]
  refine dangling_of_not_isOperator (isOperator_of_kind_ne hpunctuation) ?_
    (isSymbol_of_kind_ne hpunctuation _) fun hkeyword => by simp [hkind] at hkeyword
  rw [endsOperand, hkind]
  rcases htext with htext | htext
  all_goals simp [htext]

/-- Something has to follow a mark that has no operand before it. -/
theorem dangling_of_mark (hx : x.isPostfixOperator = true) (hbefore : Dangling before) :
    Dangling (x :: before) :=
  dangling_of_isOperator (Lexeme.isOperator_of_isPostfixOperator hx) (.inr hbefore.endsOperand)

/-! ### What may come behind a semicolon that goes -/

/-- The lexemes begin a line and cannot carry on a statement. -/
structure Fresh (ahead : List Lexeme) : Prop where
  startsAfresh : startsAfresh ahead = true
  isOnNewLine : ahead.head?.all Lexeme.isOnNewLine = true

/-- The symbols that carry on what stands before them, on the same line or on the next one. -/
def carryingSymbols : List String := [",", ":", "=", ".", "->", "\x7b"]

namespace Fresh

theorem head_isOnNewLine (h : Fresh (x :: lexemes)) : x.isOnNewLine = true := by
  simpa using h.isOnNewLine

theorem isPostfixOperator (h : Fresh (x :: lexemes)) : x.isPostfixOperator = false :=
  Lexeme.isPostfixOperator_of_isApart (Lexeme.isApart_of_isOnNewLine h.head_isOnNewLine)

theorem signatureLength? (h : Fresh lexemes) : signatureLength? lexemes = none := by
  have hstarts := h.startsAfresh
  cases lexemes with
  | nil => rfl
  | cons x lexemes =>
      rw [Grammar.startsAfresh, Bool.and_eq_true, Option.isNone_iff_eq_none] at hstarts
      exact hstarts.1

theorem isKeyword (h : Fresh (x :: lexemes)) {word : String} (hword : word ∈ carryingWords) :
    x.isKeyword word = false := by
  cases hx : x.isKeyword word with
  | false => rfl
  | true =>
      obtain ⟨hkind, htext⟩ := Lexeme.isKeyword_iff.1 hx
      have hstarts := h.startsAfresh
      simp only [Grammar.startsAfresh, hkind, htext, Bool.and_eq_true, Bool.not_eq_true'] at hstarts
      have hcontains : carryingWords.contains word = true := List.contains_iff_mem.2 hword
      rw [hcontains] at hstarts
      exact absurd hstarts.2 Bool.noConfusion

/-- A symbol that begins afresh opens a group, separates statements, closes a group, or is an
operator with its operand right behind it. -/
theorem punctuation (h : Fresh (x :: lexemes)) (hkind : x.kind = .punctuation) :
    (["(", "[", ";", "\\"].contains x.text = true ∨ x.isCloser = true) ∨
      ((x.isOperator = true ∧ x.text ≠ "=") ∧ x.beginsWith '<' = false) ∧
        lexemes.head?.any (fun l => !l.isApart) = true := by
  have hstarts := h.startsAfresh
  rw [Grammar.startsAfresh, hkind, Bool.and_eq_true] at hstarts
  simpa only [Bool.and_eq_true, Bool.or_eq_true, Bool.not_eq_true', bne_iff_ne] using hstarts.2

theorem isSymbol (h : Fresh (x :: lexemes)) {text : String} (htext : text ∈ carryingSymbols) :
    x.isSymbol text = false := by
  cases hx : x.isSymbol text with
  | false => rfl
  | true =>
      obtain ⟨hkind, rfl⟩ := Lexeme.isSymbol_iff.1 hx
      have hclosing : x.isCloser = true → x.text ∉ carryingSymbols := by
        intro hcloser
        simp only [Lexeme.isCloser, Bool.or_eq_true, Lexeme.isSymbol_iff] at hcloser
        rcases hcloser with (⟨-, htext⟩ | ⟨-, htext⟩) | ⟨-, htext⟩
        all_goals
          rw [htext]
          decide
      simp only [carryingSymbols, List.mem_cons, List.not_mem_nil, or_false] at htext
      rcases h.punctuation hkind with (hopens | hcloser) | ⟨⟨⟨hoperator, heq⟩, -⟩, -⟩
      · rcases htext with htext | htext | htext | htext | htext | htext
        all_goals simp [htext] at hopens
      · exact absurd (by simpa [carryingSymbols] using htext) (hclosing hcloser)
      · rcases htext with htext | htext | htext | htext | htext | htext
        all_goals simp [Lexeme.isOperator, htext, Lexeme.isOperatorChar] at hoperator heq

theorem isAngle (h : Fresh (x :: lexemes)) : isAngle x = false := by
  cases hx : Grammar.isAngle x with
  | false => rfl
  | true =>
      rw [Grammar.isAngle, Bool.and_eq_true, beq_iff_eq] at hx
      obtain ⟨hkind, hbegins⟩ := hx
      rcases h.punctuation hkind with (hopens | hcloser) | ⟨⟨-, hangle⟩, -⟩
      · simp only [List.contains_cons, List.contains_nil, Bool.or_eq_true, beq_iff_eq,
          Bool.or_false] at hopens
        rcases hopens with htext | htext | htext | htext
        all_goals simp [Lexeme.beginsWith, htext] at hbegins
      · simp only [Lexeme.isCloser, Bool.or_eq_true, Lexeme.isSymbol_iff] at hcloser
        rcases hcloser with (⟨-, htext⟩ | ⟨-, htext⟩) | ⟨-, htext⟩
        all_goals simp [Lexeme.beginsWith, htext] at hbegins
      · rw [hangle] at hbegins
        exact absurd hbegins Bool.false_ne_true

end Fresh

/-! ### What comes next in the thinned list -/

theorem ApartAlike.eq (h : ApartAlike before x y) (hx : x.isSymbol "," = false)
    (hbefore : before.head?.any (fun l => l.isSymbol ",") = false) : y.isApart = x.isApart := by
  rcases h with h | ⟨hcomma, -⟩ | ⟨hcomma, -⟩
  · exact h
  · rw [hx] at hcomma
    exact absurd hcomma Bool.false_ne_true
  · rw [hbefore] at hcomma
    exact absurd hcomma Bool.false_ne_true

/-- A lexeme that stands right behind one that is no comma still does. -/
theorem ApartAlike.of_not_isApart (h : ApartAlike before x y) (hx : x.isApart = false)
    (hbefore : before.head?.any (fun l => l.isSymbol ",") = false) : y.isApart = false := by
  rcases h with h | ⟨-, hapart⟩ | ⟨hcomma, -⟩
  · rw [h, hx]
  · rw [hx] at hapart
    exact absurd hapart Bool.false_ne_true
  · rw [hbefore] at hcomma
    exact absurd hcomma Bool.false_ne_true

theorem signatureLength?_of_startsAfresh (h : startsAfresh lexemes = true) :
    signatureLength? lexemes = none := by
  cases lexemes with
  | nil => rfl
  | cons x lexemes =>
      rw [startsAfresh, Bool.and_eq_true, Option.isNone_iff_eq_none] at h
      exact h.1

namespace Thinned

/-- No semicolon keeps lexemes apart that would be the signature of a closure without it. -/
theorem signatureLength?_eq (h : Thinned gone before lexemes others)
    (hharmless : HarmlessFrom gone levels sourceStop before lexemes) :
    signatureLength? others = signatureLength? lexemes := by
  induction h with
  | nil => rfl
  | keep hgone halike hapart hrest ih =>
      rw [signatureLength?, signatureLength?, halike.isKeyword, halike.isSignaturePart,
        ih hharmless.tail]
  | drop hgone hsemicolon hline hrest ih =>
      rw [ih hharmless.tail, signatureLength?_of_semicolon hsemicolon]
      exact signatureLength?_of_startsAfresh (hharmless.semicolon hgone).2

/-- The lexeme behind an operator that begins a line is kept right behind it. -/
theorem head?_not_isApart (h : Thinned gone (x :: before) lexemes others)
    (hharmless : HarmlessFrom gone levels sourceStop (x :: before) lexemes) (hx : x.isOperator = true)
    (hline : x.isOnNewLine = true) (hapart : lexemes.head?.any (fun l => !l.isApart) = true) :
    others.head?.any (fun l => !l.isApart) = true := by
  cases h with
  | nil => exact hapart
  | keep hgone halike hapart' hrest =>
      have hcomma : (x :: before).head?.any (fun l => l.isSymbol ",") = false :=
        isSymbol_of_isOperator hx (.inl rfl)
      simp only [List.head?_cons, Option.any_some, Bool.not_eq_true'] at hapart ⊢
      exact hapart'.of_not_isApart hapart hcomma
  | drop hgone hsemicolon hline' hrest =>
      exact absurd ((dangling_of_isOperator hx (.inl hline)).stays hharmless ▸ hgone) Bool.false_ne_true

/-- What begins afresh still does without the semicolons that go. -/
theorem startsAfresh (h : Thinned gone before lexemes others)
    (hharmless : HarmlessFrom gone levels sourceStop before lexemes)
    (hstarts : Grammar.startsAfresh lexemes = true)
    (hline : others.head?.all Lexeme.isOnNewLine = true) : Grammar.startsAfresh others = true := by
  induction h with
  | nil => rfl
  | @keep before lexemes others x y hgone halike hapart hrest ih =>
      have hnone := (Thinned.keep hgone halike hapart hrest).signatureLength?_eq hharmless
      rw [signatureLength?_of_startsAfresh hstarts] at hnone
      rw [Grammar.startsAfresh, Bool.and_eq_true] at hstarts ⊢
      refine ⟨Option.isNone_iff_eq_none.2 hnone, ?_⟩
      have hrest' := hstarts.2
      rw [halike.kind]
      cases hkind : x.kind with
      | token kind =>
          rw [hkind] at hrest'
          cases kind with
          | keyword => rwa [halike.text_eq (by simp [hkind])]
          | identifier | string | comment | other => rfl
      | punctuation =>
          rw [hkind] at hrest'
          have htext := halike.text_eq (by simp [hkind])
          simp only [Bool.or_eq_true, Bool.and_eq_true] at hrest' ⊢
          rw [htext, halike.isCloser, halike.isOperator, halike.beginsWith (by simp [hkind])]
          refine hrest'.imp_right fun hoperator => ⟨hoperator.1, ?_⟩
          refine hrest.head?_not_isApart hharmless.tail hoperator.1.1.1 ?_ hoperator.2
          rw [← halike.isOnNewLine]
          simpa using hline
  | drop hgone hsemicolon hline' hrest ih =>
      exact ih hharmless.tail (hharmless.semicolon hgone).2 hline

/-- What comes first without the semicolons that go is the first lexeme that is no semicolon, or another
semicolon. -/
theorem head?_behindSemicolons (h : Thinned gone before lexemes others) :
    others.head?.all (fun y => y.isSymbol ";") = true ∨
      ∃ x y, behindSemicolons? lexemes = some x ∧ others.head? = some y ∧ x.Alike y := by
  induction h with
  | nil => exact .inl rfl
  | @keep before lexemes others x y hgone halike hapart hrest ih =>
      cases hsemicolon : x.isSymbol ";" with
      | true => exact .inl ((halike.isSymbol ";").trans hsemicolon)
      | false =>
          refine .inr ⟨x, y, ?_, rfl, halike⟩
          rw [behindSemicolons?, List.find?_cons_of_pos (by rw [hsemicolon]; rfl)]
  | drop hgone hsemicolon hline hrest ih =>
      rw [behindSemicolons?, List.find?_cons_of_neg (by rw [hsemicolon]; decide)]
      exact ih

/-- The lexemes that are kept. -/
theorem length_eq (h : Thinned gone before lexemes others) :
    others.length = (lexemes.filter fun l => !gone l).length := by
  induction h with
  | nil => rfl
  | keep hgone halike hapart hrest ih => simp [hgone, ih]
  | drop hgone hsemicolon hline hrest ih => simp [hgone, ih]

end Thinned

/-! ### Cursors -/

/-- The second cursor stands before the same lexemes as the first one, without the semicolons that
go and with other blanks around commas, and at no place from here on does the difference matter. -/
structure Abreast (gone : Lexeme → Bool) (levels : Nat) (before : List Lexeme) (c c' : Cursor) :
    Prop where
  thinned : Thinned gone before c.ahead c'.ahead
  harmless : HarmlessFrom gone levels c.sourceStop before c.ahead
  lastStop : c.lastStop = (before.head?.map Lexeme.stop).getD 0
  valid : c.Valid
  valid' : c'.Valid

/-- The same lexeme comes next at both cursors. -/
structure Kept (gone : Lexeme → Bool) (levels : Nat) (before : List Lexeme) (c c' : Cursor)
    (x y : Lexeme) : Prop where
  peek : c.peek? = some x
  peek' : c'.peek? = some y
  stays : gone x = false
  alike : x.Alike y
  apart : ApartAlike before x y
  later : Abreast gone levels (x :: before) c.advance c'.advance

/-- A semicolon that goes comes next at the first cursor. -/
structure Dropped (gone : Lexeme → Bool) (levels : Nat) (before : List Lexeme) (c c' : Cursor)
    (x : Lexeme) : Prop where
  peek : c.peek? = some x
  goes : gone x = true
  semicolon : x.isSymbol ";" = true
  fresh : Fresh c'.ahead
  later : Abreast gone levels (x :: before) c.advance c'

/-- What comes next at two cursors. -/
inductive Meeting (gone : Lexeme → Bool) (levels : Nat) (before : List Lexeme) (c c' : Cursor) :
    Prop where
  | finished (hahead : c.ahead = []) (hahead' : c'.ahead = [])
  | kept {x y : Lexeme} (h : Kept gone levels before c c' x y)
  | dropped {x : Lexeme} (h : Dropped gone levels before c c' x)

variable {c c' later later' last last' : Cursor}

namespace Abreast

theorem cursorAt_eq (h : Abreast gone levels before c c') :
    cursorAt c.sourceStop before c.ahead = c := by
  rw [cursorAt, ← h.lastStop]

/-- What comes behind the last lexeme is harmless. -/
theorem behind (h : Abreast gone levels (x :: before) c c') {depth : Nat} (hlevel : depth ≤ levels) :
    harmlessBehind gone (ofDepth depth) x c = true := by
  have hbehind := (h.harmless.parts hlevel).2.2.2
  rwa [h.cursorAt_eq, List.head?_cons, Option.all_some] at hbehind

theorem attributeHarmless (h : Abreast gone levels before c c') :
    Grammar.attributeHarmless gone c = true := by
  have hattribute := (h.harmless.parts (Nat.zero_le _)).2.2.1
  rwa [h.cursorAt_eq] at hattribute

/-- What comes next at two cursors that are abreast. -/
theorem meeting (h : Abreast gone levels before c c') : Meeting gone levels before c c' := by
  have hthinned := h.thinned
  have hharmless := h.harmless
  generalize hahead : c.ahead = lexemes at hthinned hharmless
  generalize hahead' : c'.ahead = others at hthinned
  have hstop : ∀ {x lexemes}, c.ahead = x :: lexemes →
      c.advance.lastStop = (((x :: before).head?.map Lexeme.stop).getD 0) := by
    intro x lexemes hahead
    rw [Cursor.advance_of_cons hahead]
    rfl
  cases hthinned with
  | nil => exact .finished hahead hahead'
  | keep hgone halike hapart hrest =>
      refine .kept ⟨Cursor.peek?_eq_some_iff.2 ⟨_, hahead⟩, Cursor.peek?_eq_some_iff.2 ⟨_, hahead'⟩,
        hgone, halike, hapart, ?_, ?_, hstop hahead, h.valid.advance, h.valid'.advance⟩
      · rw [Cursor.advance_of_cons hahead, Cursor.advance_of_cons hahead']
        exact hrest
      · rw [Cursor.advance_of_cons hahead]
        exact hharmless.tail
  | drop hgone hsemicolon hline hrest =>
      refine .dropped ⟨Cursor.peek?_eq_some_iff.2 ⟨_, hahead⟩, hgone, hsemicolon, ⟨?_, ?_⟩, ?_, ?_,
        hstop hahead, h.valid.advance, h.valid'⟩
      · rw [hahead']
        exact hrest.startsAfresh hharmless.tail (hharmless.semicolon hgone).2 hline
      · rw [hahead']
        exact hline
      · rw [Cursor.advance_of_cons hahead, hahead']
        exact hrest
      · rw [Cursor.advance_of_cons hahead]
        exact hharmless.tail

/-- The same lexeme comes next at both cursors when no semicolon that goes does. -/
theorem kept (h : Abreast gone levels before c c') {x : Lexeme} (hpeek : c.peek? = some x)
    (hgone : gone x = false) : ∃ y, Kept gone levels before c c' x y := by
  cases h.meeting with
  | finished hahead =>
      rw [Cursor.peek?, hahead] at hpeek
      cases hpeek
  | @kept x' y hkept =>
      obtain rfl : x' = x := Option.some.inj (hkept.peek.symm.trans hpeek)
      exact ⟨y, hkept⟩
  | dropped hdropped =>
      obtain rfl := Option.some.inj (hdropped.peek.symm.trans hpeek)
      exact absurd (hgone.symm.trans hdropped.goes) Bool.false_ne_true

end Abreast

theorem Abreast.stays (h : Abreast gone levels before c c') (hbefore : Dangling before) :
    c.next gone = false := by
  cases hahead : c.ahead with
  | nil => exact Cursor.next_of_nil hahead
  | cons x ahead =>
      rw [Cursor.next_of_peek? (Cursor.peek?_eq_some_iff.2 ⟨ahead, hahead⟩)]
      exact hbefore.stays (hahead ▸ h.harmless)

/-! ### Tests of the next lexeme -/

/-- A test has the same answer at both cursors when no semicolon passes it, nothing that begins afresh
does, and it does not tell a lexeme from one that is alike. -/
theorem Abreast.next_eq (h : Abreast gone levels before c c') {test : Lexeme → Bool}
    (hkept : ∀ x y, x.Alike y → ApartAlike before x y → test y = test x)
    (hsemicolon : ∀ x, x.isSymbol ";" = true → test x = false)
    (hfresh : ∀ x ahead, Fresh (x :: ahead) → test x = false) : c'.next test = c.next test := by
  cases h.meeting with
  | finished hahead hahead' => rw [Cursor.next_of_nil hahead, Cursor.next_of_nil hahead']
  | kept h =>
      rw [Cursor.next_of_peek? h.peek, Cursor.next_of_peek? h.peek']
      exact hkept _ _ h.alike h.apart
  | dropped h =>
      rw [Cursor.next_of_peek? h.peek, hsemicolon _ h.semicolon]
      cases hahead : c'.ahead with
      | nil => exact Cursor.next_of_nil hahead
      | cons y ahead =>
          rw [Cursor.next_of_peek? (Cursor.peek?_eq_some_iff.2 ⟨ahead, hahead⟩)]
          exact hfresh y ahead (hahead ▸ h.fresh)

/-- Where no semicolon that goes comes next, a test that does not tell a lexeme from one that is
alike has the same answer at both cursors. -/
theorem Abreast.next_eq_of_stays (h : Abreast gone levels before c c') (hnext : c.next gone = false)
    {test : Lexeme → Bool} (halike : ∀ x y, x.Alike y → test y = test x) :
    c'.next test = c.next test := by
  cases h.meeting with
  | finished hahead hahead' => rw [Cursor.next_of_nil hahead, Cursor.next_of_nil hahead']
  | kept h =>
      rw [Cursor.next_of_peek? h.peek, Cursor.next_of_peek? h.peek']
      exact halike _ _ h.alike
  | dropped h =>
      rw [Cursor.next_of_peek? h.peek, h.goes] at hnext
      exact absurd hnext Bool.noConfusion

namespace Abreast

/-- Where a lexeme comes next that is no semicolon, it comes next at both cursors. -/
theorem kept_of_next (h : Abreast gone levels before c c') {test : Lexeme → Bool}
    (hnext : c.next test = true) (hsemicolon : ∀ x, x.isSymbol ";" = true → test x = false) :
    ∃ x y, Kept gone levels before c c' x y ∧ test x = true := by
  cases h.meeting with
  | finished hahead =>
      rw [Cursor.next_of_nil hahead] at hnext
      exact absurd hnext Bool.false_ne_true
  | @kept x y hkept => exact ⟨x, y, hkept, (Cursor.next_of_peek? hkept.peek).symm.trans hnext⟩
  | dropped hdropped =>
      rw [Cursor.next_of_peek? hdropped.peek, hsemicolon _ hdropped.semicolon] at hnext
      exact absurd hnext Bool.false_ne_true

theorem kept_of_atSymbol (h : Abreast gone levels before c c') {text : String}
    (hnext : c.atSymbol text = true)
    (htext : text ≠ ";") : ∃ x y, Kept gone levels before c c' x y ∧ x.isSymbol text = true :=
  h.kept_of_next hnext fun _ hsemicolon => isSymbol_of_semicolon hsemicolon htext

theorem kept_of_atKeyword (h : Abreast gone levels before c c') {word : String}
    (hnext : c.atKeyword word = true) : ∃ x y, Kept gone levels before c c' x y ∧
      x.isKeyword word = true :=
  h.kept_of_next hnext fun _ hsemicolon => isKeyword_of_semicolon hsemicolon word

theorem atSymbol_eq (h : Abreast gone levels before c c') {text : String}
    (htext : text ∈ carryingSymbols) : c'.atSymbol text = c.atSymbol text := by
  have hne : text ≠ ";" := by
    rintro rfl
    exact absurd htext (by decide)
  exact h.next_eq (fun _ _ halike _ => halike.isSymbol text)
    (fun _ hsemicolon => isSymbol_of_semicolon hsemicolon hne) fun _ _ hfresh => hfresh.isSymbol htext

theorem atKeyword_eq (h : Abreast gone levels before c c') {word : String}
    (hword : word ∈ carryingWords) : c'.atKeyword word = c.atKeyword word :=
  h.next_eq (fun _ _ halike _ => halike.isKeyword word)
    (fun _ hsemicolon => isKeyword_of_semicolon hsemicolon word) fun _ _ hfresh => hfresh.isKeyword hword

theorem next_isAngle_eq (h : Abreast gone levels before c c') : c'.next isAngle = c.next isAngle :=
  h.next_eq (fun _ _ halike _ => halike.isAngle) (fun _ hsemicolon => isAngle_of_semicolon hsemicolon)
    fun _ _ hfresh => hfresh.isAngle

end Abreast

/-! ### Blanks before the next lexeme -/

/-- The next lexemes stand apart alike, unless they are commas. -/
def Spaced (gone : Lexeme → Bool) (c c' : Cursor) : Prop :=
  ∀ x y, c.peek? = some x → c'.peek? = some y → gone x = false → x.isSymbol "," = false →
    y.isApart = x.isApart

theorem Abreast.spaced (h : Abreast gone levels before c c')
    (hbefore : before.head?.any (fun l => l.isSymbol ",") = false) : Spaced gone c c' := by
  intro x y hx hy hgone hcomma
  obtain ⟨y', hkept⟩ := h.kept hx hgone
  obtain rfl : y' = y := Option.some.inj (hkept.peek'.symm.trans hy)
  exact hkept.apart.eq hcomma hbefore

theorem Kept.spaced (h : Kept gone levels before c c' x y) (hx : x.isSymbol "," = false) :
    Spaced gone c.advance c'.advance :=
  h.later.spaced (by rw [List.head?_cons, Option.any_some, hx])

/-- A test of lexemes right behind the last one has the same answer at cursors whose next lexemes stand
apart alike, when no comma and no semicolon passes it. -/
theorem Abreast.next_attached_eq (h : Abreast gone levels before c c') (hspaced : Spaced gone c c')
    {test : Lexeme → Bool} (hkept : ∀ x y, x.Alike y → y.isApart = x.isApart → test y = test x)
    (happart : ∀ x, x.isApart = true → test x = false)
    (hsymbol : ∀ x, x.isSymbol "," = true ∨ x.isSymbol ";" = true → test x = false) :
    c'.next test = c.next test := by
  cases h.meeting with
  | finished hahead hahead' => rw [Cursor.next_of_nil hahead, Cursor.next_of_nil hahead']
  | @kept x y h =>
      rw [Cursor.next_of_peek? h.peek, Cursor.next_of_peek? h.peek']
      cases hcomma : x.isSymbol "," with
      | false => exact hkept _ _ h.alike (hspaced _ _ h.peek h.peek' h.stays hcomma)
      | true => rw [hsymbol x (.inl hcomma), hsymbol y (.inl ((h.alike.isSymbol ",").trans hcomma))]
  | dropped h =>
      rw [Cursor.next_of_peek? h.peek, hsymbol _ (.inr h.semicolon)]
      cases hahead : c'.ahead with
      | nil => exact Cursor.next_of_nil hahead
      | cons y ahead =>
          rw [Cursor.next_of_peek? (Cursor.peek?_eq_some_iff.2 ⟨ahead, hahead⟩)]
          have hfresh : Fresh (y :: ahead) := hahead ▸ h.fresh
          exact happart y (Lexeme.isApart_of_isOnNewLine hfresh.head_isOnNewLine)

theorem isPostfixOperator_of_comma (h : x.isSymbol "," = true) : x.isPostfixOperator = false := by
  simp [Lexeme.isPostfixOperator, (Lexeme.isSymbol_iff.1 h).2]

theorem Abreast.next_isPostfixOperator_eq (h : Abreast gone levels before c c')
    (hspaced : Spaced gone c c') :
    c'.next Lexeme.isPostfixOperator = c.next Lexeme.isPostfixOperator :=
  h.next_attached_eq hspaced (fun _ _ halike hapart => halike.isPostfixOperator hapart)
    (fun _ hapart => Lexeme.isPostfixOperator_of_isApart hapart)
    fun _ hsymbol => hsymbol.elim isPostfixOperator_of_comma isPostfixOperator_of_semicolon

/-! ### Reading on -/

/-- Two readings lead from two cursors to cursors that are abreast. -/
structure Onward (gone : Lexeme → Bool) (levels : Nat) (c c' later later' : Cursor) : Prop where
  abreast : ∃ before, Abreast gone levels before later later'
  reaches : c.Reaches later
  reaches' : c'.Reaches later'

namespace Onward

theorem refl (h : Abreast gone levels before c c') : Onward gone levels c c' c c' :=
    ⟨⟨before, h⟩, .refl c, .refl c'⟩

theorem trans (h : Onward gone levels c c' later later')
    (h' : Onward gone levels later later' last last') : Onward gone levels c c' last last' :=
  ⟨h'.abreast, h.reaches.trans h'.reaches, h.reaches'.trans h'.reaches'⟩

end Onward

namespace Kept

theorem onward (h : Kept gone levels before c c' x y) : Onward gone levels c c' c.advance c'.advance :=
  ⟨⟨_, h.later⟩, .advance c, .advance c'⟩

theorem ahead_eq (h : Kept gone levels before c c' x y) : c.ahead = x :: c.advance.ahead := by
  obtain ⟨ahead, hahead⟩ := Cursor.peek?_eq_some_iff.1 h.peek
  rw [Cursor.advance_of_cons hahead, hahead]

theorem ahead_eq' (h : Kept gone levels before c c' x y) : c'.ahead = y :: c'.advance.ahead := by
  obtain ⟨ahead, hahead⟩ := Cursor.peek?_eq_some_iff.1 h.peek'
  rw [Cursor.advance_of_cons hahead, hahead]

theorem passes' (h : Kept gone levels before c c' x y) : c'.Passes c'.advance := .advance h.peek'

theorem next (h : Kept gone levels before c c' x y) {test : Lexeme → Bool} : c.next test = test x :=
  Cursor.next_of_peek? h.peek

theorem next' (h : Kept gone levels before c c' x y) {test : Lexeme → Bool} : c'.next test = test y :=
  Cursor.next_of_peek? h.peek'

end Kept

theorem Dropped.onward (h : Dropped gone levels before c c' x) : Onward gone levels c c' c.advance c' :=
  ⟨⟨_, h.later⟩, .advance c, .refl c'⟩

theorem Abreast.length_eq (h : Abreast gone levels before c c') :
    c'.ahead.length = (c.ahead.filter fun l => !gone l).length :=
  h.thinned.length_eq

/-- As many lexemes that pass a test come next at both cursors, unless they end at a semicolon that goes
and another one comes behind it. -/
theorem Abreast.takeWhile (h : Abreast gone levels before c c') {test : Lexeme → Bool}
    (halike : ∀ x y, x.Alike y → test y = test x)
    (hsemicolon : ∀ x, x.isSymbol ";" = true → test x = false)
    (hend : ∀ before' later later', Abreast gone levels before' later later' →
      before' = before ∨ before'.head?.any test = true → later.ahead = c.ahead.dropWhile test →
      later.next gone = true → later'.next test = false) :
    (c'.ahead.takeWhile test).length = (c.ahead.takeWhile test).length ∧
      Onward gone levels c c' (c.advanceBy (c.ahead.takeWhile test).length)
        (c'.advanceBy (c.ahead.takeWhile test).length) := by
  induction hlength : c.ahead.length using Nat.strongRecOn generalizing before c c' with
  | _ n ih =>
    subst hlength
    cases h.meeting with
    | finished hahead hahead' =>
        rw [hahead, hahead']
        exact ⟨rfl, .refl h⟩
    | @dropped x hdropped =>
        obtain ⟨ahead, hahead⟩ := Cursor.peek?_eq_some_iff.1 hdropped.peek
        have hx := hsemicolon x hdropped.semicolon
        have hnext : c'.next test = false := by
          refine hend before c c' h (.inl rfl) ?_
            ((Cursor.next_of_peek? hdropped.peek).trans hdropped.goes)
          rw [hahead, List.dropWhile_cons_of_neg (by rw [hx]; exact Bool.false_ne_true)]
        have hempty : c'.ahead.takeWhile test = [] := by
          cases hahead' : c'.ahead with
          | nil => rfl
          | cons y ahead' =>
              rw [Cursor.next_of_peek? (Cursor.peek?_eq_some_iff.2 ⟨ahead', hahead'⟩)] at hnext
              rw [List.takeWhile_cons_of_neg (by rw [hnext]; exact Bool.false_ne_true)]
        rw [hempty, hahead, List.takeWhile_cons_of_neg (by rw [hx]; exact Bool.false_ne_true)]
        exact ⟨rfl, .refl h⟩
    | @kept x y hkept =>
        have hahead := hkept.ahead_eq
        have hy := halike x y hkept.alike
        rw [hkept.ahead_eq', hahead]
        cases hx : test x with
        | false =>
            rw [hx] at hy
            rw [List.takeWhile_cons_of_neg (by rw [hy]; exact Bool.false_ne_true),
              List.takeWhile_cons_of_neg (by rw [hx]; exact Bool.false_ne_true)]
            exact ⟨rfl, .refl h⟩
        | true =>
            rw [hx] at hy
            rw [List.takeWhile_cons_of_pos hy, List.takeWhile_cons_of_pos hx]
            obtain ⟨heq, honward⟩ := ih _ (Cursor.Passes.advance hkept.peek).2 hkept.later
              (fun before' later later' hlater hbefore hbehind hgone => by
                refine hend before' later later' hlater (.inr ?_) ?_ hgone
                · rcases hbefore with rfl | hbefore
                  · exact hx
                  · exact hbefore
                · rw [hbehind, hahead, List.dropWhile_cons_of_pos hx]) rfl
            rw [List.length_cons, List.length_cons, heq]
            exact ⟨rfl, hkept.onward.trans honward⟩

/-- Where the same lexeme comes next at both cursors, one reading has stalled just when the other one
has. -/
theorem Onward.hasStalled_eq (h : Onward gone levels c c' later later')
    (hc : Abreast gone levels before c c')
    (hnext : c.next gone = false) : c'.hasStalled later' = c.hasStalled later := by
  obtain ⟨_, hlater⟩ := h.abreast
  have hlength := hc.length_eq
  have hlength' := hlater.length_eq
  obtain ⟨n, rfl⟩ := h.reaches
  rw [Cursor.ahead_advanceBy] at hlength'
  rw [Cursor.hasStalled, Cursor.hasStalled, Cursor.ahead_advanceBy, hlength, hlength',
    Bool.eq_iff_iff, beq_iff_eq, beq_iff_eq]
  cases hahead : c.ahead with
  | nil => simp
  | cons x ahead =>
      rw [Cursor.next_of_peek? (Cursor.peek?_eq_some_iff.2 ⟨ahead, hahead⟩)] at hnext
      cases n with
      | zero => simp
      | succ n =>
          have hfewer : ((ahead.drop n).filter fun l => !gone l).length ≤
              (ahead.filter fun l => !gone l).length :=
            ((List.drop_sublist n ahead).filter _).length_le
          have hshorter : (ahead.drop n).length ≤ ahead.length := (List.drop_sublist n ahead).length_le
          simp only [List.drop_succ_cons, List.length_cons, List.filter_cons, hnext, Bool.not_false,
            if_true]
          omega

end SourceLint.Grammar
