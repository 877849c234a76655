import SourceLint.Proofs.Grammar.Harmless

/-!
# Lexemes that are alike

The grammar sees no difference between two lexemes with the same kind and the same text that both
begin a line or both do not. What stands in a string literal or between the backticks of a name does
not matter either.
-/

namespace SourceLint.Lexeme

/-- A name in backticks or a string literal begins with this character. -/
def isQuoteMark (c : Char) : Bool := c == '\x60' || c == '"' || c == '#'

/-- The text begins as a name in backticks or a string literal does. -/
def beginsQuoted (text : String) : Bool := text.toList.head?.any isQuoteMark

/-- The grammar sees no difference between the two lexemes, other than whether they stand apart. -/
structure Alike (x y : Lexeme) : Prop where
  kind : y.kind = x.kind
  isOnNewLine : y.isOnNewLine = x.isOnNewLine
  text : y.text = x.text ∨ (x.kind = .token .identifier ∨ x.kind = .token .string) ∧
    beginsQuoted x.text = true ∧ beginsQuoted y.text = true

namespace Alike

variable {x y : Lexeme}

theorem refl (x : Lexeme) : x.Alike x := ⟨rfl, rfl, .inl rfl⟩

theorem text_eq (h : x.Alike y)
    (hkind : x.kind ≠ .token .identifier ∧ x.kind ≠ .token .string) : y.text = x.text :=
  h.text.resolve_right fun hquoted => hquoted.1.elim hkind.1 hkind.2

theorem text_eq_iff (h : x.Alike y) {t : String} (ht : beginsQuoted t = false) :
    y.text = t ↔ x.text = t := by
  rcases h.text with htext | ⟨-, hx, hy⟩
  · rw [htext]
  · have hne : ∀ l : Lexeme, beginsQuoted l.text = true → l.text ≠ t := by
      rintro l hl rfl
      exact Bool.false_ne_true (ht.symm.trans hl)
    exact ⟨fun hyt => absurd hyt (hne y hy), fun hxt => absurd hxt (hne x hx)⟩

theorem text_beq (h : x.Alike y) {t : String} (ht : beginsQuoted t = false) :
    (y.text == t) = (x.text == t) := by
  rw [Bool.eq_iff_iff, beq_iff_eq, beq_iff_eq, h.text_eq_iff ht]

theorem contains_text (h : x.Alike y) {ts : List String}
    (hts : ts.all (fun t => !beginsQuoted t) = true) :
    ts.contains y.text = ts.contains x.text := by
  induction ts with
  | nil => rfl
  | cons t ts ih =>
      rw [List.all_cons, Bool.and_eq_true, Bool.not_eq_true'] at hts
      rw [List.contains_cons, List.contains_cons, ih hts.2, h.text_beq hts.1]

theorem isSymbol (h : x.Alike y) (t : String) : y.isSymbol t = x.isSymbol t := by
  rw [Lexeme.isSymbol, Lexeme.isSymbol, h.kind]
  by_cases hkind : x.kind = .punctuation
  · rw [h.text_eq (by simp [hkind])]
  · rw [beq_false_of_ne hkind, Bool.false_and, Bool.false_and]

theorem isKeyword (h : x.Alike y) (t : String) : y.isKeyword t = x.isKeyword t := by
  rw [Lexeme.isKeyword, Lexeme.isKeyword, h.kind]
  by_cases hkind : x.kind = .token .keyword
  · rw [h.text_eq (by simp [hkind])]
  · rw [beq_false_of_ne hkind, Bool.false_and, Bool.false_and]

theorem isIdentifier (h : x.Alike y) : y.isIdentifier = x.isIdentifier := by
  rw [Lexeme.isIdentifier, Lexeme.isIdentifier, h.kind]

theorem isWord (h : x.Alike y) : y.isWord = x.isWord := by
  rw [Lexeme.isWord, Lexeme.isWord, h.isIdentifier, h.kind]

theorem isOpener (h : x.Alike y) : y.isOpener = x.isOpener := by
  simp only [Lexeme.isOpener, h.isSymbol]

theorem isCloser (h : x.Alike y) : y.isCloser = x.isCloser := by
  simp only [Lexeme.isCloser, h.isSymbol]

theorem closes {x' y' : Lexeme} (h : x.Alike y) (h' : x'.Alike y') : y.closes y' = x.closes x' := by
  simp only [Lexeme.closes, h.isSymbol, h'.isSymbol]

theorem beginsWith (h : x.Alike y)
    (hkind : x.kind ≠ .token .identifier ∧ x.kind ≠ .token .string) (c : Char) :
    y.beginsWith c = x.beginsWith c := by
  rw [Lexeme.beginsWith, Lexeme.beginsWith, h.text_eq hkind]

theorem isOperator (h : x.Alike y) : y.isOperator = x.isOperator := by
  rw [Lexeme.isOperator, Lexeme.isOperator, h.kind]
  by_cases hkind : x.kind = .punctuation
  · rw [h.text_eq (by simp [hkind])]
  · simp only [beq_false_of_ne hkind, Bool.false_and]

theorem isMemberName (h : x.Alike y) : y.isMemberName = x.isMemberName := by
  rw [Lexeme.isMemberName, Lexeme.isMemberName, h.isWord, h.kind]

theorem isAttribute (h : x.Alike y) : y.isAttribute = x.isAttribute := by
  rw [Lexeme.isAttribute, Lexeme.isAttribute, h.kind]
  by_cases hkind : x.kind = .token .other
  · rw [h.beginsWith (by simp [hkind])]
  · rw [beq_false_of_ne hkind, Bool.false_and, Bool.false_and]

theorem isAngle (h : x.Alike y) : Grammar.isAngle y = Grammar.isAngle x := by
  rw [Grammar.isAngle, Grammar.isAngle, h.kind]
  by_cases hkind : x.kind = .punctuation
  · rw [h.beginsWith (by simp [hkind])]
  · rw [beq_false_of_ne hkind, Bool.false_and, Bool.false_and]

theorem beginsOperand (h : x.Alike y) : Grammar.beginsOperand y = Grammar.beginsOperand x := by
  rw [Grammar.beginsOperand, Grammar.beginsOperand, h.isCloser, h.kind, h.contains_text (by decide)]

theorem isSignaturePart (h : x.Alike y) : Grammar.isSignaturePart y = Grammar.isSignaturePart x := by
  rw [Grammar.isSignaturePart, Grammar.isSignaturePart, h.kind]
  cases hkind : x.kind with
  | punctuation => rw [h.text_eq (by simp [hkind])]
  | token kind =>
      cases kind with
      | identifier => rfl
      | string => rfl
      | comment => rfl
      | keyword => rw [h.text_eq (by simp [hkind])]
      | other => rw [h.beginsWith (by simp [hkind])]

theorem isPostfixOperator (h : x.Alike y) (hapart : y.isApart = x.isApart) :
    y.isPostfixOperator = x.isPostfixOperator := by
  rw [Lexeme.isPostfixOperator, Lexeme.isPostfixOperator, h.kind, hapart]
  by_cases hkind : x.kind = .punctuation
  · rw [h.text_eq (by simp [hkind])]
  · simp only [beq_false_of_ne hkind, Bool.false_and]

theorem angleDepth (h : x.Alike y) (hkind : x.kind = .punctuation) :
    Cursor.angleDepth y = Cursor.angleDepth x := by
  rw [Cursor.angleDepth, Cursor.angleDepth, h.text_eq (by simp [hkind])]

end Alike

/-! ### What a lexeme can be -/

theorem isSymbol_iff {x : Lexeme} {t : String} :
    x.isSymbol t = true ↔ x.kind = .punctuation ∧ x.text = t := by
  rw [isSymbol, Bool.and_eq_true, beq_iff_eq, beq_iff_eq]

theorem isKeyword_iff {x : Lexeme} {t : String} :
    x.isKeyword t = true ↔ x.kind = .token .keyword ∧ x.text = t := by
  rw [isKeyword, Bool.and_eq_true, beq_iff_eq, beq_iff_eq]

/-- A lexeme that begins a line stands apart. -/
theorem isApart_of_isOnNewLine {x : Lexeme} (h : x.isOnNewLine = true) : x.isApart = true := by
  rw [isOnNewLine, List.contains_iff_mem] at h
  rw [isApart, Bool.not_eq_true', List.isEmpty_eq_false_iff_exists_mem]
  exact ⟨_, h⟩

theorem isPostfixOperator_of_isApart {x : Lexeme} (h : x.isApart = true) :
    x.isPostfixOperator = false := by
  simp [isPostfixOperator, h]

/-- A mark behind an operand is an operator. -/
theorem isOperator_of_isPostfixOperator {x : Lexeme} (h : x.isPostfixOperator = true) :
    x.isOperator = true := by
  simp only [isPostfixOperator, Bool.and_eq_true, Bool.not_eq_true', List.isEmpty_eq_false_iff,
    List.all_eq_true, Bool.or_eq_true, beq_iff_eq] at h
  obtain ⟨⟨⟨hkind, -⟩, hne⟩, hmarks⟩ := h
  obtain ⟨c, cs, hcs⟩ := List.exists_cons_of_ne_nil hne
  have hc : c = '?' ∨ c = '!' := hmarks c (by rw [hcs]; exact List.mem_cons_self)
  have harrow : x.text ≠ "->" := by
    intro htext
    rw [htext] at hmarks
    have := hmarks '-' (by decide)
    simp at this
  have hhead : isOperatorChar c = true := by
    rcases hc with rfl | rfl
    · rfl
    · rfl
  simp [isOperator, hkind, harrow, hcs, hhead]

end SourceLint.Lexeme
