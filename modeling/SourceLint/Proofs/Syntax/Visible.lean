import SourceLint.Proofs.Basic
import SourceLint.Syntax.Lexeme
import SourceLint.Text.Occurrence

/-!
# How far a measurement looks

The length of a lexeme is found from the text behind its first character. A word, a number, an operator
or a sign looks no further than the next separator: blanks, commas and semicolons end it, whatever comes
behind them. A comment or a string literal looks at its own characters and, at most, at whether the text
behind it begins with a newline or goes on with a quote.

## Implementation notes

The statements say that a measurement comes out the same on another text. That is the form in which a
text whose blanks are changed is cut again: the offsets differ, and all that matters of the text behind
a lexeme is what stands before the next separator.
-/

namespace SourceLint

/-- Comments and string literals: nothing inside them counts as code. -/
def LexemeKind.shields : LexemeKind → Bool
  | .token .comment | .token .string => true
  | .token .keyword | .token .identifier | .token .other | .punctuation => false

namespace Lexeme

/-- Blanks, commas and semicolons: no word, number or operator has one of them inside. -/
def isSeparator (c : Char) : Bool := isLayout c || c == ',' || c == ';'

theorem isSpacing_iff {c : Char} : isSpacing c = true ↔ c = ' ' ∨ c = '\t' := by
  rw [isSpacing, Bool.or_eq_true, beq_iff_eq, beq_iff_eq]

theorem isLayout_of_isSpacing {c : Char} (h : isSpacing c = true) : isLayout c = true := by
  rcases isSpacing_iff.1 h with rfl | rfl
  · rfl
  · rfl

theorem isSeparator_of_isSpacing {c : Char} (h : isSpacing c = true) : isSeparator c = true := by
  rw [isSeparator, isLayout_of_isSpacing h]
  rfl

/-- The text before its first separator. -/
def visible (cs : List Char) : List Char := cs.takeWhile fun c => !isSeparator c

@[simp] theorem visible_nil : visible [] = [] := rfl

theorem visible_cons (c : Char) (cs : List Char) :
    visible (c :: cs) = if isSeparator c then [] else c :: visible cs := by
  cases h : isSeparator c <;> simp [visible, h]

theorem visible_of_isSeparator {c : Char} (h : isSeparator c = true) (cs : List Char) :
    visible (c :: cs) = [] := by
  rw [visible_cons, if_pos h]

theorem length_visible_le (cs : List Char) : (visible cs).length ≤ cs.length :=
  (List.takeWhile_sublist _).length_le

/-- The texts agree up to their first separators when a common front has been cut off or not. -/
theorem visible_append {rest rest' : List Char} (h : visible rest = visible rest') (cs : List Char) :
    visible (cs ++ rest) = visible (cs ++ rest') := by
  induction cs with
  | nil => exact h
  | cons c cs ih => rw [List.cons_append, List.cons_append, visible_cons, visible_cons, ih]

/-- A prefix that is visible consists of characters that are no separators. -/
theorem isSeparator_of_mem_take {n : Nat} {cs : List Char} (hn : n ≤ (visible cs).length) {c : Char}
    (hc : c ∈ cs.take n) : isSeparator c = false := by
  have hprefix : visible cs <+: cs := List.takeWhile_prefix _
  obtain ⟨rest, hrest⟩ := hprefix
  rw [← hrest, List.take_append_of_le_length hn] at hc
  have hall : (visible cs).all (fun d => !isSeparator d) = true := List.all_takeWhile
  have hvisible := List.all_eq_true.1 hall c (List.mem_of_mem_take hc)
  simpa using hvisible

/-! ### Plain lexemes -/

section Tests

variable {p : Char → Bool}

/-- A test that no separator passes stops before the first separator. -/
theorem takeWhile_visible (hp : ∀ c, isSeparator c = true → p c = false) (cs : List Char) :
    (visible cs).takeWhile p = cs.takeWhile p := by
  induction cs with
  | nil => rfl
  | cons c cs ih =>
      rw [visible_cons]
      split
      · rename_i hseparator
        simp [hp c hseparator]
      · simp [List.takeWhile_cons, ih]

theorem head?_visible (hp : ∀ c, isSeparator c = true → p c = false) (cs : List Char) :
    ((visible cs).head?.map p).getD false = (cs.head?.map p).getD false := by
  cases cs with
  | nil => rfl
  | cons c cs =>
      rw [visible_cons]
      split
      · rename_i hseparator
        simp [hp c hseparator]
      · rfl

end Tests

/-- A test that fails on the separators, one by one, fails on each of them. -/
theorem eq_false_of_isSeparator {p : Char → Bool}
    (hp : [' ', '\t', '\r', '\n', ',', ';'].any p = false) {c : Char} (h : isSeparator c = true) :
    p c = false := by
  rw [List.any_eq_false] at hp
  rw [Bool.eq_false_iff]
  apply hp
  simpa [isSeparator, isLayout, or_assoc] using h

theorem isWordStart_of_isSeparator {c : Char} (h : isSeparator c = true) :
    isWordStart c = false :=
  eq_false_of_isSeparator (by decide) h

theorem isWordPart_of_isSeparator {c : Char} (h : isSeparator c = true) : isWordPart c = false :=
  eq_false_of_isSeparator (by decide) h

theorem isOperatorChar_of_isSeparator {c : Char} (h : isSeparator c = true) :
    isOperatorChar c = false :=
  eq_false_of_isSeparator (by decide) h

theorem isDigit_of_isSeparator {c : Char} (h : isSeparator c = true) : c.isDigit = false :=
  eq_false_of_isSeparator (by decide) h

/-- No number goes on with a separator. -/
theorem numberChar_of_isSeparator {c : Char} (h : isSeparator c = true) :
    (c.isAlphanum || c == '_' || c == '.') = false :=
  @eq_false_of_isSeparator (fun c => c.isAlphanum || c == '_' || c == '.') (by decide) c h

/-- Whether a text begins with a pattern without separators shows before its first separator. -/
theorem startsWith_visible {pattern : List Char} (hpattern : pattern.any isSeparator = false)
    (cs : List Char) : startsWith pattern (visible cs) = startsWith pattern cs := by
  induction pattern generalizing cs with
  | nil => rfl
  | cons d pattern ih =>
      obtain ⟨hd, hpattern⟩ := Bool.or_eq_false_iff.1 hpattern
      cases cs with
      | nil => rfl
      | cons c cs =>
          rw [visible_cons]
          split
          · rename_i hseparator
            have hne : (d == c) = false := by
              rw [beq_eq_false_iff_ne]
              rintro rfl
              cases hd.symm.trans hseparator
            simp [startsWith, List.isPrefixOf, hne]
          · have hrest := ih hpattern cs
            simp only [startsWith, List.isPrefixOf] at hrest ⊢
            rw [hrest]

theorem wordTail_visible (cs : List Char) : wordTail (visible cs) = wordTail cs := by
  rw [wordTail, wordTail, takeWhile_visible fun c => isWordPart_of_isSeparator]

theorem numberTail_visible (cs : List Char) : numberTail (visible cs) = numberTail cs := by
  induction cs with
  | nil => rfl
  | cons c cs ih =>
      rw [visible_cons]
      split
      · rename_i hseparator
        have hstop := numberChar_of_isSeparator hseparator
        simp only [Bool.or_eq_false_iff] at hstop
        simp [numberTail, hstop.1, hstop.2]
      · have hpoint := head?_visible (p := Char.isDigit) (fun c => isDigit_of_isSeparator) cs
        simp only [numberTail, hpoint, ih]

theorem operatorTail_visible (cs : List Char) : operatorTail (visible cs) = operatorTail cs := by
  induction cs with
  | nil => rfl
  | cons c cs ih =>
      have hline : startsWith ['/', '/'] (visible (c :: cs)) = startsWith ['/', '/'] (c :: cs) :=
        startsWith_visible (by decide) _
      have hblock : startsWith ['/', '*'] (visible (c :: cs)) = startsWith ['/', '*'] (c :: cs) :=
        startsWith_visible (by decide) _
      rw [operatorTail, ← hline, ← hblock, visible_cons]
      split
      · rename_i hseparator
        simp [operatorTail, startsWith, isOperatorChar_of_isSeparator hseparator]
      · rw [operatorTail, ih]

theorem wordTail_le (cs : List Char) : wordTail cs ≤ cs.length :=
  (List.takeWhile_sublist _).length_le

theorem numberTail_le (cs : List Char) : numberTail cs ≤ cs.length := by
  induction cs with
  | nil => exact Nat.le_refl _
  | cons c cs ih =>
      simp only [numberTail, List.length_cons]
      split <;> omega

theorem operatorTail_le (cs : List Char) : operatorTail cs ≤ cs.length := by
  induction cs with
  | nil => exact Nat.le_refl _
  | cons c cs ih =>
      simp only [operatorTail, List.length_cons]
      split
      · omega
      · split <;> omega

/-- The longest of all runs that stop at separators. -/
theorem le_length_visible {tail : List Char → Nat} (hle : ∀ cs, tail cs ≤ cs.length)
    (hvisible : ∀ cs, tail (visible cs) = tail cs) (cs : List Char) :
    tail cs ≤ (visible cs).length :=
  hvisible cs ▸ hle (visible cs)

variable {start : Nat} {c : Char} {cs : List Char} {kind : LexemeKind} {n : Nat}

/-- The measurement comes out as `n` further characters, whatever stands behind the next separator. -/
def SettledBySeparator (measure : Nat → List Char → Except SyntaxError (LexemeKind × Nat))
    (cs : List Char) (kind : LexemeKind) (n : Nat) : Prop :=
  n ≤ (visible cs).length ∧
    ∀ start ds, visible ds = visible cs → measure start ds = .ok (kind, n)

theorem SettledBySeparator.of_eq {measure : Nat → List Char → Except SyntaxError (LexemeKind × Nat)}
    {tail : List Char → Nat} (hle : ∀ cs, tail cs ≤ cs.length)
    (hvisible : ∀ cs, tail (visible cs) = tail cs)
    (h : ∀ start ds, visible ds = visible cs → measure start ds = .ok (kind, tail ds)) :
    SettledBySeparator measure cs kind (tail cs) := by
  refine ⟨le_length_visible hle hvisible cs, ?_⟩
  intro start ds hds
  rw [h start ds hds, ← hvisible ds, hds, hvisible cs]

theorem startsWith_congr {pattern cs ds : List Char}
    (hpattern : pattern.any isSeparator = false) (h : visible ds = visible cs) :
    startsWith pattern ds = startsWith pattern cs := by
  rw [← startsWith_visible hpattern, h, startsWith_visible hpattern]

theorem measureSlash_settled (h : measureSlash start cs = .ok (kind, n))
    (hkind : kind.shields = false) : SettledBySeparator measureSlash cs kind n := by
  rw [measureSlash] at h
  split at h
  · obtain ⟨rfl, -⟩ := Prod.mk.inj (Except.ok.inj h)
    exact absurd hkind (by decide)
  · rename_i hline
    split at h
    · split at h
      · obtain ⟨rfl, -⟩ := Prod.mk.inj (Except.ok.inj h)
        exact absurd hkind (by decide)
      · cases h
    · rename_i hblock
      obtain ⟨rfl, rfl⟩ := Prod.mk.inj (Except.ok.inj h)
      apply SettledBySeparator.of_eq operatorTail_le operatorTail_visible
      intro start ds hds
      rw [measureSlash, startsWith_congr (by decide) hds, if_neg hline,
        startsWith_congr (by decide) hds, if_neg hblock]

theorem head?_congr {p : Char → Bool} {cs ds : List Char}
    (hp : ∀ c, isSeparator c = true → p c = false) (h : visible ds = visible cs) :
    (ds.head?.map p).getD false = (cs.head?.map p).getD false := by
  rw [← head?_visible hp, h, head?_visible hp]

/-- Behind the characters that pass a test, texts still agree up to their first separators. -/
theorem visible_drop_takeWhile {p : Char → Bool} (hp : ∀ c, isSeparator c = true → p c = false)
    (cs : List Char) :
    visible (cs.drop (cs.takeWhile p).length) =
      (visible cs).drop ((visible cs).takeWhile p).length := by
  induction cs with
  | nil => rfl
  | cons c cs ih =>
      cases hseparator : isSeparator c with
      | true => simp [visible_cons, hseparator, hp c hseparator]
      | false => cases hc : p c <;> simp [visible_cons, hseparator, hc, ih]

/-- A sign that a word may follow, measured together with that word. -/
theorem SettledBySeparator.marked (start : Nat)
    {measure : Nat → List Char → Except SyntaxError (LexemeKind × Nat)}
    (hmeasure : ∀ start ds, visible ds = visible cs → measure start ds =
      if (ds.head?.map isWordStart).getD false then .ok (.token .other, wordTail ds)
      else .ok (.punctuation, 0))
    (h : measure start cs = .ok (kind, n)) : SettledBySeparator measure cs kind n := by
  have hhead : ∀ ds, visible ds = visible cs →
      (ds.head?.map isWordStart).getD false = (cs.head?.map isWordStart).getD false :=
    fun ds hds => head?_congr (fun c => isWordStart_of_isSeparator) hds
  rw [hmeasure start cs rfl] at h
  split at h
  · rename_i hword
    obtain ⟨rfl, rfl⟩ := Prod.mk.inj (Except.ok.inj h)
    apply SettledBySeparator.of_eq wordTail_le wordTail_visible
    intro start ds hds
    rw [hmeasure start ds hds, hhead ds hds, if_pos hword]
  · rename_i hword
    obtain ⟨rfl, rfl⟩ := Prod.mk.inj (Except.ok.inj h)
    refine ⟨Nat.zero_le _, ?_⟩
    intro start ds hds
    rw [hmeasure start ds hds, hhead ds hds, if_neg hword]

theorem measureHash_settled (h : measureHash start cs = .ok (kind, n))
    (hkind : kind.shields = false) : SettledBySeparator measureHash cs kind n := by
  have hquote : startsWith ['"'] (cs.drop (cs.takeWhile (· == '#')).length) = false := by
    rw [Bool.eq_false_iff]
    intro hquote
    rw [measureHash] at h
    simp only [Nat.add_sub_cancel, hquote, if_true] at h
    obtain ⟨length, -, hlength⟩ := exceptMap_eq_ok_iff.1 h
    obtain ⟨rfl, -⟩ := Prod.mk.inj hlength
    exact absurd hkind (by decide)
  have hsign : ∀ c, isSeparator c = true → (c == '#') = false := by
    intro c hc
    rw [beq_eq_false_iff_ne]
    rintro rfl
    exact absurd hc (by decide)
  refine .marked start (fun start ds hds => ?_) h
  have hbehind : visible (ds.drop (ds.takeWhile (· == '#')).length) =
      visible (cs.drop (cs.takeWhile (· == '#')).length) := by
    rw [visible_drop_takeWhile hsign, visible_drop_takeWhile hsign, hds]
  have hquoted : startsWith ['"'] (ds.drop (ds.takeWhile (· == '#')).length) = false := by
    rw [startsWith_congr (by decide) hbehind, hquote]
  rw [measureHash]
  simp only [Nat.add_sub_cancel, hquoted, Bool.false_eq_true, if_false]

/-- The characters of a word, from its second one on. -/
theorem take_wordTail_congr {ds : List Char} (h : visible ds = visible cs) :
    ds.take (wordTail ds) = cs.take (wordTail cs) := by
  have htake : ∀ cs, cs.take (wordTail cs) = (visible cs).takeWhile isWordPart := by
    intro cs
    rw [takeWhile_visible fun c => isWordPart_of_isSeparator, wordTail]
    exact (List.prefix_iff_eq_take.1 (List.takeWhile_prefix _)).symm
  rw [htake, htake, h]

theorem length_le_of_startsWith {pattern : List Char}
    (hpattern : pattern.any isSeparator = false) (h : startsWith pattern cs = true) :
    pattern.length ≤ (visible cs).length := by
  rw [← startsWith_visible hpattern] at h
  exact (List.isPrefixOf_iff_prefix.1 h).length_le

/-- A word, a number, an operator or a sign ends at the next separator or before, and it is measured in
the same way whatever stands behind that. -/
theorem measure_settled (h : measure start c cs = .ok (kind, n)) (hkind : kind.shields = false)
    (hc : c ≠ '\x60') : SettledBySeparator (fun start => measure start c) cs kind n := by
  have hc : (c == '\x60') = false := beq_eq_false_iff_ne.2 hc
  unfold measure at h ⊢
  simp only [hc, Bool.false_eq_true, if_false] at h ⊢
  by_cases hslash : c == '/'
  · simp only [hslash, if_true] at h ⊢
    exact measureSlash_settled h hkind
  simp only [hslash, Bool.false_eq_true, if_false] at h ⊢
  by_cases hquote : c == '"'
  · simp only [hquote, if_true] at h
    obtain ⟨length, -, hlength⟩ := exceptMap_eq_ok_iff.1 h
    obtain ⟨rfl, -⟩ := Prod.mk.inj hlength
    exact absurd hkind (by decide)
  simp only [hquote, Bool.false_eq_true, if_false] at h ⊢
  by_cases hhash : c == '#'
  · simp only [hhash, if_true] at h ⊢
    exact measureHash_settled h hkind
  simp only [hhash, Bool.false_eq_true, if_false] at h ⊢
  by_cases hat : c == '@'
  · simp only [hat, if_true] at h ⊢
    exact .marked start (fun start ds hds => rfl) h
  simp only [hat, Bool.false_eq_true, if_false] at h ⊢
  by_cases hdollar : c == '$'
  · simp only [hdollar, if_true] at h ⊢
    obtain ⟨rfl, rfl⟩ := Prod.mk.inj (Except.ok.inj h)
    exact .of_eq wordTail_le wordTail_visible fun start ds hds => rfl
  simp only [hdollar, Bool.false_eq_true, if_false] at h ⊢
  by_cases hpoint : c == '.'
  · simp only [hpoint, if_true] at h ⊢
    have hdots : ∀ ds, visible ds = visible cs →
        (startsWith ['.', '.'] ds || startsWith ['.', '<'] ds) =
          (startsWith ['.', '.'] cs || startsWith ['.', '<'] cs) := by
      intro ds hds
      rw [startsWith_congr (by decide) hds, startsWith_congr (by decide) hds]
    split at h
    · rename_i hrange
      obtain ⟨rfl, rfl⟩ := Prod.mk.inj (Except.ok.inj h)
      refine ⟨?_, fun start ds hds => if_pos ((hdots ds hds).trans hrange)⟩
      rcases Bool.or_eq_true_iff.1 hrange with hrange | hrange
      · exact length_le_of_startsWith (by decide) hrange
      · exact length_le_of_startsWith (by decide) hrange
    · rename_i hsign
      obtain ⟨rfl, rfl⟩ := Prod.mk.inj (Except.ok.inj h)
      exact ⟨Nat.zero_le _, fun start ds hds => if_neg (hdots ds hds ▸ hsign)⟩
  simp only [hpoint, Bool.false_eq_true, if_false] at h ⊢
  by_cases hdigit : c.isDigit
  · simp only [hdigit, if_true] at h ⊢
    obtain ⟨rfl, rfl⟩ := Prod.mk.inj (Except.ok.inj h)
    exact .of_eq numberTail_le numberTail_visible fun start ds hds => rfl
  simp only [hdigit, Bool.false_eq_true, if_false] at h ⊢
  by_cases hoperator : isOperatorChar c
  · simp only [hoperator, if_true] at h ⊢
    obtain ⟨rfl, rfl⟩ := Prod.mk.inj (Except.ok.inj h)
    exact .of_eq operatorTail_le operatorTail_visible fun start ds hds => rfl
  simp only [hoperator, Bool.false_eq_true, if_false] at h ⊢
  by_cases hword : isWordStart c
  · simp only [hword, if_true] at h ⊢
    obtain ⟨rfl, rfl⟩ := Prod.mk.inj (Except.ok.inj h)
    refine .of_eq wordTail_le wordTail_visible ?_
    intro start ds hds
    rw [take_wordTail_congr hds]
  simp only [hword, Bool.false_eq_true, if_false] at h ⊢
  obtain ⟨rfl, rfl⟩ := Prod.mk.inj (Except.ok.inj h)
  exact ⟨Nat.zero_le _, fun start ds hds => rfl⟩

end Lexeme

end SourceLint
