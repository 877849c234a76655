import Mathlib
import SourceLint.Config.Basic
import SourceLint.Proofs.Text.Blanks

/-!
# The spelling of names

Names in a configuration are alike when they differ only in white space around them, in the case of letters
of ASCII, and in underscores for hyphens. The one spelling of a name is a spelling of it, and alike names are
those that have the same one.
-/

namespace SourceLint

/-- Two characters are spellings of each other: they are the same, they are the hyphen and the underscore, or
they are the two cases of a letter of ASCII. -/
inductive AlikeChar : Char → Char → Prop
  | same (c : Char) : AlikeChar c c
  | underscore : AlikeChar '_' '-'
  | hyphen : AlikeChar '-' '_'
  | capital {c : Char} (h : c.isUpper = true) : AlikeChar c c.toLower
  | small {c : Char} (h : c.isUpper = true) : AlikeChar c.toLower c

/-- The name is a text with white space around it. -/
def Pads (cs : List Char) (name : String) : Prop :=
  ∃ before after, name.toList = before ++ cs ++ after ∧ (∀ c ∈ before, isBlank c = true) ∧
    ∀ c ∈ after, isBlank c = true

/-- Two names differ only in white space around them and in the spelling of their characters. -/
def SpelledAlike (name name' : String) : Prop :=
  ∃ cs cs', Pads cs name ∧ Pads cs' name' ∧ List.Forall₂ AlikeChar cs cs'

/-! ### Characters -/

theorem toNat_toLower_of_isUpper {c : Char} (h : c.isUpper = true) :
    65 ≤ c.toNat ∧ c.toNat ≤ 90 ∧ c.toLower.toNat = c.toNat + 32 := by
  have hbounds : 65 ≤ c.toNat ∧ c.toNat ≤ 90 := by
    simpa [Char.isUpper, UInt32.le_iff_toNat_le] using h
  have hvalid : (c.toNat + 32).isValidChar := .inl (by omega)
  rw [Char.toLower_eq_of_isUpper h, Char.toNat_ofNat, if_pos hvalid]
  exact ⟨hbounds.1, hbounds.2, rfl⟩

theorem toLower_injOn_isUpper {c d : Char} (hc : c.isUpper = true) (hd : d.isUpper = true)
    (h : c.toLower = d.toLower) : c = d := by
  obtain ⟨-, -, hlowerc⟩ := toNat_toLower_of_isUpper hc
  obtain ⟨-, -, hlowerd⟩ := toNat_toLower_of_isUpper hd
  apply Char.toNat_inj.1
  have := congrArg Char.toNat h
  omega

/-- Between the space and the first white space beyond ASCII there is none. -/
theorem isBlank_eq_false {c : Char} (hlow : 32 < c.toNat) (hhigh : c.toNat < 133) :
    isBlank c = false := by
  have hval : c.toNat = c.val.toNat := rfl
  rw [← Bool.not_eq_true]
  intro h
  simp only [isBlank, Bool.or_eq_true, Bool.and_eq_true, decide_eq_true_eq, beq_iff_eq,
    UInt32.le_iff_toNat_le, ← UInt32.toNat_inj, UInt32.reduceToNat] at h
  omega

/-- The character that stands for a character in the one spelling of a name. -/
def spelledChar (c : Char) : Char := (if c == '_' then '-' else c).toLower

theorem spelledChar_cases (c : Char) :
    c = '_' ∧ spelledChar c = '-' ∨ c.isUpper = true ∧ spelledChar c = c.toLower ∨
      c ≠ '_' ∧ c.isUpper = false ∧ spelledChar c = c := by
  by_cases hc : c = '_'
  · exact .inl ⟨hc, by rw [hc]; decide⟩
  · have hspelled : spelledChar c = c.toLower := by simp [spelledChar, hc]
    cases h : c.isUpper with
    | true => exact .inr (.inl ⟨rfl, hspelled⟩)
    | false => exact .inr (.inr ⟨hc, rfl, hspelled.trans (Char.toLower_eq_of_not_isUpper (by simp [h]))⟩)

theorem spelledChar_of_isUpper {c : Char} (h : c.isUpper = true) : spelledChar c = c.toLower := by
  have hc : c ≠ '_' := by
    rintro rfl
    exact absurd h (by decide)
  simp [spelledChar, hc]

theorem toLower_ne_of_isUpper {c : Char} (h : c.isUpper = true) : c.toLower ≠ '_' ∧ c.toLower ≠ '-' := by
  obtain ⟨hlow, hhigh, hcode⟩ := toNat_toLower_of_isUpper h
  constructor
  · intro heq
    have hunderscore : 95 = c.toNat + 32 := by rw [← hcode, heq]; rfl
    omega
  · intro heq
    have hhyphen : 45 = c.toNat + 32 := by rw [← hcode, heq]; rfl
    omega

/-- A small letter is spelled as it is. -/
theorem spelledChar_toLower {c : Char} (h : c.isUpper = true) : spelledChar c.toLower = c.toLower := by
  rcases spelledChar_cases c.toLower with ⟨hlower, -⟩ | ⟨hlower, -⟩ | ⟨-, -, hlower⟩
  · exact absurd hlower (toLower_ne_of_isUpper h).1
  · rw [Char.isUpper_toLower_eq_false] at hlower
    cases hlower
  · exact hlower

theorem spelledChar_spelledChar (c : Char) : spelledChar (spelledChar c) = spelledChar c := by
  rcases spelledChar_cases c with ⟨-, h⟩ | ⟨hupper, h⟩ | ⟨-, -, h⟩
  · rw [h]
    decide
  · rw [h, spelledChar_toLower hupper]
  · rw [h, h]

theorem isBlank_spelledChar (c : Char) : isBlank (spelledChar c) = isBlank c := by
  rcases spelledChar_cases c with ⟨rfl, -⟩ | ⟨hupper, h⟩ | ⟨-, -, h⟩
  · decide
  · obtain ⟨hlow, hhigh, hcode⟩ := toNat_toLower_of_isUpper hupper
    rw [h, isBlank_eq_false (by omega) (by omega), isBlank_eq_false (by omega) (by omega)]
  · rw [h]

theorem AlikeChar.spelledChar_eq {c d : Char} (h : AlikeChar c d) : spelledChar c = spelledChar d := by
  cases h with
  | same => rfl
  | underscore => decide
  | hyphen => decide
  | capital h => rw [spelledChar_of_isUpper h, spelledChar_toLower h]
  | small h => rw [spelledChar_of_isUpper h, spelledChar_toLower h]

theorem alikeChar_of_spelledChar_eq {c d : Char} (h : spelledChar c = spelledChar d) :
    AlikeChar c d := by
  rcases spelledChar_cases c with ⟨rfl, hc⟩ | ⟨hupper, hc⟩ | ⟨-, -, hc⟩
  · rw [hc] at h
    rcases spelledChar_cases d with ⟨rfl, -⟩ | ⟨hupper, hd⟩ | ⟨-, -, hd⟩
    · exact .same _
    · exact absurd (h.trans hd).symm (toLower_ne_of_isUpper hupper).2
    · rw [← h.trans hd]
      exact .underscore
  · rw [hc] at h
    rcases spelledChar_cases d with ⟨rfl, hd⟩ | ⟨hupper', hd⟩ | ⟨-, -, hd⟩
    · exact absurd (h.trans hd) (toLower_ne_of_isUpper hupper).2
    · rw [toLower_injOn_isUpper hupper hupper' (h.trans hd)]
      exact .same d
    · rw [← h.trans hd]
      exact .capital hupper
  · rw [hc] at h
    rcases spelledChar_cases d with ⟨rfl, hd⟩ | ⟨hupper, hd⟩ | ⟨-, -, hd⟩
    · rw [h.trans hd]
      exact .hyphen
    · rw [h.trans hd]
      exact .small hupper
    · rw [h.trans hd]
      exact .same d

/-! ### Names -/

theorem normalizeKey_eq (name : String) :
    normalizeKey name = String.ofList ((trimBlanks name.toList).map spelledChar) := by
  rw [normalizeKey, lowercaseAscii, List.map_map]
  rfl

theorem pads_trimBlanks (name : String) : Pads (trimBlanks name.toList) name :=
  exists_of_trimBlanks name.toList

theorem Pads.normalizeKey_eq {cs : List Char} {name : String} (h : Pads cs name) :
    normalizeKey name = String.ofList (trimBlanks (cs.map spelledChar)) := by
  obtain ⟨before, after, hname, hbefore, hafter⟩ := h
  rw [SourceLint.normalizeKey_eq, hname, trimBlanks_padded hbefore cs hafter,
    trimBlanks_map isBlank_spelledChar]

/-- Names are alike when they have the same one spelling. -/
theorem normalizeKey_eq_iff {name name' : String} :
    normalizeKey name = normalizeKey name' ↔ SpelledAlike name name' := by
  constructor
  · intro h
    refine ⟨_, _, pads_trimBlanks name, pads_trimBlanks name', ?_⟩
    rw [normalizeKey_eq, normalizeKey_eq, String.ofList_inj] at h
    rw [← List.forall₂_eq_eq_eq, List.forall₂_map_left_iff, List.forall₂_map_right_iff] at h
    exact h.imp fun _ _ => alikeChar_of_spelledChar_eq
  · rintro ⟨cs, cs', hname, hname', halike⟩
    have hspelled : cs.map spelledChar = cs'.map spelledChar := by
      rw [← List.forall₂_eq_eq_eq, List.forall₂_map_left_iff, List.forall₂_map_right_iff]
      exact halike.imp fun _ _ => AlikeChar.spelledChar_eq
    rw [hname.normalizeKey_eq, hname'.normalizeKey_eq, hspelled]

theorem normalizeKey_normalizeKey (name : String) :
    normalizeKey (normalizeKey name) = normalizeKey name := by
  have hspelled : spelledChar ∘ spelledChar = spelledChar := funext spelledChar_spelledChar
  rw [normalizeKey_eq, normalizeKey_eq, String.toList_ofList, trimBlanks_map isBlank_spelledChar,
    trimBlanks_trimBlanks, List.map_map, hspelled]

/-- The one spelling of a name is a spelling of it. -/
theorem spelledAlike_normalizeKey (name : String) : SpelledAlike name (normalizeKey name) :=
  normalizeKey_eq_iff.1 (normalizeKey_normalizeKey name).symm

example : SpelledAlike "\tLine_Length " "line-length" := by
  rw [← normalizeKey_eq_iff]
  decide +kernel

end SourceLint
