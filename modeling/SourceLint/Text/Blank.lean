/-!
# White space

The characters with the Unicode property White_Space, and the functions that cut a text at them.
-/

namespace SourceLint

/-- The character has the Unicode property White_Space. -/
def isBlank (c : Char) : Bool :=
  (9 ≤ c.val && c.val ≤ 13) || c.val == 0x20 || c.val == 0x85 || c.val == 0xA0 || c.val == 0x1680 ||
    (0x2000 ≤ c.val && c.val ≤ 0x200A) || c.val == 0x2028 || c.val == 0x2029 || c.val == 0x202F ||
    c.val == 0x205F || c.val == 0x3000

/-- The text without the white space at its end. -/
def trimBlanksRight (cs : List Char) : List Char := (cs.reverse.dropWhile isBlank).reverse

/-- The text without the white space at its two ends. -/
def trimBlanks (cs : List Char) : List Char := trimBlanksRight (cs.dropWhile isBlank)

/-- Cut a text at its white space; `word` holds the word that has begun. -/
def blankSeparated.collect (word : List Char) : List Char → List (List Char)
  | [] => if word.isEmpty then [] else [word]
  | c :: cs =>
    if isBlank c then
      if word.isEmpty then collect [] cs else word :: collect [] cs
    else collect (word ++ [c]) cs

/-- The words of a text: its longest pieces without white space, in order. -/
def blankSeparated (cs : List Char) : List (List Char) := blankSeparated.collect [] cs

/-- The text with the 26 capital letters of ASCII made small. -/
def lowercaseAscii (cs : List Char) : List Char := cs.map Char.toLower

/-- White space in core's narrower sense is white space. -/
theorem isBlank_of_isWhitespace {c : Char} (h : c.isWhitespace = true) : isBlank c = true := by
  simp only [Char.isWhitespace, Bool.or_eq_true, decide_eq_true_eq] at h
  rcases h with ((rfl | rfl) | rfl) | rfl <;> decide

end SourceLint
