import SourceLint.Text.Offset

/-!
# Occurrences of a piece in a text

Where a piece of text occurs, and what comes before its first occurrence.
-/

namespace SourceLint

/-- The offsets at which a piece occurs in a text that begins at `offset`, from left to right and
without overlaps: after an occurrence the search goes on behind it. The next `skip` characters belong
to an occurrence already found. An empty piece occurs between any two characters and at both ends. -/
def occurrencesFrom (piece : List Char) (offset skip : Nat) : List Char → List Nat
  | [] => if piece.isEmpty then [offset] else []
  | c :: cs =>
    if skip ≠ 0 then occurrencesFrom piece (offset + c.utf8Size) (skip - 1) cs
    else if piece.isPrefixOf (c :: cs) then
      offset :: occurrencesFrom piece (offset + c.utf8Size) (piece.length - 1) cs
    else occurrencesFrom piece (offset + c.utf8Size) 0 cs

/-- The offsets at which a piece occurs in a text, without overlaps. -/
def occurrences (piece : List Char) (cs : List Char) : List Nat := occurrencesFrom piece 0 0 cs

/-- The text before the first occurrence of a piece, or all of it. -/
def beforeFirst (piece : List Char) : List Char → List Char
  | [] => []
  | c :: cs => if piece.isPrefixOf (c :: cs) then [] else c :: beforeFirst piece cs

/-- The text up to the end of its first line. -/
def restOfLine (cs : List Char) : List Char := cs.takeWhile fun c => c != '\n' && c != '\r'

/-- What a comment says from some place on: the text up to the end of the line or of the comment,
whichever comes first. -/
def restOfRemark (cs : List Char) : List Char := beforeFirst ['*', '/'] (restOfLine cs)

/-- The character is a space or a tab. -/
def isSpacing (c : Char) : Bool := c == ' ' || c == '\t'

end SourceLint
