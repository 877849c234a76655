import SourceLint.Violation

/-!
# Edits of a text

An edit can be made where its span lies in the text and cuts no character. Several edits at places of
their own are made from the last to the first, so that the offsets of those still to be made stay
right. `splice` says what they amount to in one go.
-/

namespace SourceLint.Correction

/-- The text after one edit, if the edit can be made. -/
def edit? (correction : Correction) (cs : List Char) : Option (List Char) := do
  let front ← takeBytes? correction.span.location cs
  let back ← dropBytes? correction.span.stop cs
  return front ++ correction.replacement.toList ++ back

/-- The text after some edits, made one after the other. -/
def editAll? (corrections : List Correction) (cs : List Char) : Option (List Char) :=
  corrections.foldlM (fun cs correction => correction.edit? cs) cs

/-- A text that begins at `offset`, cut at the spans of some corrections in ascending order: the pieces
between the spans stay, and the piece under each span gives way to its replacement. -/
def splice (offset : Nat) : List Correction → List Char → Option (List Char)
  | [], cs => some cs
  | correction :: corrections, cs => do
    let kept ← takeBytes? (correction.span.location - offset) cs
    let rest ← dropBytes? (correction.span.stop - offset) cs
    let spliced ← splice correction.span.stop corrections rest
    return kept ++ correction.replacement.toList ++ spliced

end SourceLint.Correction
