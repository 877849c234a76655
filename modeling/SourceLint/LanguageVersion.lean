import SourceLint.Number.Decimal
import SourceLint.Text.Blank

/-!
# Language versions

The version of the language that a source is written in, as `MAJOR.MINOR`. It decides which rules
apply. A version may be read with a third component, which is checked and then dropped.
-/

namespace SourceLint

/-- A version of the language, such as 5.0. -/
structure LanguageVersion where
  major : UInt32
  minor : UInt32
deriving DecidableEq, Repr

/-- A text that is no version. -/
structure LanguageVersion.Malformed where
  text : String
deriving DecidableEq, Repr

namespace LanguageVersion

def Malformed.message (e : Malformed) : String :=
  "invalid language version '" ++ e.text ++ "', expected MAJOR or MAJOR.MINOR"

/-- The version that is meant where none is given: 5.0. -/
def standard : LanguageVersion := ⟨5, 0⟩

instance : Inhabited LanguageVersion := ⟨standard⟩

/-- Versions are ordered by their major part, and then by their minor part. -/
def order (v w : LanguageVersion) : Ordering :=
  (compare v.major.toNat w.major.toNat).then (compare v.minor.toNat w.minor.toNat)

/-- The version `v` is at most the version `w`. -/
def isAtMost (v w : LanguageVersion) : Bool := (v.order w).isLE

instance : ToString LanguageVersion where
  toString v := String.ofList (decimal v.major.toNat ++ '.' :: decimal v.minor.toNat)

/-- One component of a version: a numeral of at most 32 bits, with or without a plus sign. -/
def component? (cs : List Char) : Option UInt32 :=
  let digits := match cs with
    | '+' :: rest => rest
    | _ => cs
  (readDecimal? digits).bind fun n => if n < Nat.pow 2 32 then some (UInt32.ofNat n) else none

/-- Cut a text at its dots. -/
def splitAtDots : List Char → List (List Char)
  | [] => [[]]
  | '.' :: cs => [] :: splitAtDots cs
  | c :: cs => match splitAtDots cs with
    | part :: parts => (c :: part) :: parts
    | [] => [[c]]

/-- The version that components stand for, if there are one to three of them. -/
def ofComponents? : List UInt32 → Option LanguageVersion
  | [major] => some ⟨major, 0⟩
  | [major, minor] | [major, minor, _] => some ⟨major, minor⟩
  | _ => none

/-- Read a version. White space around it does not matter. -/
def parse (text : String) : Except Malformed LanguageVersion :=
  match ((splitAtDots (trimBlanks text.toList)).mapM component?).bind ofComponents? with
  | some version => .ok version
  | none => .error ⟨text⟩

end LanguageVersion

end SourceLint
