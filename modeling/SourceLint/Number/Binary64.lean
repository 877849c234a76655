import SourceLint.Number.Decimal

/-!
# Binary floating-point numbers of 64 bits

A number is its bit pattern, and everything about it is worked out in whole numbers. A finite
number is `m · 2 ^ q` with a sign. Reading a decimal gives the nearest number, with a tie to the
even mantissa. Writing a number gives the shortest decimal that reads back as it, and of several
such decimals the nearest.
-/

namespace SourceLint

/-- A floating-point number, as the bits of its interchange format. -/
structure Binary64 where
  bits : UInt64
deriving DecidableEq, Repr, Inhabited

namespace Binary64

def isNegative (x : Binary64) : Bool := Nat.pow 2 63 ≤ x.bits.toNat

/-- The exponent field. -/
def exponentField (x : Binary64) : Nat := x.bits.toNat / Nat.pow 2 52 % Nat.pow 2 11

/-- The fraction field. -/
def fractionField (x : Binary64) : Nat := x.bits.toNat % Nat.pow 2 52

def isFinite (x : Binary64) : Bool := x.exponentField != 2047

def isNaN (x : Binary64) : Bool := !x.isFinite && x.fractionField != 0

/-- The number with the given sign and fields. -/
def ofFields (negative : Bool) (magnitude : Nat) : Binary64 :=
  ⟨UInt64.ofNat ((if negative then Nat.pow 2 63 else 0) + magnitude)⟩

def infinity (negative : Bool) : Binary64 := ofFields negative (2047 * Nat.pow 2 52)

def nan (negative : Bool) : Binary64 := ofFields negative (2047 * Nat.pow 2 52 + Nat.pow 2 51)

/-- The mantissa `m` of a finite number `m · 2 ^ q`. -/
def mantissa (x : Binary64) : Nat :=
  if x.exponentField = 0 then x.fractionField else Nat.pow 2 52 + x.fractionField

/-- The exponent `q` of a finite number `m · 2 ^ q`. -/
def exponent (x : Binary64) : Int :=
  if x.exponentField = 0 then -1074 else (x.exponentField : Int) - 1075

/-! ### Reading -/

/-- The quotient of two numbers, rounded to the nearest whole number, with a tie to the even one. -/
def roundedQuotient (numerator denominator : Nat) : Nat :=
  let q := numerator / denominator
  let r := 2 * (numerator % denominator)
  if r < denominator || (r == denominator && q % 2 == 0) then q else q + 1

/-- The nearest number to the fraction of two positive numbers. -/
def ofFraction (negative : Bool) (numerator denominator : Nat) : Binary64 :=
  let scaled (q : Int) : Nat × Nat :=
    (numerator * Nat.pow 2 (-q).toNat, denominator * Nat.pow 2 q.toNat)
  let estimate := max ((numerator.log2 : Int) - (denominator.log2 : Int) - 53) (-1074)
  let (n, d) := scaled estimate
  let q := if Nat.pow 2 53 ≤ n / d then estimate + 1 else estimate
  let (n, d) := scaled q
  let m := roundedQuotient n d
  let magnitude := if m < Nat.pow 2 52 then m else (q + 1074).toNat * Nat.pow 2 52 + m
  if 2047 * Nat.pow 2 52 ≤ magnitude then infinity negative else ofFields negative magnitude

/-- The nearest number to `digits · 10 ^ exponent`. -/
def ofDecimal (negative : Bool) (digits : Nat) (exponent : Int) : Binary64 :=
  if digits = 0 then ofFields negative 0
  else if exponent + (digits.log2 : Int) < -400 then ofFields negative 0
  else if 400 < exponent then infinity negative
  else ofFraction negative (digits * Nat.pow 10 exponent.toNat) (Nat.pow 10 (-exponent).toNat)

/-! ### Writing -/

/-- Strip the zeros at the end of a numeral and raise the exponent instead. -/
def stripZeros (digits : Nat) (exponent : Int) : Nat × Int :=
  if 0 < digits ∧ digits % 10 = 0 then stripZeros (digits / 10) (exponent + 1)
  else (digits, exponent)
termination_by digits
decreasing_by omega

/-- The exponent of the leading digit of a positive fraction: the largest `e` with
`10 ^ e ≤ numerator / denominator`, for fractions not below `10 ^ (-bound)`. -/
def leadingExponent (numerator denominator : Nat) : (bound : Nat) → Int
  | 0 => 0
  | bound + 1 =>
    if denominator ≤ numerator then (decimal (numerator / denominator)).length - 1
    else leadingExponent (10 * numerator) denominator bound - 1

/-- The shortest decimal that reads back as a positive finite number, among those with at least
`count` digits: of the two neighbours on a decimal grid, the one inside the interval of what reads
back, and of two such the nearer. The number is `4 · m · 2 ^ (q - 2)`, and the interval reaches from
`4 · m - below` to `4 · m + 2`. -/
def shortestFrom (m : Nat) (q : Int) (below : Nat) (leading : Int) : (tries count : Nat) → Nat × Int
  | 0, _ => (m, 0)
  | tries + 1, count =>
    let p := leading - (count : Int) + 1
    let scale := Nat.pow 2 (q - 2).toNat * Nat.pow 10 (-p).toNat
    let unit := Nat.pow 2 (2 - q).toNat * Nat.pow 10 p.toNat
    let value := 4 * m * scale
    let low := (4 * m - below) * scale
    let high := (4 * m + 2) * scale
    let inside (d : Nat) : Bool :=
      if m % 2 == 0 then low ≤ d * unit && d * unit ≤ high else low < d * unit && d * unit < high
    let down := value / unit
    let up := down + 1
    let distanceDown := value - down * unit
    let distanceUp := up * unit - value
    let isNearerDown :=
      distanceDown < distanceUp || (distanceDown == distanceUp && down % 2 == 0)
    if inside down && (!inside up || isNearerDown) then (down, p)
    else if inside up then (up, p)
    else shortestFrom m q below leading tries (count + 1)

/-- The shortest decimal of a positive finite number, as digits without zeros at the end and the
exponent of their last one. -/
def shortest (x : Binary64) : Nat × Int :=
  let m := x.mantissa
  let q := x.exponent
  let below := if x.fractionField = 0 ∧ 1 < x.exponentField then 1 else 2
  let leading := leadingExponent (m * Nat.pow 2 q.toNat) (Nat.pow 2 (-q).toNat) 400
  let (digits, p) := shortestFrom m q below leading 17 1
  stripZeros digits p

/-- Digits with a decimal point in its place. The exponent is that of the last digit. -/
def positional (digits : List Char) (exponent : Int) : List Char :=
  if 0 ≤ exponent then digits ++ List.replicate exponent.toNat '0'
  else
    let places := (-exponent).toNat
    let padded := List.replicate (places + 1 - digits.length) '0' ++ digits
    padded.take (padded.length - places) ++ '.' :: padded.drop (padded.length - places)

/-- A whole number written with a decimal point. -/
def withPoint (text : List Char) : List Char :=
  if text.contains '.' then text else text ++ ['.', '0']

/-- Digits with a point behind the first one and with the exponent of that one. -/
def scientific (digits : List Char) (exponent : Int) : List Char :=
  let leading := exponent + (digits.length : Int) - 1
  let fraction := match digits.drop 1 with
    | [] => []
    | others => '.' :: others
  let sign := if leading < 0 then ['-'] else []
  digits.take 1 ++ fraction ++ 'e' :: sign ++ decimal leading.natAbs

/-- How a number is written that is no decimal, or the sign and the decimal of one that is. -/
def written (x : Binary64) (finite : List Char → Int → List Char) : String :=
  let sign := if x.isNegative then ['-'] else []
  String.ofList <|
    if x.isNaN then "NaN".toList
    else if !x.isFinite then sign ++ "inf".toList
    else if x.mantissa = 0 then sign ++ finite ['0'] 0
    else
      let (digits, exponent) := x.shortest
      sign ++ finite (decimal digits) exponent

/-- The number with all its digits in place and a decimal point. -/
def positionalText (x : Binary64) : String :=
  x.written fun digits exponent => withPoint (positional digits exponent)

/-- The number with a decimal point, or with an exponent if it is at least 10¹⁶ or less than
10⁻⁴. -/
def text (x : Binary64) : String :=
  x.written fun digits exponent =>
    let leading := exponent + (digits.length : Int) - 1
    let isZero := digits == ['0']
    if !isZero && (leading < -4 || 16 ≤ leading) then scientific digits exponent
    else withPoint (positional digits exponent)

end Binary64

end SourceLint
