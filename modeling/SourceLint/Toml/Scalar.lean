import SourceLint.Toml.Value

/-!
# Numbers, truth values and dates of TOML documents

Values that are written without quotation marks. Each reader takes the whole text of a value. Dates
and times are kept in one spelling: a `T` before the time, a `Z` for no offset, and fractions of a
second with at most nine digits and no zeros at their end.
-/

namespace SourceLint.Toml

/-- The digits of a numeral, in which single underscores may stand between two digits. -/
def digits? (isDigit : Char → Bool) : List Char → Option (List Char)
  | [] => none
  | [c] => if isDigit c then some [c] else none
  | c :: '_' :: cs => if isDigit c then (digits? isDigit cs).map (c :: ·) else none
  | c :: cs => if isDigit c then (digits? isDigit cs).map (c :: ·) else none

/-- The value of a digit in any base up to sixteen. -/
def hexValue (c : Char) : Nat :=
  if c.isDigit then digitValue c
  else if c.isLower then c.toNat - 'a'.toNat + 10
  else c.toNat - 'A'.toNat + 10

def isHexDigit (c : Char) : Bool :=
  c.isDigit || ('a' ≤ c && c ≤ 'f') || ('A' ≤ c && c ≤ 'F')

def isOctalDigit (c : Char) : Bool := '0' ≤ c && c ≤ '7'

def isBinaryDigit (c : Char) : Bool := c == '0' || c == '1'

/-- The number with the given digits. -/
def ofDigits (base : Nat) (digits : List Char) : Nat :=
  digits.foldl (fun n c => base * n + hexValue c) 0

/-- The digits of a number without a zero in front, unless it is zero. -/
def wholeDigits? (cs : List Char) : Option (List Char) :=
  (digits? Char.isDigit cs).filter fun digits => digits.length == 1 || digits.head? != some '0'

/-- A text without its sign, and whether that is a minus sign. -/
def signed : List Char → Bool × List Char
  | '-' :: cs => (true, cs)
  | '+' :: cs => (false, cs)
  | cs => (false, cs)

/-- The integer that a numeral stands for, however large. -/
def wholeNumber? : List Char → Option Int
  | '0' :: 'x' :: cs => (digits? isHexDigit cs).map fun digits => ofDigits 16 digits
  | '0' :: 'o' :: cs => (digits? isOctalDigit cs).map fun digits => ofDigits 8 digits
  | '0' :: 'b' :: cs => (digits? isBinaryDigit cs).map fun digits => ofDigits 2 digits
  | cs =>
    let (negative, body) := signed cs
    (wholeDigits? body).map fun digits =>
      if negative then -(ofDigits 10 digits : Int) else ofDigits 10 digits

/-- The integer that a numeral stands for, if a document can hold it. -/
def integer? (cs : List Char) : Option Int :=
  (wholeNumber? cs).filter fun n => minInteger ≤ n ∧ n ≤ maxInteger

def isExponentMark (c : Char) : Bool := c == 'e' || c == 'E'

/-- The exponent at the end of a number; a number need not have one. -/
def exponent? : List Char → Option Int
  | [] => some 0
  | _ :: cs =>
    let (negative, body) := signed cs
    (digits? Char.isDigit body).map fun digits =>
      if negative then -(ofDigits 10 digits : Int) else ofDigits 10 digits

/-- The digits behind the decimal point; a number need not have one. -/
def fraction? : List Char → Option (List Char)
  | [] => some []
  | _ :: cs => digits? Char.isDigit cs

/-- The number with a fraction, an exponent or both. It must be finite. -/
def decimalFloat? (negative : Bool) (cs : List Char) : Option Binary64 := do
  let mantissa := cs.takeWhile fun c => !isExponentMark c
  let scale := cs.dropWhile fun c => !isExponentMark c
  let point := mantissa.dropWhile (· != '.')
  if point.isEmpty && scale.isEmpty then none
  else
    let whole ← wholeDigits? (mantissa.takeWhile (· != '.'))
    let fraction ← fraction? point
    let exponent ← exponent? scale
    let x := Binary64.ofDecimal negative (ofDigits 10 (whole ++ fraction))
      (exponent - (fraction.length : Int))
    if x.isFinite then some x else none

def float? (cs : List Char) : Option Binary64 :=
  let (negative, body) := signed cs
  if body = "inf".toList then some (Binary64.infinity negative)
  else if body = "nan".toList then some (Binary64.nan negative)
  else decimalFloat? negative body

/-! ### Dates and times -/

/-- The number in the first `count` characters of a text, which must be digits, and the rest. -/
def readDigits (count : Nat) (cs : List Char) : Option (Nat × List Char) :=
  let digits := cs.take count
  if digits.length = count ∧ digits.all Char.isDigit then
    some (ofDigits 10 digits, cs.drop count)
  else none

/-- The rest of a text behind a character that it must begin with. -/
def readChar (expected : Char) : List Char → Option (List Char)
  | [] => none
  | c :: cs => if c = expected then some cs else none

/-- A number with two digits. -/
def twoDigits (n : Nat) : List Char := if n < 10 then '0' :: decimal n else decimal n

/-- The number of days of a month. -/
def daysOfMonth (year month : Nat) : Nat :=
  if month = 2 then
    if year % 4 = 0 ∧ (year % 100 ≠ 0 ∨ year % 400 = 0) then 29 else 28
  else if month = 4 ∨ month = 6 ∨ month = 9 ∨ month = 11 then 30
  else 31

/-- A date at the start of a text, as it is written, and the rest. -/
def readDate (cs : List Char) : Option (List Char × List Char) := do
  let (year, rest) ← readDigits 4 cs
  let (month, rest) ← readDigits 2 (← readChar '-' rest)
  let (day, rest) ← readDigits 2 (← readChar '-' rest)
  if 1 ≤ month ∧ month ≤ 12 ∧ 1 ≤ day ∧ day ≤ daysOfMonth year month then
    some (cs.take 10, rest)
  else none

/-- The fraction of a second with the given digits. -/
def secondFraction (digits : List Char) : List Char :=
  let kept := ((digits.take 9).reverse.dropWhile (· == '0')).reverse
  '.' :: (if kept.isEmpty then ['0'] else kept)

/-- The fraction of a second at the start of a text, if there is one, and the rest. -/
def readSecondFraction : List Char → Option (List Char × List Char)
  | '.' :: cs =>
    let digits := cs.takeWhile Char.isDigit
    if digits.isEmpty then none
    else some (secondFraction digits, cs.dropWhile Char.isDigit)
  | cs => some ([], cs)

/-- The seconds at the start of a text, if there are some, and the rest. -/
def readSeconds : List Char → Option (List Char × List Char)
  | ':' :: cs => do
    let (second, rest) ← readDigits 2 cs
    let (fraction, rest) ← readSecondFraction rest
    if second ≤ 60 then some (':' :: twoDigits second ++ fraction, rest) else none
  | cs => some ([], cs)

/-- A time of the day at the start of a text, and the rest. -/
def readTime (cs : List Char) : Option (List Char × List Char) := do
  let (hour, rest) ← readDigits 2 cs
  let (minute, rest) ← readDigits 2 (← readChar ':' rest)
  let (seconds, rest) ← readSeconds rest
  if hour < 24 ∧ minute < 60 then
    some (twoDigits hour ++ ':' :: twoDigits minute ++ seconds, rest)
  else none

/-- The hours and minutes of an offset from universal time. -/
def readOffset (negative : Bool) (cs : List Char) : Option (List Char) := do
  let (hours, rest) ← readDigits 2 cs
  let (minutes, rest) ← readDigits 2 (← readChar ':' rest)
  if hours < 24 ∧ minutes < 60 ∧ rest = [] then
    let sign := if negative && 0 < 60 * hours + minutes then '-' else '+'
    some (sign :: twoDigits hours ++ ':' :: twoDigits minutes)
  else none

/-- The end of a date with a time: nothing, or an offset from universal time. -/
def offset? : List Char → Option (List Char)
  | [] => some []
  | ['Z'] | ['z'] => some ['Z']
  | '+' :: cs => readOffset false cs
  | '-' :: cs => readOffset true cs
  | _ => none

/-- What comes behind a date: nothing, or a time. -/
def timeOfDate? : List Char → Option (List Char)
  | [] => some []
  | c :: cs =>
    if c == 'T' || c == 't' || c == ' ' then do
      let (time, rest) ← readTime cs
      let offset ← offset? rest
      return 'T' :: time ++ offset
    else none

/-- The one spelling of a date, a time, or a date with a time. -/
def datetime? (cs : List Char) : Option String :=
  match readDate cs with
  | some (date, rest) => (timeOfDate? rest).map fun time => String.ofList (date ++ time)
  | none =>
    match readTime cs with
    | some (time, []) => some (String.ofList time)
    | _ => none

/-- The value that a text without quotation marks stands for. -/
def scalar? (cs : List Char) : Option Value :=
  if cs = "true".toList then some (.boolean true)
  else if cs = "false".toList then some (.boolean false)
  else (integer? cs).map .integer <|> (float? cs).map .float <|> (datetime? cs).map .datetime

end SourceLint.Toml
