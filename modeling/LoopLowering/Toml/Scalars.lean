import LoopLowering.Json.Reader
import LoopLowering.Toml.Value

namespace LoopLowering

/-!
# TOML numbers, dates and times

Values that are written without quotes or brackets.
-/

namespace Toml

/-!
## Numbers

Integers have 64 bits and may be written to the bases sixteen, eight and two.
The digits of a number may have single underscores between them. A number with
a point or an exponent is a float, and so are infinity and what is not a
number.
-/

/-- Split off digits, each of which may follow an underscore. -/
def spanDigits
    (isDigit : Char → Bool) :
    List Char → List Char × List Char
  | [] => ([], [])
  | '_' :: c :: rest =>
      if isDigit c then
        let (digits, rest) := spanDigits isDigit rest
        (c :: digits, rest)
      else
        ([], '_' :: c :: rest)
  | c :: rest =>
      if isDigit c then
        let (digits, rest) := spanDigits isDigit rest
        (c :: digits, rest)
      else
        ([], c :: rest)

/-- Read digits, the first of which follows no underscore. -/
def readDigits
    (isDigit : Char → Bool) :
    List Char → Option (List Char × List Char)
  | c :: rest =>
      if isDigit c then
        let (digits, rest) := spanDigits isDigit rest
        some (c :: digits, rest)
      else
        none
  | [] => none

/-- Read the digits before a point or exponent. Only zero itself starts with a
zero. -/
def readWhole :
    List Char → Option (List Char × List Char)
  | '0' :: rest => some (['0'], rest)
  | text => readDigits Char.isDigit text

/-- Split off a sign, and say whether it is a minus sign. -/
def splitSign :
    List Char → Bool × List Char
  | '-' :: rest => (true, rest)
  | '+' :: rest => (false, rest)
  | rest => (false, rest)

/-- A number with its sign. -/
def signed
    (negative : Bool)
    (magnitude : Nat) :
    Int :=
  if negative then -magnitude else magnitude

/-- An integer, if it has 64 bits. -/
def integer?
    (value : Int) :
    Option Toml :=
  if -0x8000000000000000 ≤ value ∧ value ≤ 0x7FFFFFFFFFFFFFFF then some (.integer value) else none

/-- The value of a digit to a base. -/
def digitTo?
    (base : Nat)
    (c : Char) :
    Option Nat :=
  (Json.hexDigit? c).filter (fun value => value < base)

/-- The value of digits to a base. -/
def valueTo
    (base : Nat)
    (digits : List Char) :
    Nat :=
  digits.foldl (fun value c => value * base + (digitTo? base c).getD 0) 0

/-- Read an integer to a base, after the mark of the base. -/
def readIntegerTo
    (base : Nat)
    (text : List Char) :
    Option (Toml × List Char) := do
  let (digits, rest) ← readDigits (fun c => (digitTo? base c).isSome) text
  let value ← integer? (valueTo base digits)
  return (value, rest)

/-- Read an integer. Only an integer to the base ten has a sign. -/
def readInteger :
    List Char → Option (Toml × List Char)
  | '0' :: 'x' :: rest => readIntegerTo 16 rest
  | '0' :: 'o' :: rest => readIntegerTo 8 rest
  | '0' :: 'b' :: rest => readIntegerTo 2 rest
  | text => do
      let (negative, unsigned) := splitSign text
      let (digits, rest) ← readWhole unsigned
      let value ← integer? (signed negative (valueTo 10 digits))
      return (value, rest)

/-- The digits after a point, if there is one. -/
def readPlaces :
    List Char → Option (List Char × List Char)
  | '.' :: rest => readDigits Char.isDigit rest
  | rest => some ([], rest)

/-- The power of ten after the mark of an exponent, if there is one. -/
def readPower :
    List Char → Option (Option Int × List Char)
  | c :: rest =>
      if c == 'e' || c == 'E' then do
        let (negative, unsigned) := splitSign rest
        let (digits, rest) ← readDigits Char.isDigit unsigned
        return (some (signed negative (valueTo 10 digits)), rest)
      else
        some (none, c :: rest)
  | [] => some (none, [])

/-- The least number that is nearer to infinity than to a float of 64 bits: it
lies half a step above the greatest float. -/
def leastInfinite :
    Nat :=
  ((1 <<< 54) - 1) <<< 970

/-- Whether digits before a power of ten are too large for a float. The first
digit that is not zero decides unless it has 308 places after it. -/
def isInfinite
    (digits : List Char)
    (power : Int) :
    Bool :=
  let significant := digits.dropWhile (fun c => c == '0')
  let magnitude := valueTo 10 significant
  let places : Int := significant.length + power
  if significant.isEmpty || places < 309 then false
  else if 309 < places then true
  else if 0 ≤ power then leastInfinite ≤ magnitude * Nat.pow 10 power.toNat
  else leastInfinite * Nat.pow 10 (-power).toNat ≤ magnitude

/-- Read a float with digits, after its sign. One that is too large is refused
unless it is negative. -/
def readDecimal
    (negative : Bool)
    (text : List Char) :
    Option (List Char) := do
  let (whole, afterWhole) ← readWhole text
  let (places, afterPlaces) ← readPlaces afterWhole
  let (power, rest) ← readPower afterPlaces
  if places.isEmpty && power.isNone then
    none
  else if !negative && isInfinite (whole ++ places) (power.getD 0 - places.length) then
    none
  else
    some rest

/-- Read a float. -/
def readFloat
    (text : List Char) :
    Option (Toml × List Char) := do
  let (negative, unsigned) := splitSign text
  let rest ←
    match unsigned with
    | 'i' :: 'n' :: 'f' :: rest | 'n' :: 'a' :: 'n' :: rest => some rest
    | digits => readDecimal negative digits
  return (.float (Json.spelling text rest), rest)

/-!
## Dates and times

A date, a time of day, or a date with a time of day, which may have an offset.
-/

/-- Read a number of some digits that lies between two bounds. -/
def readField
    (digits least greatest : Nat)
    (text : List Char) :
    Option (Nat × List Char) :=
  let field := text.take digits
  let value := Json.digitsValue field
  if field.length = digits && field.all Char.isDigit && least ≤ value && value ≤ greatest then
    some (value, text.drop digits)
  else
    none

/-- Read a character that has to be there. -/
def readMark
    (mark : Char) :
    List Char → Option (List Char)
  | c :: rest => if c = mark then some rest else none
  | [] => none

/-- Whether a year has a day more than others. -/
def isLeapYear
    (year : Nat) :
    Bool :=
  year % 4 == 0 && (year % 100 != 0 || year % 400 == 0)

/-- The number of days of a month. -/
def daysOf
    (year month : Nat) :
    Nat :=
  match month with
  | 2 => if isLeapYear year then 29 else 28
  | 4 | 6 | 9 | 11 => 30
  | _ => 31

/-- The text after a date. -/
def readDate
    (text : List Char) :
    Option (List Char) := do
  let (year, rest) ← readField 4 0 9999 text
  let (month, rest) ← readField 2 1 12 (← readMark '-' rest)
  let (_, rest) ← readField 2 1 (daysOf year month) (← readMark '-' rest)
  return rest

/-- The text after the fraction of a second, if there is one. -/
def skipFraction :
    List Char → List Char
  | '.' :: c :: rest => if c.isDigit then rest.dropWhile Char.isDigit else '.' :: c :: rest
  | text => text

/-- The text after an hour and a minute. -/
def readHourMinute
    (text : List Char) :
    Option (List Char) := do
  let (_, rest) ← readField 2 0 23 text
  let (_, rest) ← readField 2 0 59 (← readMark ':' rest)
  return rest

/-- The text after a time of day. A minute may end with a leap second. -/
def readTime
    (text : List Char) :
    Option (List Char) := do
  let rest ← readHourMinute text
  let (_, rest) ← readField 2 0 60 (← readMark ':' rest)
  return skipFraction rest

/-- The text after an offset, if there is one. -/
def skipOffset :
    List Char → List Char
  | 'Z' :: rest | 'z' :: rest => rest
  | '+' :: rest => (readHourMinute rest).getD ('+' :: rest)
  | '-' :: rest => (readHourMinute rest).getD ('-' :: rest)
  | text => text

/-- The text after the time of day that follows a date, if there is one. -/
def skipTimeOfDate :
    List Char → List Char
  | [] => []
  | c :: rest =>
      if c == 'T' || c == 't' || c == ' ' then
        ((readTime rest).map skipOffset).getD (c :: rest)
      else
        c :: rest

/-- Read a date, a time of day, or both. -/
def readMoment
    (text : List Char) :
    Option (Toml × List Char) := do
  let rest ←
    match readDate text with
    | some rest => some (skipTimeOfDate rest)
    | none => readTime text
  return (.moment (Json.spelling text rest), rest)

end Toml

end LoopLowering
