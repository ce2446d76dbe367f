import LintLayer.Json.Reader
import LintLayer.Number.Binary
import LintLayer.Text.Measure
import LintLayer.Toml.Basic

/-!
# TOML words

The values that are written as one word: truth values, numbers, dates and
times.  Of numbers and times only the form is checked.
-/

namespace LintLayer.Toml

/-- Digits with single underscores between them. -/
def isDigits (isDigit : Char → Bool) (cs : List Char) : Bool :=
  let groups := LintLayer.Text.splitOn '_' cs
  groups.all fun group => !group.isEmpty && group.all isDigit

/-- The text after a sign, and whether the sign is a minus. -/
def afterSign : List Char → Bool × List Char
  | '-' :: cs => (true, cs)
  | '+' :: cs => (false, cs)
  | cs => (false, cs)

/-- Decimal digits without a zero in front. -/
def isDecimal (cs : List Char) : Bool :=
  isDigits Char.isDigit cs && (cs == ['0'] || cs.head? != some '0')

/-- The value of digits in a base. -/
def valueIn (base : Nat) (cs : List Char) : Nat :=
  cs.foldl (fun value c => match Json.Reader.hexDigit? c with
    | some digit => value * base + digit
    | none => value) 0

/-- An integer of at most 128 bits. -/
def isInteger (cs : List Char) : Bool :=
  match cs with
  | '0' :: 'x' :: digits =>
    isDigits (fun c => (Json.Reader.hexDigit? c).isSome) digits &&
      valueIn 16 digits < Nat.pow 2 128
  | '0' :: 'o' :: digits =>
    isDigits (fun c => '0' ≤ c && c ≤ '7') digits && valueIn 8 digits < Nat.pow 2 128
  | '0' :: 'b' :: digits =>
    isDigits (fun c => c = '0' || c = '1') digits && valueIn 2 digits < Nat.pow 2 128
  | cs =>
    let (negative, digits) := afterSign cs
    isDecimal digits && valueIn 10 digits ≤ (if negative then Nat.pow 2 127 else Nat.pow 2 128 - 1)

/-- A number with a fraction or an exponent, or one of the special
values. -/
def isFloat (cs : List Char) : Bool :=
  let (_, body) := afterSign cs
  if body == "inf".toList || body == "nan".toList then true
  else
    let isMark (c : Char) : Bool := c = 'e' || c = 'E'
    let mantissa := body.takeWhile fun c => !isMark c
    let exponent := body.dropWhile fun c => !isMark c
    let whole := mantissa.takeWhile (· ≠ '.')
    let fraction := mantissa.dropWhile (· ≠ '.')
    let (exponentNegative, exponentDigits) := afterSign (exponent.drop 1)
    let formed := isDecimal whole &&
      (fraction.isEmpty || isDigits Char.isDigit (fraction.drop 1)) &&
      (exponent.isEmpty || isDigits Char.isDigit exponentDigits) &&
      !(fraction.isEmpty && exponent.isEmpty)
    let scale : Int := valueIn 10 exponentDigits
    let places := ((fraction.drop 1).filter Char.isDigit).length
    let exponent : Int := (if exponentNegative then -scale else scale) - places
    formed && (Binary.ofDecimal? (valueIn 10 (whole ++ fraction.drop 1)) exponent).isSome

/-- A number of two digits up to a bound. -/
def isTwo (least greatest : Nat) : List Char → Bool
  | [a, b] =>
    a.isDigit && b.isDigit && least ≤ valueIn 10 [a, b] && valueIn 10 [a, b] ≤ greatest
  | _ => false

/-- The number of days of a month. -/
def daysIn (year month : Nat) : Nat :=
  if month = 2 then
    if year % 4 = 0 && (year % 100 ≠ 0 || year % 400 = 0) then 29 else 28
  else if month = 4 || month = 6 || month = 9 || month = 11 then 30
  else 31

/-- A date: year, month and day. -/
def isDate (cs : List Char) : Bool :=
  match LintLayer.Text.splitOn '-' cs with
  | [year, month, day] =>
    year.length == 4 && year.all Char.isDigit && isTwo 1 12 month &&
      isTwo 1 (daysIn (valueIn 10 year) (valueIn 10 month)) day
  | _ => false

/-- The seconds of a time, with a fraction. -/
def isSeconds (cs : List Char) : Bool :=
  match LintLayer.Text.splitOn '.' cs with
  | [whole] => isTwo 0 60 whole
  | [whole, fraction] => isTwo 0 60 whole && !fraction.isEmpty && fraction.all Char.isDigit
  | _ => false

/-- A time of the day; the seconds may be left out. -/
def isTime (cs : List Char) : Bool :=
  match LintLayer.Text.splitOn ':' cs with
  | [hour, minute] => isTwo 0 23 hour && isTwo 0 59 minute
  | [hour, minute, seconds] => isTwo 0 23 hour && isTwo 0 59 minute && isSeconds seconds
  | _ => false

/-- A time of the day, with or without a distance to universal time. -/
def isTimeWithOffset (cs : List Char) : Bool :=
  match cs.getLast? with
  | some 'Z' => isTime cs.dropLast
  | some 'z' => isTime cs.dropLast
  | _ =>
    let isMark (c : Char) : Bool := c = '+' || c = '-'
    let time := cs.takeWhile fun c => !isMark c
    let offset := (cs.dropWhile fun c => !isMark c).drop 1
    if time.length == cs.length then isTime cs
    else isTime time && match LintLayer.Text.splitOn ':' offset with
      | [hour, minute] => isTwo 0 23 hour && isTwo 0 59 minute
      | _ => false

/-- A date, a time, or both with a `T` or a blank between them. -/
def isMoment (cs : List Char) : Bool :=
  isDate cs || isTime cs ||
    (isDate (cs.take 10) &&
      match cs.drop 10 with
      | c :: time => (c = 'T' || c = 't' || c = ' ') && isTimeWithOffset time
      | [] => false)

/-- The value of a word. -/
def word? (cs : List Char) : Option Value :=
  if cs = "true".toList then some (.boolean true)
  else if cs = "false".toList then some (.boolean false)
  else if isInteger cs || isFloat cs then some .number
  else if isMoment cs then some .time
  else none

end LintLayer.Toml
