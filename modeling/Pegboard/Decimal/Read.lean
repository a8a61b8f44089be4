import Pegboard.Decimal.Binary64
import Pegboard.Text.Numeral

/-!
# Reading floating-point numbers

A number is written with an optional sign, digits, an optional point among, before or after them,
and an optional exponent; infinity and what is not a number are written by their names, in letters
of either case.
-/

namespace Pegboard.Decimal

open Numeral

/-- An optional sign in front of a text: whether it is a minus, and the rest. -/
def splitSign : List Char → Bool × List Char
  | '-' :: rest => (true, rest)
  | '+' :: rest => (false, rest)
  | cs => (false, cs)

/-- The exponent that follows the digits of a number: none, or a mark, an optional sign and at
least one digit. -/
def readExponent? : List Char → Option Int
  | [] => some 0
  | c :: rest =>
    if c = 'e' || c = 'E' then
      let (negative, digits) := splitSign rest
      if isNumeral 10 digits then
        let n : Int := numeralValue 10 digits
        some (if negative then -n else n)
      else none
    else none

/-- The names of what is not a finite number. -/
def readSpecial? (negative : Bool) (cs : List Char) : Option Float :=
  let name := String.ofList (cs.map Char.toLower)
  if name = "inf" || name = "infinity" then
    some (Float.ofBits (if negative then 0xfff0000000000000 else 0x7ff0000000000000))
  else if name = "nan" then some (Float.ofBits 0x7ff8000000000000)
  else none

/-- The floating-point number that a text denotes, correctly rounded. -/
def readFloat? (cs : List Char) : Option Float :=
  let (negative, body) := splitSign cs
  let whole := body.takeWhile (isDigit 10)
  let afterWhole := body.dropWhile (isDigit 10)
  let (fraction, afterDigits) :=
    match afterWhole with
    | '.' :: rest => (rest.takeWhile (isDigit 10), rest.dropWhile (isDigit 10))
    | rest => ([], rest)
  if whole.isEmpty && fraction.isEmpty then readSpecial? negative body
  else
    (readExponent? afterDigits).map fun e =>
      Binary64.ofDecimal negative (numeralValue 10 (whole ++ fraction)) (e - fraction.length)

end Pegboard.Decimal
