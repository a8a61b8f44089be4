/-!
# Numerals

Digits in bases from 2 to 36, the numbers that numerals denote, and the hexadecimal numerals that
escapes are written with.

## Main Definitions

* `digitValue?`: what a character counts as a digit of a base.
* `isNumeral`, `numeralValue`: numerals without a sign, and the numbers that they denote.
* `lowerHex`: the hexadecimal numeral of a number, at least so many digits long.
* `charOfHex?`: the character whose code point a hexadecimal numeral denotes.
-/

namespace Pegboard.Numeral

/-- What `c` counts as a digit of the base `base`: the digits from `0` to `9`, then the letters of
either case. -/
def digitValue? (base : Nat) (c : Char) : Option Nat :=
  let value :=
    if '0' ≤ c && c ≤ '9' then some (c.toNat - '0'.toNat)
    else if 'a' ≤ c && c ≤ 'z' then some (c.toNat - 'a'.toNat + 10)
    else if 'A' ≤ c && c ≤ 'Z' then some (c.toNat - 'A'.toNat + 10)
    else none
  value.filter (· < base)

/-- Whether `c` is a digit of the base `base`. -/
def isDigit (base : Nat) (c : Char) : Bool := (digitValue? base c).isSome

/-- Whether `cs` is one digit or more of the base `base`, and nothing else. -/
def isNumeral (base : Nat) (cs : List Char) : Bool := !cs.isEmpty && cs.all (isDigit base)

/-- The number that the digits `cs` denote. -/
def numeralValue (base : Nat) (cs : List Char) : Nat :=
  cs.foldl (fun n c => n * base + (digitValue? base c).getD 0) 0

/-- The hexadecimal numeral of `n`, in small letters, with zeros in front up to `width` digits. -/
def lowerHex (width n : Nat) : List Char :=
  let digits := Nat.toDigits 16 n
  List.replicate (width - digits.length) '0' ++ digits

/-- The character with the code point that `digits` denote in hexadecimal, if there is one. -/
def charOfHex? (digits : List Char) : Option Char :=
  let n := numeralValue 16 digits
  if n.isValidChar then some (Char.ofNat n) else none

end Pegboard.Numeral
