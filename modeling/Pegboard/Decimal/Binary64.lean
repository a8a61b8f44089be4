/-!
# Binary floating point, exactly

A finite floating-point number of 64 bits is an integer times a power of two.  This module takes a
number apart into these and finds the number nearest to a given fraction, all in integer
arithmetic.

## Main Definitions

* `Binary64.ofFloat`: a number as sign, integer and power of two, or as infinity or none.
* `Binary64.nearest`: the number nearest to a fraction; of two equally near, the one whose integer
  is even.
-/

namespace Pegboard

/-- A floating-point number of 64 bits. -/
inductive Binary64 where
  /-- Not a number. -/
  | nan
  | infinite (negative : Bool)
  /-- The number `m · 2 ^ q`, or its negative. -/
  | finite (negative : Bool) (m : Nat) (q : Int)
  deriving DecidableEq, Repr, Inhabited

namespace Binary64

/-- The power of `base` with the exponent `e`, or one if the exponent is negative.  A fraction has
the positive powers in its numerator and the negative ones in its denominator. -/
def power (base : Nat) (e : Int) : Nat := Nat.pow base e.toNat

/-- The parts of a number, read off its bits. -/
def ofBits (bits : Nat) : Binary64 :=
  let negative := bits / power 2 63 % 2 == 1
  let e : Nat := bits / power 2 52 % power 2 11
  let f : Nat := bits % power 2 52
  if e = 2047 then (if f = 0 then .infinite negative else .nan)
  else if e = 0 then .finite negative f (-1074)
  else .finite negative (power 2 52 + f) ((e : Int) - 1075)

/-- The parts of a floating-point number. -/
def ofFloat (x : Float) : Binary64 := ofBits x.toBits.toNat

/-- The absolute value, if it is a whole number. -/
def whole? : Binary64 → Option Nat
  | .finite _ m q =>
    if 0 ≤ q then some (m * power 2 q)
    else if m % power 2 (-q) = 0 then some (m / power 2 (-q))
    else none
  | _ => none

/-- The whole number nearest to `num / den`; of two equally near, the even one. -/
def roundHalfEven (num den : Nat) : Nat :=
  let quotient := num / den
  let twice := 2 * (num % den)
  if den < twice || (twice == den && quotient % 2 == 1) then quotient + 1 else quotient

/-- The greatest `l` with `2 ^ l ≤ num / den`, for positive `num` and `den`. -/
def floorLog2 (num den : Nat) : Int :=
  let l : Int := num.log2 - (den.log2 : Int)
  if den * power 2 l ≤ num * power 2 (-l) then l else l - 1

/-- The bits of the number nearest to the positive fraction `num / den`, without its sign: above
the greatest number they are those of infinity. -/
def nearestBits (num den : Nat) : Nat :=
  let q := max (floorLog2 num den - 52) (-1074)
  let m := roundHalfEven (num * power 2 (-q)) (den * power 2 q)
  min (m + (q + 1074).toNat * power 2 52) (2047 * power 2 52)

/-- The floating-point number nearest to `num / den`, or to its negative. -/
def nearest (negative : Bool) (num den : Nat) : Float :=
  let magnitude := if num = 0 then 0 else nearestBits num den
  Float.ofBits (UInt64.ofNat (magnitude + if negative then power 2 63 else 0))

/-- The floating-point number nearest to `digits · 10 ^ exponent`, or to its negative.  Far outside
the range of such numbers the answer is infinity or zero, and no power of ten is computed. -/
def ofDecimal (negative : Bool) (digits : Nat) (exponent : Int) : Float :=
  let size : Int := ((Nat.toDigits 10 digits).length : Int) + exponent
  if digits = 0 || size < -400 then nearest negative 0 1
  else if 400 < size then nearest negative (power 2 1025) 1
  else nearest negative (digits * power 10 exponent) (power 10 (-exponent))

end Binary64

end Pegboard
