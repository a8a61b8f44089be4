import Pegboard.Decimal.Binary64

/-!
# The shortest decimal that reads back

Of all decimals that round to a given floating-point number, the shortest has the fewest digits,
and among those the one nearest to the number.  The search tries one digit, two digits, and so on.
For each count it looks at the two neighbours of the number on the grid of decimals with that many
digits: if any decimal of the grid rounds to the number, one of these two does.

Now and then the two neighbours are equally near.  Which one to take is a matter of convention, so
it is a parameter, `Tie`.
-/

namespace Pegboard

/-- Which of two equally near decimals to take. -/
inductive Tie where
  /-- The one with an even last digit. -/
  | even
  /-- The greater one. -/
  | up
  deriving DecidableEq, Repr, Inhabited

/-- The positive decimal number `digits · 10 ^ exponent`. -/
structure DecimalNumber where
  digits : Nat
  exponent : Int
  deriving DecidableEq, Repr, Inhabited

namespace DecimalNumber

/-- The number with no zero at the end of its digits. -/
def trimZeros (d : DecimalNumber) : DecimalNumber :=
  if h : d.digits ≠ 0 ∧ d.digits % 10 = 0 then trimZeros ⟨d.digits / 10, d.exponent + 1⟩ else d
termination_by d.digits
decreasing_by exact Nat.div_lt_self (Nat.pos_of_ne_zero h.1) (by decide)

/-- The power of ten of the first digit. -/
def leading (d : DecimalNumber) : Int :=
  ((Nat.toDigits 10 d.digits).length : Int) - 1 + d.exponent

end DecimalNumber

namespace Binary64

/-- The power of ten of the first digit of `num / den`, for positive `num` and `den`: a guess from
the power of two, set right by at most one. -/
def leadingPower (num den : Nat) : Int :=
  let guess := floorLog2 num den * 30103 / 100000
  let reaches (k : Int) : Bool := den * power 10 k ≤ num * power 10 (-k)
  if reaches (guess + 1) then guess + 1 else if reaches guess then guess else guess - 1

/-- The multiple of `10 ^ k` nearest to the number in the interval of the decimals that round to
it, if the interval holds one.  The number is `4 · m`, and the interval reaches from `low` to
`4 · m + 2`, in units of `2 ^ (q - 2)`; its ends belong to it if `m` is even. -/
def neighbour? (tie : Tie) (m low : Nat) (q k : Int) : Option DecimalNumber :=
  let scale := power 2 (q - 2) * power 10 (-k)
  let step := power 2 (2 - q) * power 10 k
  let within (c : Nat) : Bool :=
    if m % 2 = 0 then low * scale ≤ c * step && c * step ≤ (4 * m + 2) * scale
    else low * scale < c * step && c * step < (4 * m + 2) * scale
  let below := 4 * m * scale / step
  let above := below + 1
  let toBelow := 4 * m * scale - below * step
  let toAbove := above * step - 4 * m * scale
  let takeAbove :=
    if toBelow = toAbove then
      match tie with
      | .even => below % 2 == 1
      | .up => true
    else decide (toAbove < toBelow)
  match within below, within above with
  | true, true => some ⟨if takeAbove then above else below, k⟩
  | true, false => some ⟨below, k⟩
  | false, true => some ⟨above, k⟩
  | false, false => none

/-- The shortest decimal that rounds to `m · 2 ^ q`, for positive `m`.  Seventeen digits always
suffice. -/
def shortest (tie : Tie) (m : Nat) (q : Int) : DecimalNumber :=
  let low := 4 * m - if m = power 2 52 ∧ -1074 < q then 1 else 2
  let k := leadingPower (m * power 2 q) (power 2 (-q))
  let hit := (List.range 17).findSome? fun (n : Nat) => neighbour? tie m low q (k - n)
  (hit.getD ⟨m, q⟩).trimZeros

end Binary64

end Pegboard
