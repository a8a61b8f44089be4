import Pegboard.Decimal.Shortest

/-!
# How a floating-point number is written

A `NumberStyle` holds the decisions that formats take differently: from where on an exponent is
written, with which sign, what stands for infinity.  The digits are always the shortest that read
back.
-/

namespace Pegboard

/-- The decisions of a format of floating-point numbers. -/
structure NumberStyle where
  /-- Which of two equally near digit strings to write. -/
  tie : Tie
  /-- Whether a number is written without an exponent, by the power of ten of its first digit. -/
  positional : Int → Bool
  /-- What stands before the digits of a positive exponent. -/
  positiveSign : String
  nan : String
  infinity : String
  negativeInfinity : String

namespace NumberStyle

/-- The digits of `d` with the point where its exponent puts it, zeros filled in, and at least one
digit after the point. -/
def positionalText (d : DecimalNumber) : String :=
  let digits := Nat.toDigits 10 d.digits
  if 0 ≤ d.exponent then
    String.ofList (digits ++ List.replicate d.exponent.toNat '0' ++ ['.', '0'])
  else
    let places := (-d.exponent).toNat
    let padded := List.replicate (places + 1 - digits.length) '0' ++ digits
    String.ofList
      (padded.take (padded.length - places) ++ '.' :: padded.drop (padded.length - places))

/-- The first digit of `d`, the others after a point if there are any, and the exponent. -/
def exponentText (style : NumberStyle) (d : DecimalNumber) : String :=
  let digits := Nat.toDigits 10 d.digits
  let mantissa :=
    match digits with
    | first :: second :: rest => first :: '.' :: second :: rest
    | short => short
  let sign := if 0 ≤ d.leading then style.positiveSign else ""
  String.ofList mantissa ++ "e" ++ sign ++ toString d.leading

/-- The text of a number. -/
def text (style : NumberStyle) : Binary64 → String
  | .nan => style.nan
  | .infinite negative => if negative then style.negativeInfinity else style.infinity
  | .finite negative m q =>
    let sign := if negative then "-" else ""
    if m = 0 then sign ++ "0.0"
    else
      let d := Binary64.shortest style.tie m q
      sign ++ if style.positional d.leading then positionalText d else style.exponentText d

/-- The style of JSON text: an exponent below `10 ^ -5` and from `10 ^ 16` on, with its sign, and
`null` for what JSON has no number for. -/
def json : NumberStyle where
  tie := .even
  positional k := decide (-5 ≤ k) && decide (k ≤ 15)
  positiveSign := "+"
  nan := "null"
  infinity := "null"
  negativeInfinity := "null"

/-- The style of displayed values: never an exponent. -/
def display : NumberStyle where
  tie := .up
  positional _ := true
  positiveSign := ""
  nan := "NaN"
  infinity := "inf"
  negativeInfinity := "-inf"

/-- The style of debug text: an exponent below `10 ^ -4` and from `10 ^ 16` on. -/
def debug : NumberStyle :=
  { display with positional := fun k => decide (-4 ≤ k) && decide (k ≤ 15) }

end NumberStyle

/-- The display of a floating-point number: a whole number with all its digits and one zero after
the point, any other with the shortest digits that read back. -/
def displayFloat (x : Float) : String :=
  let parts := Binary64.ofFloat x
  match parts, parts.whole? with
  | .finite negative _ _, some n => (if negative then "-" else "") ++ toString n ++ ".0"
  | _, _ => NumberStyle.display.text parts

end Pegboard
