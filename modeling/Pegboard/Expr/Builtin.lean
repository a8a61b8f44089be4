import Pegboard.Expr.Error
import Pegboard.Decimal.Read
import Pegboard.Unicode.Property

/-!
# The builtin functions

What the builtin functions compute.  A function first checks how many arguments it gets, then the
kind of each, and then computes; the first thing that is wrong is the error.

## Main Definitions

* `readInt?`: the integer of 64 bits that a text denotes in a base, with an optional sign.
* `Builtin.call`: the value of a builtin function at its arguments.
-/

namespace Pegboard

open Numeral Unicode

/-! ## Reading integers -/

/-- The integer of 64 bits that a text denotes in the base `base`: an optional sign, then digits,
and nothing else. -/
def readInt? (base : Nat) (cs : List Char) : Option Int :=
  let (negative, digits) := Decimal.splitSign cs
  if isNumeral base digits then
    let n : Int := numeralValue base digits
    let i := if negative then -n else n
    if fits64 i then some i else none
  else none

/-- The text without the blanks at its ends. -/
def trimBlanks (cs : List Char) : List Char :=
  ((cs.dropWhile isBlank).reverse.dropWhile isBlank).reverse

namespace Builtin

/-- What a builtin function gives: a value or an error. -/
abbrev Answer (α : Type) := Except EvalError α

/-! ## Arguments -/

/-- The argument as a string. -/
def asStr (function : Builtin) : Value → Answer String
  | .str s => pure s
  | v => throw (.badArgument function .str v.kind)

/-- The argument as a character: a string of exactly one. -/
def asChar (function : Builtin) (v : Value) : Answer Char := do
  let s ← asStr function v
  match s.toList with
  | [c] => pure c
  | _ => throw (.badArgument function .character .str)

/-- The argument as a sequence. -/
def asSeq (function : Builtin) : Value → Answer (List Value)
  | .seq items => pure items
  | v => throw (.badArgument function .seq v.kind)

/-- The items of a sequence as strings. -/
def asStrs (function : Builtin) : List Value → Answer (List String)
  | [] => pure []
  | v :: vs => do
    let s ← asStr function v
    let rest ← asStrs function vs
    pure (s :: rest)

/-! ## The functions -/

/-- The number that a text denotes, blanks at its ends aside: a floating-point number if a point
occurs in it, and else an integer.  A number is its own value. -/
def numberOf : Value → Answer Value
  | .int i => pure (.int i)
  | .float x => pure (.float x)
  | v => do
    let text ← asStr .number v
    let trimmed := trimBlanks text.toList
    if trimmed.contains '.' then
      match Decimal.readFloat? trimmed with
      | some x => pure (.float x)
      | none => throw (.invalidLiteral .number text)
    else
      match readInt? 10 trimmed with
      | some i => pure (.int i)
      | none =>
        let digits :=
          match trimmed with
          | '-' :: rest => rest
          | cs => cs
        if isNumeral 10 digits then throw .overflow else throw (.invalidLiteral .number text)

/-- The integer that a text denotes in a base.  Any number of minus signs may stand before the
digits of what is no integer only because it does not fit. -/
def integerOf (text : String) (base : Nat) : Answer Value :=
  if isNumeral base (text.toList.dropWhile (· = '-')) then
    match readInt? base text.toList with
    | some i => pure (.int i)
    | none => throw .overflow
  else throw (.invalidLiteral .integer text)

/-- The base that an argument gives. -/
def baseOf : Value → Answer Nat
  | .int i => if 2 ≤ i && i ≤ 36 then pure i.toNat else throw (.badArgument .atoi .base .int)
  | v => throw (.badArgument .atoi .intBase v.kind)

/-- The character of a hexadecimal code point of at most eight digits. -/
def characterOfHex (text : String) : Answer Value :=
  let digits := text.toList
  if !digits.isEmpty && digits.length ≤ 8 && digits.all isAsciiHexDigit then
    match charOfHex? digits with
    | some c => pure (.ofChar c)
    | none => throw (.invalidLiteral .codePoint text)
  else throw (.invalidLiteral .codePoint text)

/-- The character of a code point. -/
def characterOfCode (code : Int) : Answer Value :=
  if 0 ≤ code && code.toNat.isValidChar then pure (.ofChar (Char.ofNat code.toNat))
  else throw (.invalidCodePoint code)

/-- Whether the category of a character is the one of the given name. -/
def hasCategory (c : Char) (name : String) : Answer Value :=
  if GeneralCategory.all.any (·.isNamed name) then
    pure (.bool ((generalCategory c).isNamed name))
  else throw (.unknownCategory name)

/-- The value of a builtin function at its arguments. -/
def call : Builtin → List Value → Answer Value
  | .number, [v] => numberOf v
  | .cat, [.str s] => pure (.str s)
  | .cat, [v] => do
    let items ← asSeq .cat v
    let strs ← asStrs .cat items
    pure (.str (String.join strs))
  | .join, [sep, items] => do
    let sep ← asStr .join sep
    let items ← asSeq .join items
    let strs ← asStrs .join items
    pure (.str (sep.intercalate strs))
  | .isUnicat, [c, name] => do
    let c ← asChar .isUnicat c
    let name ← asStr .isUnicat name
    hasCategory c name
  | .xtou, [v] => do
    let text ← asStr .xtou v
    characterOfHex text
  | .itou, [.int code] => characterOfCode code
  | .itou, [v] => throw (.badArgument .itou .int v.kind)
  | .utoi, [v] => do
    let c ← asChar .utoi v
    pure (.int c.toNat)
  | .atoi, [v] => do
    let text ← asStr .atoi v
    integerOf text 10
  | .atoi, [v, base] => do
    let text ← asStr .atoi v
    let base ← baseOf base
    integerOf text base
  | .scons, [head, items] => do
    let items ← asSeq .scons items
    pure (.seq (head :: items))
  | .len, [.str s] => pure (.int s.length)
  | .len, [.seq items] => pure (.int items.length)
  | .len, [v] => throw (.badArgument .len .strOrSeq v.kind)
  | function, args => throw (.arity function args.length)

end Builtin

end Pegboard
