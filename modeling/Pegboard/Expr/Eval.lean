import Pegboard.Grammar.Expr
import Pegboard.Expr.Builtin
import Pegboard.Expr.Scopes

/-!
# Evaluation of expressions

The value of an expression under a stack of scopes, or the first error on the way to it.  A call by
name, and a call of an attribute, which passes what stands before the dot as first argument, reach
builtin functions only; no value can be called.

## Main Definitions

* `Expr.eval`: the value of an expression.
* `Value.add`, `Value.item`: what `+` and an index do to values.
-/

namespace Pegboard

open Numeral

/-- What evaluation gives: a value or an error. -/
abbrev Evaluated (α : Type) := Except EvalError α

/-! ## Operations on values -/

/-- The sum of two numbers, or two strings or sequences joined.  A sum of integers must fit; with a
floating-point number the sum is one. -/
def Value.add : Value → Value → Evaluated Value
  | .int a, .int b => if fits64 (a + b) then pure (.int (a + b)) else throw .overflow
  | .int a, .float b => pure (.float (Float.ofInt a + b))
  | .float a, .int b => pure (.float (a + Float.ofInt b))
  | .float a, .float b => pure (.float (a + b))
  | .str a, .str b => pure (.str (a ++ b))
  | .seq a, .seq b => pure (.seq (a ++ b))
  | a, b => throw (.addends a.kind b.kind)

/-- The position in a list of length `length` that an index means: a negative one counts from the
end. -/
def resolveIndex (index : Int) (length : Nat) : Evaluated Nat :=
  let i := if index < 0 then index + length else index
  if 0 ≤ i && i < length then pure i.toNat else throw (.indexOutOfRange index length)

/-- The item of a sequence, or the character of a string, at an index. -/
def Value.item (value index : Value) : Evaluated Value :=
  match index with
  | .int i =>
    match value with
    | .seq items => do
      let n ← resolveIndex i items.length
      pure (items[n]?.getD .null)
    | .str s => do
      let n ← resolveIndex i s.length
      pure ((s.toList[n]?.map Value.ofChar).getD .null)
    | v => throw (.notIndexable v.kind)
  | v => throw (.badIndex v.kind)

/-- The value of a variable: what it is bound to, or else the constant of its name. -/
def Scopes.variable (scopes : Scopes) (name : String) : Evaluated Value :=
  match scopes.lookup? name with
  | some v => pure v
  | none =>
    match name with
    | "true" => pure (.bool true)
    | "false" => pure (.bool false)
    | "null" => pure .null
    | _ => throw (.undefinedVariable name)

/-- The integer that the digits of a literal denote. -/
def integerLiteral (kind : LiteralKind) (base : Nat) (digits : String) : Evaluated Value :=
  match readInt? base digits.toList with
  | some i => pure (.int i)
  | none =>
    if isNumeral base digits.toList then throw .overflow
    else throw (.invalidLiteral kind digits)

/-- A call by name: of the builtin function of that name.  A variable of the name only decides how
the error reads. -/
def Scopes.call (scopes : Scopes) (name : String) (args : List Value) : Evaluated Value :=
  match Builtin.ofName? name with
  | some function => function.call args
  | none =>
    match scopes.lookup? name with
    | some v => throw (.notCallable v.kind)
    | none => throw (.unknownFunction name)

/-- A call of an attribute: of the builtin function of that name. -/
def callMethod (name : String) (args : List Value) : Evaluated Value :=
  match Builtin.ofName? name with
  | some function => function.call args
  | none => throw (.unknownFunction name)

/-! ## Expressions -/

mutual

/-- The value of an expression. -/
def Expr.eval (scopes : Scopes) : Expr → Evaluated Value
  | .var name => scopes.variable name
  | .dec digits => integerLiteral .decimal 10 digits
  | .hex digits => integerLiteral .hexadecimal 16 digits
  | .str text => pure (.str text)
  | .plus lhs rhs => do
    let a ← lhs.eval scopes
    let b ← rhs.eval scopes
    a.add b
  | .qual (.var name) (.call args :: rest) => do
    let args ← Expr.evalAll scopes args
    let v ← scopes.call name args
    Suffix.evalAll scopes v rest
  | .qual base suffixes => do
    let v ← base.eval scopes
    Suffix.evalAll scopes v suffixes
  | .arr items => do
    let vs ← Expr.evalAll scopes items
    pure (.seq vs)

/-- The values of a list of expressions. -/
def Expr.evalAll (scopes : Scopes) : List Expr → Evaluated (List Value)
  | [] => pure []
  | e :: es => do
    let v ← e.eval scopes
    let vs ← Expr.evalAll scopes es
    pure (v :: vs)

/-- What a list of suffixes makes of a value.  A call belongs to the attribute before it. -/
def Suffix.evalAll (scopes : Scopes) (value : Value) : List Suffix → Evaluated Value
  | [] => pure value
  | .item index :: rest => do
    let i ← index.eval scopes
    let v ← value.item i
    Suffix.evalAll scopes v rest
  | .attr name :: .call args :: rest => do
    let args ← Expr.evalAll scopes args
    let v ← callMethod name (value :: args)
    Suffix.evalAll scopes v rest
  | .attr name :: _ => throw (.bareAttribute name)
  | .call _ :: _ => throw (.notCallable value.kind)

end

end Pegboard
