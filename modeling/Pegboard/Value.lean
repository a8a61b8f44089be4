/-!
# Values

Matching a text against a grammar produces a `Value`: nothing, a truth value, a number, a string,
or a sequence of values.  The kind of a value is decided only when a grammar runs, so a `Value`
carries its kind with it.
-/

namespace Pegboard

/-- The kinds of value, which messages name. -/
inductive Kind where
  | null | bool | int | float | str | seq
  deriving DecidableEq, Repr, Inhabited

/-- The name of a kind in messages. -/
def Kind.name : Kind → String
  | .null => "null"
  | .bool => "bool"
  | .int => "int"
  | .float => "float"
  | .str => "str"
  | .seq => "seq"

/-- What a match produces.  An integer is one of 64 signed bits: whatever makes an integer checks
that it fits (`fits64`). -/
inductive Value where
  /-- The value of what succeeds without producing one. -/
  | null
  | bool (b : Bool)
  | int (i : Int)
  | float (x : Float)
  | str (s : String)
  | seq (items : List Value)
  deriving Inhabited

/-- Whether `i` is a number of 64 signed bits. -/
def fits64 (i : Int) : Bool :=
  decide (-0x8000000000000000 ≤ i) && decide (i ≤ 0x7fffffffffffffff)

namespace Value

/-- The kind of a value. -/
def kind : Value → Kind
  | .null => .null
  | .bool _ => .bool
  | .int _ => .int
  | .float _ => .float
  | .str _ => .str
  | .seq _ => .seq

/-- The one-character string of a character. -/
def ofChar (c : Char) : Value := .str (String.singleton c)

end Value

end Pegboard
