import Pegboard.Value

/-!
# What goes wrong in an expression

Evaluating an expression can fail: a name is not bound, a builtin function gets an argument of the
wrong kind, a number does not fit.  `EvalError` names the causes, and `EvalError.message` holds the
wording.

## Main Definitions

* `Builtin`: the builtin functions, by their names.
* `EvalError`: the causes of failure, with their messages.
-/

namespace Pegboard

/-! ## Builtin functions -/

/-- The builtin functions. -/
inductive Builtin where
  /-- The number that a string denotes. -/
  | number
  /-- The strings of a sequence joined. -/
  | cat
  /-- The strings of a sequence joined with a separator. -/
  | join
  /-- Whether a character is of a general category. -/
  | isUnicat
  /-- The character of a hexadecimal code point. -/
  | xtou
  /-- The character of a code point. -/
  | itou
  /-- The code point of a character. -/
  | utoi
  /-- The integer that a string denotes in a base. -/
  | atoi
  /-- A sequence with one more item in front. -/
  | scons
  /-- The number of characters of a string, or of items of a sequence. -/
  | len
  deriving DecidableEq, Repr, Inhabited

namespace Builtin

/-- The name by which an expression calls a builtin function. -/
def name : Builtin → String
  | .number => "number"
  | .cat => "cat"
  | .join => "join"
  | .isUnicat => "is_unicat"
  | .xtou => "xtou"
  | .itou => "itou"
  | .utoi => "utoi"
  | .atoi => "atoi"
  | .scons => "scons"
  | .len => "len"

/-- All builtin functions. -/
def all : List Builtin :=
  [.number, .cat, .join, .isUnicat, .xtou, .itou, .utoi, .atoi, .scons, .len]

/-- The builtin function of a name. -/
def ofName? (name : String) : Option Builtin := all.find? (·.name == name)

/-- Whether a builtin function has the name `name`. -/
def isName (name : String) : Bool := (ofName? name).isSome

theorem ofName?_name (b : Builtin) : ofName? b.name = some b := by
  cases b <;> decide

/-- How many arguments a function takes, in words. -/
def arityText : Builtin → String
  | .number | .cat | .xtou | .itou | .utoi | .len => "1"
  | .join | .isUnicat | .scons => "2"
  | .atoi => "1 or 2"

end Builtin

/-! ## Causes of failure -/

/-- What a builtin function expects of an argument. -/
inductive Expectation where
  | str | character | seq | int | base | intBase | strOrSeq
  deriving DecidableEq, Repr, Inhabited

/-- An expectation in words. -/
def Expectation.text : Expectation → String
  | .str => "a str"
  | .character => "a single character"
  | .seq => "a seq"
  | .int => "an int"
  | .base => "a base between 2 and 36"
  | .intBase => "an int base"
  | .strOrSeq => "a str or a seq"

/-- What a text was to denote. -/
inductive LiteralKind where
  | number | integer | decimal | hexadecimal | codePoint
  deriving DecidableEq, Repr, Inhabited

/-- What a text was to denote, in words. -/
def LiteralKind.text : LiteralKind → String
  | .number => "number"
  | .integer => "integer"
  | .decimal => "decimal integer"
  | .hexadecimal => "hexadecimal integer"
  | .codePoint => "hexadecimal code point"

/-- Why an expression has no value. -/
inductive EvalError where
  | undefinedVariable (name : String)
  | unknownFunction (name : String)
  | notCallable (kind : Kind)
  | bareAttribute (name : String)
  | addends (lhs rhs : Kind)
  | arity (function : Builtin) (found : Nat)
  | badArgument (function : Builtin) (expected : Expectation) (found : Kind)
  | notIndexable (kind : Kind)
  | badIndex (kind : Kind)
  | indexOutOfRange (index : Int) (length : Nat)
  | overflow
  | invalidLiteral (kind : LiteralKind) (text : String)
  | invalidCodePoint (code : Int)
  | unknownCategory (name : String)
  deriving DecidableEq, Repr, Inhabited

namespace EvalError

/-- The wording of an error. -/
def message : EvalError → String
  | .undefinedVariable name => "undefined variable `" ++ name ++ "`"
  | .unknownFunction name => "unknown function `" ++ name ++ "`"
  | .notCallable kind => "a " ++ kind.name ++ " value is not callable"
  | .bareAttribute name => "attribute `." ++ name ++ "` must be called"
  | .addends lhs rhs => "unsupported operand types for +: " ++ lhs.name ++ " and " ++ rhs.name
  | .arity function found =>
    function.name ++ "() takes " ++ function.arityText ++ " argument(s), got " ++ toString found
  | .badArgument function expected found =>
    function.name ++ "() expects " ++ expected.text ++ ", got " ++ found.name
  | .notIndexable kind => "cannot index a " ++ kind.name ++ " value"
  | .badIndex kind => "index must be an int, got " ++ kind.name
  | .indexOutOfRange index length =>
    "index " ++ toString index ++ " out of range for length " ++ toString length
  | .overflow => "integer overflow"
  | .invalidLiteral kind text => "invalid " ++ kind.text ++ " `" ++ text ++ "`"
  | .invalidCodePoint code => "invalid code point " ++ toString code
  | .unknownCategory name => "unknown Unicode general category `" ++ name ++ "`"

end EvalError

end Pegboard
