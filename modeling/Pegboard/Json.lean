import Pegboard.Decimal.Style
import Pegboard.Text.Numeral

/-!
# JSON text

Values of JSON and the two ways of writing them: on one line without blanks, and indented by two
blanks a level.  Strings escape quotes, backslashes and the controls below U+0020, and nothing
else; the keys of an object are written in the order of their code points.
-/

namespace Pegboard

/-- A JSON value.  A number is whole or floating-point, as its text was. -/
inductive Json where
  | null
  | bool (b : Bool)
  | int (i : Int)
  | float (x : Float)
  | str (s : String)
  | arr (items : List Json)
  | obj (fields : List (String × Json))
  deriving Inhabited

namespace Json

/-- How a JSON string writes one character. -/
def escapeChar (c : Char) : List Char :=
  if c = '"' then ['\\', '"']
  else if c = '\\' then ['\\', '\\']
  else if c = '\x08' then ['\\', 'b']
  else if c = '\x0c' then ['\\', 'f']
  else if c = '\n' then ['\\', 'n']
  else if c = '\r' then ['\\', 'r']
  else if c = '\t' then ['\\', 't']
  else if c.toNat < 0x20 then '\\' :: 'u' :: Numeral.lowerHex 4 c.toNat
  else [c]

/-- The JSON text of a string. -/
def quote (s : String) : String :=
  String.ofList ('"' :: s.toList.flatMap escapeChar ++ ['"'])

/-- The fields of an object, written already, in the order of their keys. -/
def inKeyOrder (fields : List (String × String)) : List (String × String) :=
  fields.mergeSort fun a b => a.1 ≤ b.1

mutual

/-- The text of a value on one line, without blanks. -/
def compact : Json → String
  | .null => "null"
  | .bool b => if b then "true" else "false"
  | .int i => toString i
  | .float x => NumberStyle.json.text (.ofFloat x)
  | .str s => quote s
  | .arr items => "[" ++ ",".intercalate (compactAll items) ++ "]"
  | .obj fields =>
    "\x7b" ++ ",".intercalate ((inKeyOrder (compactFields fields)).map fun f =>
      quote f.1 ++ ":" ++ f.2) ++ "\x7d"

/-- The texts of the values of a list. -/
def compactAll : List Json → List String
  | [] => []
  | v :: vs => compact v :: compactAll vs

/-- The keys of an object with the texts of their values. -/
def compactFields : List (String × Json) → List (String × String)
  | [] => []
  | (k, v) :: fields => (k, compact v) :: compactFields fields

end

/-- A line break and the indentation of the level `level`. -/
def lineBreak (level : Nat) : String := "\n" ++ String.ofList (List.replicate (2 * level) ' ')

mutual

/-- The text of a value whose first line is indented by `level` already: every item of an array
and every field of an object stands on a line of its own. -/
def indented (level : Nat) : Json → String
  | .arr [] => "[]"
  | .arr items =>
    "[" ++ lineBreak (level + 1)
      ++ ("," ++ lineBreak (level + 1)).intercalate (indentedAll (level + 1) items)
      ++ lineBreak level ++ "]"
  | .obj [] => "\x7b\x7d"
  | .obj fields =>
    "\x7b" ++ lineBreak (level + 1)
      ++ ("," ++ lineBreak (level + 1)).intercalate
        ((inKeyOrder (indentedFields (level + 1) fields)).map fun f => quote f.1 ++ ": " ++ f.2)
      ++ lineBreak level ++ "\x7d"
  | .null => compact .null
  | .bool b => compact (.bool b)
  | .int i => compact (.int i)
  | .float x => compact (.float x)
  | .str s => compact (.str s)

/-- The indented texts of the values of a list. -/
def indentedAll (level : Nat) : List Json → List String
  | [] => []
  | v :: vs => indented level v :: indentedAll level vs

/-- The keys of an object with the indented texts of their values. -/
def indentedFields (level : Nat) : List (String × Json) → List (String × String)
  | [] => []
  | (k, v) :: fields => (k, indented level v) :: indentedFields level fields

end

/-- The text of a value over several lines, indented by two blanks a level. -/
def pretty (v : Json) : String := indented 0 v

end Json

end Pegboard
