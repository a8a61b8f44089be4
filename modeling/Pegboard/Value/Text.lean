import Pegboard.Value
import Pegboard.Json
import Pegboard.Text.Quoted
import Pegboard.Text.Outline

/-!
# The texts of a value

A value is shown in three ways: as JSON, as a display on one line, and as an outline.
-/

namespace Pegboard.Value

/-! ## JSON -/

mutual

/-- The JSON value that stands for a value. -/
def toJson : Value → Json
  | .null => .null
  | .bool b => .bool b
  | .int i => .int i
  | .float x => .float x
  | .str s => .str s
  | .seq items => .arr (toJsonAll items)

/-- The JSON values of a list. -/
def toJsonAll : List Value → List Json
  | [] => []
  | v :: vs => toJson v :: toJsonAll vs

end

theorem toJsonAll_eq_map (vs : List Value) : toJsonAll vs = vs.map toJson := by
  induction vs with
  | nil => rfl
  | cons v vs ih => simp [toJsonAll, ih]

/-! ## Display -/

mutual

/-- The display of a value: strings in double quotes, sequences in brackets. -/
def display : Value → String
  | .null => "null"
  | .bool b => if b then "true" else "false"
  | .int i => toString i
  | .float x => displayFloat x
  | .str s => Quoted.debugString s
  | .seq items => "[" ++ ", ".intercalate (displayAll items) ++ "]"

/-- The displays of a list. -/
def displayAll : List Value → List String
  | [] => []
  | v :: vs => display v :: displayAll vs

end

theorem displayAll_eq_map (vs : List Value) : displayAll vs = vs.map display := by
  induction vs with
  | nil => rfl
  | cons v vs ih => simp [displayAll, ih]

/-! ## Outline -/

mutual

/-- The outline of a value. -/
def outline : Value → Outline
  | .null => .leaf "Null"
  | .bool b => .form "Bool" [.leaf (if b then "true" else "false")]
  | .int i => .form "Int" [.leaf (toString i)]
  | .float x => .form "Float" [.leaf (NumberStyle.debug.text (.ofFloat x))]
  | .str s => .form "Str" [.leaf (Quoted.debugString s)]
  | .seq items => .form "Seq" [.list (outlineAll items)]

/-- The outlines of a list. -/
def outlineAll : List Value → List Outline
  | [] => []
  | v :: vs => outline v :: outlineAll vs

end

theorem outlineAll_eq_map (vs : List Value) : outlineAll vs = vs.map outline := by
  induction vs with
  | nil => rfl
  | cons v vs ih => simp [outlineAll, ih]

end Pegboard.Value
