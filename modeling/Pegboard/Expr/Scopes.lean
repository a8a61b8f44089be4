import Pegboard.Value

/-!
# Binding scopes

Labels bind names to values in the innermost of a stack of frames, and variables are looked up from
the innermost frame outwards.  There is always at least one frame: the outermost is never given up.

## Main Definitions

* `Frame`: the bindings of one scope, each name at most once.
* `Scopes`: a stack of frames with `push`, `pop`, `bind` and `lookup?`.
-/

namespace Pegboard

/-- The bindings of one scope, the latest first. -/
abbrev Frame := List (String × Value)

namespace Frame

/-- The value bound to a name. -/
def get? (frame : Frame) (name : String) : Option Value :=
  (frame.find? (·.1 == name)).map (·.2)

/-- The frame with `name` bound to `value`, whatever it was bound to before. -/
def insert (frame : Frame) (name : String) (value : Value) : Frame :=
  (name, value) :: frame.filter (·.1 != name)

theorem get?_insert_self (frame : Frame) (name : String) (value : Value) :
    (frame.insert name value).get? name = some value := by
  simp [get?, insert]

theorem get?_insert_of_ne (frame : Frame) {name other : String} (value : Value)
    (h : other ≠ name) : (frame.insert name value).get? other = frame.get? other := by
  have hne : (name == other) = false := by simpa using Ne.symm h
  rw [get?, insert, List.find?_cons, hne]
  simp only [List.find?_filter, get?]
  congr 2
  funext a
  by_cases ha : a.1 = other <;> simp [ha, h]

end Frame

/-- A stack of frames, which is never empty. -/
structure Scopes where
  /-- The innermost frame, in which labels bind. -/
  innermost : Frame
  /-- The enclosing frames, from the inside out. -/
  enclosing : List Frame
  deriving Inhabited

namespace Scopes

/-- One frame without bindings. -/
def base : Scopes := ⟨[], []⟩

/-- All frames, from the inside out. -/
def frames (scopes : Scopes) : List Frame := scopes.innermost :: scopes.enclosing

/-- Opens a scope. -/
def push (scopes : Scopes) : Scopes := ⟨[], scopes.frames⟩

/-- Gives up the innermost scope, unless it is the only one. -/
def pop (scopes : Scopes) : Scopes :=
  match scopes.enclosing with
  | [] => scopes
  | frame :: rest => ⟨frame, rest⟩

/-- Binds a name in the innermost scope. -/
def bind (scopes : Scopes) (name : String) (value : Value) : Scopes :=
  { scopes with innermost := scopes.innermost.insert name value }

/-- The value that a name is bound to in the innermost scope that binds it. -/
def lookup? (scopes : Scopes) (name : String) : Option Value :=
  scopes.frames.findSome? (·.get? name)

@[simp] theorem pop_push (scopes : Scopes) : scopes.push.pop = scopes := rfl

theorem lookup?_bind_self (scopes : Scopes) (name : String) (value : Value) :
    (scopes.bind name value).lookup? name = some value := by
  simp [lookup?, bind, frames, Frame.get?_insert_self]

end Scopes

end Pegboard
