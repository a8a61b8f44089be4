import Pegboard.Proofs.Expr.Attached

/-!
# Method calls

Behind a dot stands a function, and before it the first of the arguments.  A chain of suffixes is
worked off from left to right, so wherever in a chain a method is called, everything before its dot
has a value, or has failed, before the arguments are looked at.  This is the order in which the
arguments of a call by name are evaluated.

## Main Definitions

* `Expr.suffixed`: an expression with any number of suffixes behind it.

## Main Results

* `Expr.eval_qual_append`: suffixes apply to the value of what stands before them.
* `Expr.eval_method`: a method call in a chain is a call by name.
-/

namespace Pegboard

/-- An expression with suffixes behind it: itself if there are none. -/
def Expr.suffixed (base : Expr) : List Suffix → Expr
  | [] => base
  | s :: ss => .qual base (s :: ss)

/-- A method that is a builtin function is called with the value before its dot and the values of
its arguments. -/
theorem Suffix.evalAll_method (scopes : Scopes) (value : Value) (function : Builtin)
    (args : List Expr) (rest : List Suffix) :
    evalAll scopes value (.attr function.name :: .call args :: rest) =
      Expr.evalAll scopes args >>= fun vs =>
        function.call (value :: vs) >>= fun v => evalAll scopes v rest := by
  simp only [evalAll, callMethod, Builtin.ofName?_name]

namespace Expr

/-- A builtin function is called by name with the values of its arguments, whatever the name is
bound to. -/
theorem eval_builtin (scopes : Scopes) (function : Builtin) (args : List Expr)
    (rest : List Suffix) :
    eval scopes (.qual (.var function.name) (.call args :: rest)) =
      evalAll scopes args >>= fun vs =>
        function.call vs >>= fun v => Suffix.evalAll scopes v rest := by
  simp only [eval_call, Scopes.call, Builtin.ofName?_name]

/-- Suffixes that do not start with a call apply to the value of all that stands before them. -/
theorem eval_qual_append (scopes : Scopes) (base : Expr) (ops : List Suffix) {further : List Suffix}
    (apart : Suffix.startWithCall further = false) :
    eval scopes (.qual base (ops ++ further)) =
      eval scopes (base.suffixed ops) >>= fun v => Suffix.evalAll scopes v further := by
  cases ops with
  | nil => exact eval_qual scopes fun _ _ => apart
  | cons op ops =>
    -- No call is taken from a chain that ends in an attribute, as the rest starts with none.
    have whole : Flattened False (eval scopes (.qual base (op :: ops ++ further))) _ :=
      flattened_qual_append scopes (by simp) fun _ called => by
        rw [apart] at called
        contradiction
    exact whole.eq

/-- A method call anywhere in a chain of suffixes has the value, or the error, of the call by name
that takes all before the dot as its first argument and has the rest of the chain behind it. -/
theorem eval_method (scopes : Scopes) (base : Expr) (ops : List Suffix) (function : Builtin)
    (args : List Expr) (rest : List Suffix) :
    eval scopes (.qual base (ops ++ .attr function.name :: .call args :: rest)) =
      eval scopes
        (.qual (.var function.name) (.call (base.suffixed ops :: args) :: rest)) := by
  calc
    _ = eval scopes (base.suffixed ops) >>= fun v =>
          Suffix.evalAll scopes v (.attr function.name :: .call args :: rest) :=
      eval_qual_append scopes base ops rfl
    _ = eval scopes (base.suffixed ops) >>= fun v => evalAll scopes args >>= fun vs =>
          function.call (v :: vs) >>= fun w => Suffix.evalAll scopes w rest := by
      simp only [Suffix.evalAll_method]
    _ = evalAll scopes (base.suffixed ops :: args) >>= fun vs =>
          function.call vs >>= fun w => Suffix.evalAll scopes w rest := by
      simp only [evalAll, bind_assoc, pure_bind]
    _ = _ := (eval_builtin scopes function (base.suffixed ops :: args) rest).symm

end Expr

end Pegboard
