import Pegboard.Grammar.Mention
import Pegboard.Grammar.Rules
import Pegboard.Expr.Error

/-!
# Which rules may be memoized

Variables resolve against all enclosing scopes, so a rule that mentions a variable which it does not
bind itself sees the bindings of whoever applies it.  What such a rule gives, or a rule that applies
it, is not determined by the offset alone, and is never kept.

## Main Definitions

* `Pattern.hasFreeVariables`: whether a body mentions a variable that it does not bind.
* `Bodies.open`: the rules that reach such a body.
* `Bodies.memoizable`: the others.
-/

namespace Pegboard

/-- The variables that have a value without being bound. -/
def constants : List String := ["true", "false", "null"]

/-- Whether a body mentions a variable that is neither the name of one of its labels, nor a
constant, nor a builtin function. -/
def Pattern.hasFreeVariables (body : Pattern) : Bool :=
  body.variableNames.any fun name =>
    !body.labels.contains name && !constants.contains name && !Builtin.isName name

namespace Bodies

/-- The rules outside `reached` that apply one in it. -/
def reachedNext (bodies : Bodies) (reached : List String) : List String :=
  (bodies.filter fun b =>
    !reached.contains b.1 && b.2.applied.any reached.contains).map (·.1)

/-- How many rules are outside a list of names. -/
def outside (bodies : Bodies) (names : List String) : Nat :=
  (bodies.filter fun b => !names.contains b.1).length

/-- Taking in the rules that are reached next leaves fewer outside, unless there are none. -/
theorem outside_reachedNext_lt {bodies : Bodies} {reached : List String}
    (h : bodies.reachedNext reached ≠ []) :
    bodies.outside (reached ++ bodies.reachedNext reached) < bodies.outside reached := by
  obtain ⟨name, hname⟩ := List.exists_mem_of_ne_nil _ h
  obtain ⟨b, hb, rfl⟩ := List.mem_map.1 hname
  obtain ⟨mem, hb'⟩ := List.mem_filter.1 hb
  simp only [Bool.and_eq_true, Bool.not_eq_true'] at hb'
  have shrink : (bodies.filter fun c => !(reached ++ bodies.reachedNext reached).contains c.1)
      = (bodies.filter fun c => !reached.contains c.1).filter
          fun c => !(bodies.reachedNext reached).contains c.1 := by
    rw [List.filter_filter]
    apply List.filter_congr
    intro c _
    simp [Bool.and_comm]
  rw [outside, outside, shrink]
  apply List.length_filter_lt_length_iff_exists.2
  exact ⟨b, List.mem_filter.2 ⟨mem, by simpa using hb'.1⟩, by simpa using hname⟩

/-- All rules that reach one in `reached` by applying rules, `reached` among them. -/
def closure (bodies : Bodies) (reached : List String) : List String :=
  if _h : bodies.reachedNext reached = [] then reached
  else closure bodies (reached ++ bodies.reachedNext reached)
termination_by bodies.outside reached
decreasing_by exact outside_reachedNext_lt _h

/-- The rules that depend on the bindings of whoever applies them. -/
def «open» (bodies : Bodies) : List String :=
  bodies.closure ((bodies.filter fun b => b.2.hasFreeVariables).map (·.1))

/-- The rules whose outcome at an offset does not depend on the bindings of whoever applies them. -/
def memoizable (bodies : Bodies) : List String :=
  let reached := bodies.open
  (bodies.map (·.1)).filter fun name => !reached.contains name

end Bodies

end Pegboard
