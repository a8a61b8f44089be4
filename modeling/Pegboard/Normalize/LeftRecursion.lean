import Pegboard.Grammar.Rules

/-!
# Left recursion

A rule is left-recursive if matching it may come to match it again before any input is consumed,
directly or through other rules.  Whether it does is decided by the form of the bodies, which says
one of three things of a pattern: that it may enter the rule first, that it cannot, or that neither
is certain, so that what follows it decides.

## Main Definitions

* `Pattern.leads`: whether a pattern leads into a rule, given which rules do.
* `Bodies.leads`: the same, following the rules that are applied.
* `Bodies.leftRecursive`: the left-recursive rules.
-/

namespace Pegboard

/-- Whether a pattern enters a rule before it consumes input. -/
inductive Leads where
  | yes
  | no
  /-- The pattern may succeed without consuming input, so what follows it decides. -/
  | unknown
  deriving DecidableEq, Repr, Inhabited

namespace Pattern

mutual

/-- Whether a pattern leads into a rule, if `enter` says so of the rules that it applies. -/
def leads (enter : String → Leads) : Pattern → Leads
  | .apply name => enter name
  | .choice alts => leadsAny enter alts
  | .seq ps => leadsFirst enter ps
  | .scope _ ps => leadsFirst enter ps
  | .pred _ => .unknown
  | .eq _ => .unknown
  | .pos => .unknown
  | .lit _ => .no
  | .range _ _ => .no
  | .action _ => .no
  | .empty => .no
  | .leftrec _ _ => .yes
  | .opt p => if leads enter p = .yes then .yes else .unknown
  | .star p => if leads enter p = .yes then .yes else .unknown
  | .not p => if leads enter p = .yes then .yes else .unknown
  | .plus p => leads enter p
  | .label p _ => leads enter p
  | .capture p => leads enter p
  | .paren p => leads enter p
  | .memo p _ => leads enter p

/-- Whether one of some alternatives leads into a rule.  One that is uncertain counts. -/
def leadsAny (enter : String → Leads) : List Pattern → Leads
  | [] => .no
  | p :: ps => if leads enter p ≠ .no then .yes else leadsAny enter ps

/-- Whether the first of some terms that is certain leads into a rule. -/
def leadsFirst (enter : String → Leads) : List Pattern → Leads
  | [] => .no
  | p :: ps =>
    match leads enter p with
    | .unknown => leadsFirst enter ps
    | certain => certain

end

end Pattern

namespace Bodies

/-- How many rules are not on a path. -/
def offPath (bodies : Bodies) (path : List String) : Nat :=
  (bodies.filter fun b => !path.contains b.1).length

/-- A rule that is put on a path leaves fewer off it. -/
theorem offPath_cons_lt {bodies : Bodies} {path : List String} {name : String} {body : Pattern}
    (found : bodies.body? name = some body) (fresh : path.contains name = false) :
    bodies.offPath (name :: path) < bodies.offPath path := by
  obtain ⟨b, hb, rfl⟩ := Option.map_eq_some_iff.1 found
  have mem := List.mem_of_find?_eq_some hb
  have named : b.1 = name := by simpa using List.find?_some hb
  have shrink : (bodies.filter fun b => !(name :: path).contains b.1)
      = (bodies.filter fun b => !path.contains b.1).filter (·.1 != name) := by
    rw [List.filter_filter]
    apply List.filter_congr
    intro c _
    simp only [List.contains_cons, Bool.not_or, bne]
  rw [offPath, offPath, shrink]
  apply List.length_filter_lt_length_iff_exists.2
  refine ⟨b, ?_, by simp [named]⟩
  simpa [List.mem_filter, named] using ⟨mem, by simpa using fresh⟩

/-- Whether a pattern leads into the rule `target` through the rules that it applies.  The rules on
`path` were entered on the way; entering one of them again leads nowhere new. -/
def leads (bodies : Bodies) (target : String) (path : List String) (p : Pattern) : Leads :=
  p.leads fun name =>
    if name = target then .yes
    else
      match _found : bodies.body? name with
      | none => .no
      | some body =>
        if _fresh : path.contains name = false then leads bodies target (name :: path) body
        else .no
termination_by bodies.offPath path
decreasing_by exact offPath_cons_lt _found _fresh

/-- Whether a rule is left-recursive. -/
def isLeftRecursive (bodies : Bodies) (rule : String) (body : Pattern) : Bool :=
  bodies.leads rule [rule] body = .yes

/-- The names of the left-recursive rules. -/
def leftRecursive (bodies : Bodies) : List String :=
  (bodies.filter fun b => bodies.isLeftRecursive b.1 b.2).map (·.1)

end Bodies

end Pegboard
