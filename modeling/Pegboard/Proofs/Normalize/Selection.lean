import Mathlib.Logic.Function.Iterate
import Pegboard.Proofs.Expr.Mentioned
import Pegboard.Proofs.Normalize.Analyses

/-!
# The selection of memoizable rules

The selection goes in rounds.  It starts from the rules that mention a free variable, and a round
takes in all rules that apply one of those taken in before.  It is over when a round has nothing to
take in.  Rules that apply each other in a cycle do not keep it going, for a rule is taken in once: as
many rounds as there are rules are enough, however the rules apply each other.  What is left is the
selection: the rules that reach no free variable.

## Main Definitions

* `Pattern.IsFree`: a name is a free variable of a body.
* `Bodies.Invokes`: one rule applies another.
* `Bodies.freeRules`: the rules from which the selection starts.
* `Bodies.round`: one round.

## Main Results

* `Bodies.iterate_round`: after enough rounds, all is taken in that will ever be.
* `Bodies.memoizable_exact`: how many rounds are enough, and which rules are memoizable then.
-/

namespace Pegboard

open Relation (ReflTransGen)

/-! ## Free variables -/

namespace Pattern

variable {body : Pattern} {name : String}

/-- A pattern mentions a variable: it stands in an expression of a node, as what is called or as
anything else. -/
def MentionsVariable (p : Pattern) (name : String) : Prop :=
  ∃ q ∈ p.nodes, ∃ e, q.expr? = some e ∧ .var name ∈ e.nodes

/-- A name is a free variable of a body: it is mentioned as a variable, and it is neither the name of
a label anywhere in the body, nor a constant, nor the name of a builtin function. -/
def IsFree (body : Pattern) (name : String) : Prop :=
  body.MentionsVariable name ∧ (∀ inner, .label inner name ∉ body.nodes) ∧
    name ∉ ["true", "false", "null"] ∧ ∀ function : Builtin, function.name ≠ name

theorem mentionsVariable_iff : body.MentionsVariable name ↔ name ∈ body.variableNames := by
  simp only [MentionsVariable, mem_variableNames_iff, Expr.var_mem_nodes_iff]

end Pattern

theorem Builtin.isName_eq_false_iff {name : String} :
    Builtin.isName name = false ↔ ∀ function : Builtin, function.name ≠ name := by
  have listed (function : Builtin) : function ∈ Builtin.all := by cases function <;> decide
  simp [isName, ofName?, listed]

theorem Pattern.hasFreeVariables_iff {body : Pattern} :
    body.hasFreeVariables = true ↔ ∃ name, body.IsFree name := by
  simp only [hasFreeVariables, List.any_eq_true, Bool.and_eq_true, Bool.not_eq_true',
    List.contains_eq_mem, decide_eq_false_iff_not, Builtin.isName_eq_false_iff, constants, IsFree,
    mentionsVariable_iff, mem_labels_iff, not_exists, and_assoc]

namespace Bodies

variable {bodies : Bodies}

/-! ## Rounds -/

/-- The rules whose bodies have free variables. -/
def freeRules (bodies : Bodies) : List String :=
  (bodies.filter fun b => b.2.hasFreeVariables).map (·.1)

/-- One round: the rules that are reached next are taken in. -/
def round (bodies : Bodies) (reached : List String) : List String :=
  reached ++ bodies.reachedNext reached

theorem closure_eq_self {reached : List String} (h : bodies.reachedNext reached = []) :
    bodies.closure reached = reached := by
  rw [closure, dif_pos h]

/-- A round leads nowhere else. -/
theorem closure_round (bodies : Bodies) (reached : List String) :
    bodies.closure (bodies.round reached) = bodies.closure reached := by
  by_cases settled : bodies.reachedNext reached = []
  · rw [round, settled, List.append_nil]
  · rw [closure.eq_def bodies reached, dif_neg settled, round]

/-- After as many rounds as there are rules outside, all is taken in that will ever be. -/
theorem iterate_round {reached : List String} {n : Nat} (enough : bodies.outside reached ≤ n) :
    bodies.round^[n] reached = bodies.closure reached := by
  induction n generalizing reached with
  | zero =>
    have settled : bodies.reachedNext reached = [] :=
      Classical.byContradiction fun more =>
        absurd (outside_reachedNext_lt more) (by omega)
    exact (closure_eq_self settled).symm
  | succ n ih =>
    rw [Function.iterate_succ_apply]
    by_cases settled : bodies.reachedNext reached = []
    · have still : bodies.round reached = reached := by rw [round, settled, List.append_nil]
      rw [closure_eq_self settled, still, Function.iterate_fixed still]
    · -- The round has taken in a rule that was outside.
      have fewer : bodies.outside (bodies.round reached) < bodies.outside reached :=
        outside_reachedNext_lt settled
      rw [ih (by omega), closure_round]

/-! ## The selection -/

/-- The body of one rule applies another, at whatever depth. -/
def Invokes (bodies : Bodies) (caller callee : String) : Prop :=
  ∃ b ∈ bodies, b.1 = caller ∧ .apply callee ∈ b.2.nodes

theorem applies_eq_invokes (bodies : Bodies) : bodies.Applies = bodies.Invokes := by
  funext caller callee
  simp only [Applies, Invokes, Pattern.mem_applied_iff]

/-- A rule is memoizable if no rule that it reaches has a free variable. -/
theorem mem_memoizable_iff_invokes {name : String} :
    name ∈ bodies.memoizable ↔ name ∈ bodies.map (·.1) ∧
      ∀ b ∈ bodies, ReflTransGen bodies.Invokes name b.1 → ¬ ∃ free, b.2.IsFree free := by
  rw [mem_memoizable_iff, applies_eq_invokes]
  refine and_congr_right fun _ => ⟨fun none b hb steps free => ?_, ?_⟩
  · exact none b.1 steps ⟨b, hb, rfl, Pattern.hasFreeVariables_iff.2 free⟩
  · rintro none - steps ⟨b, hb, rfl, free⟩
    exact none b hb steps (Pattern.hasFreeVariables_iff.1 free)

/-- The selection is over after at most as many rounds as there are rules, and no further round would
take anything in.  A rule is selected exactly if no rule that it reaches by applying rules, itself
among them, has a free variable. -/
theorem memoizable_exact (bodies : Bodies) :
    (∃ n ≤ bodies.length, bodies.round^[n] bodies.freeRules = bodies.open ∧
      bodies.reachedNext bodies.open = []) ∧
      ∀ name, name ∈ bodies.memoizable ↔ name ∈ bodies.map (·.1) ∧
        ∀ b ∈ bodies, ReflTransGen bodies.Invokes name b.1 → ¬ ∃ free, b.2.IsFree free := by
  refine ⟨⟨bodies.outside bodies.freeRules, List.length_filter_le _ _, ?_, ?_⟩, fun name =>
    mem_memoizable_iff_invokes⟩
  · exact iterate_round (Nat.le_refl _)
  · exact reachedNext_closure bodies _

/-- Of two rules that apply each other, one applies a rule with a free variable, and so neither is
selected.  A rule that applies nothing but itself is. -/
example : Bodies.memoizable
    [("a", .apply "b"), ("b", .choice [.apply "a", .apply "c"]), ("c", .pred (.var "v")),
      ("d", .seq [.lit "y", .opt (.apply "d")])] = ["d"] := by
  cbv

end Bodies

end Pegboard
