import Pegboard.Proofs.Normalize.Closed
import Pegboard.Proofs.Grammar.Parts
import Pegboard.Proofs.Grammar.Reads

/-!
# The rules that are memoized

Memoization changes a normalized grammar in one way: the bodies of some rules are wrapped.  The rules
that these apply are not affected by the bindings of their callers either, for the selection leaves
out every rule that reaches one that is.

## Main Definitions

* `Grammar.memoize`: a grammar with its bodies memoized.
* `Bodies.Kept`: the outcomes of a rule are kept.
* `Bodies.Unbound`: no label binds a name.

## Main Results

* `Bodies.memoizable_applied`: a memoizable rule applies memoizable rules only.
* `RuleSet.normalize_memoize`: what normalization gives with memoization is what it gives without,
  memoized.
-/

namespace Pegboard

namespace Bodies

variable {bodies : Bodies}

/-! ## The rules that do not depend on their callers -/

/-- No rule is reached next from all that are reached. -/
theorem reachedNext_closure (bodies : Bodies) (reached : List String) :
    bodies.reachedNext (bodies.closure reached) = [] := by
  induction reached using closure.induct bodies with
  | case1 reached h =>
    rw [closure, dif_pos h]
    exact h
  | case2 reached h ih =>
    rw [closure, dif_neg h]
    exact ih

/-- A memoizable rule is one of the rules. -/
theorem body?_of_memoizable {name : String} (h : name ∈ bodies.memoizable) :
    ∃ body, bodies.body? name = some body := by
  obtain ⟨hname, -⟩ := List.mem_filter.1 h
  obtain ⟨b, hb, hb'⟩ := List.mem_map.1 hname
  cases hfind : bodies.find? (·.1 == name) with
  | none => simpa [hb'] using List.find?_eq_none.1 hfind b hb
  | some found => exact ⟨found.2, by rw [body?, hfind]; rfl⟩

/-- A memoizable rule applies memoizable rules only, and builtin ones. -/
theorem memoizable_applied {name callee : String} {body : Pattern}
    (memoizable : name ∈ bodies.memoizable) (found : bodies.body? name = some body)
    (applied : callee ∈ body.applied) :
    callee ∈ bodies.memoizable ∨ bodies.body? callee = none := by
  cases hcallee : bodies.body? callee with
  | none => exact .inr rfl
  | some other =>
    refine .inl (List.mem_filter.2 ⟨?_, ?_⟩)
    · exact List.mem_map.2 ⟨(callee, other), mem_of_body? hcallee, rfl⟩
    · obtain ⟨-, hname⟩ := List.mem_filter.1 memoizable
      rw [Bool.not_eq_true'] at hname ⊢
      refine Bool.eq_false_iff.2 fun hopen => ?_
      -- Otherwise the rule would be reached next.
      have next : name ∈ bodies.reachedNext bodies.open := by
        refine List.mem_map.2 ⟨(name, body), List.mem_filter.2 ⟨mem_of_body? found, ?_⟩, rfl⟩
        rw [hname, Bool.not_false, Bool.true_and]
        exact List.any_eq_true.2 ⟨callee, applied, hopen⟩
      rw [Bodies.open, reachedNext_closure] at next
      contradiction

/-! ## Which outcomes are kept -/

/-- The outcomes of a rule are kept: it is memoizable, and its body is not wrapped already. -/
def Kept (bodies : Bodies) (rule : String) : Prop :=
  rule ∈ bodies.memoizable ∧ ∀ inner name, bodies.body? rule ≠ some (.leftrec inner name)

/-- No label of any rule binds the name. -/
def Unbound (bodies : Bodies) (name : String) : Prop := ∀ b ∈ bodies, name ∉ b.2.labels

theorem not_unbound_of_label {b : String × Pattern} {p : Pattern} {name : String}
    (hb : b ∈ bodies) (h : .label p name ∈ b.2.nodes) : ¬ bodies.Unbound name := by
  intro unbound
  exact unbound b hb (Pattern.mem_labels_iff.2 ⟨p, h⟩)

end Bodies

/-- A grammar with the bodies wrapped whose outcomes may be kept. -/
def Grammar.memoize (g : Grammar) : Grammar := ⟨g.bodies.memoize, g.leftAssoc⟩

namespace Grammar

variable {g : Grammar}

theorem start_memoize (g : Grammar) : g.memoize.start = g.start := by
  rw [start, start, memoize, Bodies.memoize, Bodies.mapBodies]
  cases g.bodies <;> rfl

theorem body?_memoize_of_none {name : String} (h : g.body? name = none) :
    g.memoize.body? name = none := by
  show Bodies.body? (g.bodies.mapBodies _) name = none
  rw [Bodies.body?_mapBodies, show Bodies.body? g.bodies name = none from h]
  rfl

/-- The body of a rule is wrapped if its outcomes are kept, and else it is as it was. -/
theorem body?_memoize {name : String} {body : Pattern} (h : g.body? name = some body) :
    g.bodies.Kept name ∧ g.memoize.body? name = some (.memo body name) ∨
      g.memoize.body? name = some body := by
  have hbody : Bodies.body? g.bodies name = some body := h
  have hmemo : g.memoize.body? name
      = some (Bodies.wrapMemo g.bodies.memoizable name body) := by
    show Bodies.body? (g.bodies.mapBodies _) name = _
    rw [Bodies.body?_mapBodies, hbody]
    rfl
  rw [hmemo]
  unfold Bodies.wrapMemo
  split
  · exact .inr rfl
  · next hwrapped =>
    split
    · next hmem =>
      refine .inl ⟨⟨List.contains_iff_mem.1 hmem, fun inner rule hinner => ?_⟩, rfl⟩
      rw [hbody, Option.some.injEq] at hinner
      exact hwrapped inner rule hinner
    · exact .inr rfl

end Grammar

namespace RuleSet

/-- What normalization gives with memoization is what it gives without, memoized. -/
theorem normalize_memoize {rs : RuleSet} {leftAssoc : List String} {g g' : Grammar}
    (plain : rs.normalize ⟨false, leftAssoc⟩ = .ok g)
    (memoized : rs.normalize ⟨true, leftAssoc⟩ = .ok g') : g' = g.memoize := by
  obtain ⟨-, -, rfl⟩ := normalize_eq_ok.1 plain
  obtain ⟨-, -, rfl⟩ := normalize_eq_ok.1 memoized
  rfl

/-- A rule that associates to the left is wrapped in the normalized grammar. -/
theorem wrapped_of_leftAssoc {rs : RuleSet} {options : NormalizeOptions} {g : Grammar}
    (normalized : rs.normalize options = .ok g) {name : String}
    (assoc : g.isLeftAssoc name = true) {body : Pattern} (found : g.body? name = some body) :
    ∃ inner, body = .leftrec inner name := by
  rcases rs.body?_of_normalize normalized found with wrapped | ⟨written, -, hno, -⟩
  · exact wrapped
  · obtain ⟨-, hall, rfl⟩ := normalize_eq_ok.1 normalized
    exact absurd (hall name (List.contains_iff_mem.1 assoc)) hno

end RuleSet

end Pegboard
