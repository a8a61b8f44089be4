import Pegboard.Proofs.Normalize.Closed

/-!
# Valid rules

Validation finds the first fault of a rule set and names it.  This module says what there is when it
finds none: at least one rule, no name twice, and no application of a rule that is defined nowhere.

## Main Results

* `RuleSet.validate_eq_ok`: the rule sets without faults.
-/

namespace Pegboard

theorem firstRepeated?_eq_none {names : List String} : ∀ {seen : List String},
    firstRepeated? seen names = none ↔ names.Nodup ∧ ∀ name ∈ names, name ∉ seen := by
  induction names with
  | nil => simp [firstRepeated?]
  | cons name rest ih =>
    intro seen
    rw [firstRepeated?, List.nodup_cons]
    by_cases hseen : seen.contains name = true
    · rw [if_pos hseen]
      have := List.contains_iff_mem.1 hseen
      simp [this]
    · rw [if_neg hseen, ih]
      have := mt List.contains_iff_mem.2 hseen
      constructor
      · rintro ⟨nodup, fresh⟩
        refine ⟨⟨fun h => fresh name h (.head _), nodup⟩, fun other hother => ?_⟩
        rcases List.mem_cons.1 hother with rfl | hother
        · exact this
        · exact fun h => fresh other hother (.tail _ h)
      · rintro ⟨⟨hname, nodup⟩, fresh⟩
        refine ⟨nodup, fun other hother hmem => ?_⟩
        rcases List.mem_cons.1 hmem with rfl | hmem
        · exact hname hother
        · exact fresh other (.tail _ hother) hmem

theorem leastName?_eq_none {names : List String} : leastName? names = none ↔ names = [] := by
  cases names with
  | nil => simp [leastName?]
  | cons name rest =>
    rw [leastName?]
    split <;> simp

namespace RuleSet

theorem firstUnresolved?_eq_none {rs : RuleSet} : rs.firstUnresolved? = none ↔
    ∀ r ∈ rs.rules, ∀ name ∈ r.body.applied,
      name ∈ rs.names ∨ BuiltinRule.isName name = true := by
  rw [firstUnresolved?, List.findSome?_eq_none_iff]
  refine forall₂_congr fun r _ => ?_
  rw [Option.map_eq_none_iff, leastName?_eq_none, unresolved, List.filter_eq_nil_iff]
  refine forall₂_congr fun name _ => ?_
  simp only [Bool.and_eq_true, Bool.not_eq_true', not_and, Bool.not_eq_false]
  by_cases h : name ∈ rs.names <;> simp [h]

/-- A rule set is valid if it has a rule, no name twice, and no application of a rule that is neither
defined nor builtin. -/
theorem validate_eq_ok {rs : RuleSet} : rs.validate = .ok () ↔
    rs.rules ≠ [] ∧ rs.names.Nodup ∧ ∀ r ∈ rs.rules, ∀ name ∈ r.body.applied,
      name ∈ rs.names ∨ BuiltinRule.isName name = true := by
  have nodup : rs.names.Nodup ↔ firstRepeated? [] rs.names = none := by
    rw [firstRepeated?_eq_none]
    simp
  rw [nodup, ← firstUnresolved?_eq_none, validate]
  cases hrules : rs.rules with
  | nil => simp [throw, throwThe, MonadExceptOf.throw]
  | cons r rest =>
    cases hnames : firstRepeated? [] rs.names with
    | some name => simp [throw, throwThe, MonadExceptOf.throw]
    | none =>
      cases hunresolved : rs.firstUnresolved? with
      | some found => simp [throw, throwThe, MonadExceptOf.throw]
      | none => simp [pure, Except.pure]

theorem names_finished (rs : RuleSet) : rs.finished.map (·.1) = rs.names := by
  simp [finished, scopedBodies, Bodies.mapBodies, definitions, RuleSet.names, Function.comp_def]

/-- Normalization keeps the names of the rules. -/
theorem names_of_normalize {rs : RuleSet} {options : NormalizeOptions} {g : Grammar}
    (normalized : rs.normalize options = .ok g) : g.bodies.map (·.1) = rs.names := by
  obtain ⟨-, -, rfl⟩ := normalize_eq_ok.1 normalized
  cases options.memoize with
  | false => exact rs.names_finished
  | true =>
    show rs.finished.memoize.map (·.1) = rs.names
    rw [← rs.names_finished, Bodies.memoize, Bodies.mapBodies, List.map_map]
    rfl

/-- Normalized rules have their names once each. -/
theorem nodup_of_normalize {rs : RuleSet} {options : NormalizeOptions} {g : Grammar}
    (normalized : rs.normalize options = .ok g) : rs.names.Nodup :=
  (validate_eq_ok.1 (normalize_eq_ok.1 normalized).1).2.1

end RuleSet

end Pegboard
