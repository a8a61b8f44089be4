import Pegboard.Proofs.Normalize.Settled
import Pegboard.Proofs.Normalize.Valid

/-!
# Where normalized bodies come from

Every body of a normalized grammar comes from a rule as it was written, and it applies the rules that
are applied there.  So the rules of a normalized grammar are valid again.

## Main Results

* `RuleSet.rule_of_mem`: the rule that a body comes from.
* `RuleSet.validate_of_applied`: normalized rules are valid.
-/

namespace Pegboard

namespace Pattern

/-- Positional labels mention nothing but themselves. -/
theorem kept_insertPositional {α : Type} {kind : Mention → Option α}
    (blind : ∀ outer inner, kind (.wrapper outer inner) = none)
    (unlabelled : ∀ name, kind (.label name) = none) (rule : String) (p : Pattern) :
    (p.insertPositional rule).mentions.filterMap kind = p.mentions.filterMap kind := by
  have terms : ∀ (ps : List Pattern) (position : Nat),
      (mentionsAll (labelTerms position ps)).filterMap kind
        = (mentionsAll ps).filterMap kind := by
    intro ps
    induction ps with
    | nil => exact fun _ => rfl
    | cons q ps ih =>
      intro position
      rw [labelTerms, mentionsAll, mentionsAll, List.filterMap_append, List.filterMap_append, ih]
      split
      · rw [mentions, List.filterMap_cons_none (unlabelled _)]
      · rfl
  refine kept_rebuild blind (fun q => ?_) p
  unfold positionalNode
  split
  · split
    · exact terms _ 1
    · rfl
  · exact terms _ 1
  · rfl

/-- Positional labels apply no rules. -/
theorem applied_insertPositional (rule : String) (p : Pattern) :
    (p.insertPositional rule).applied = p.applied :=
  kept_insertPositional (fun _ _ => rfl) (fun _ => rfl) rule p

/-- Positional labels mention no variables. -/
theorem variableNames_insertPositional (rule : String) (p : Pattern) :
    (p.insertPositional rule).variableNames = p.variableNames :=
  kept_insertPositional (fun _ _ => rfl) (fun _ => rfl) rule p

end Pattern

namespace RuleSet

variable {rs : RuleSet} {options : NormalizeOptions} {g : Grammar}

/-- Every body of a normalized grammar comes from a rule as it was written. -/
theorem rule_of_mem (normalized : rs.normalize options = .ok g) {b : String × Pattern}
    (hb : b ∈ g.bodies) : ∃ r ∈ rs.rules, r.name = b.1 ∧ b.2.Settled ∧
      b.2.applied = r.body.applied := by
  refine forall_mem_of_normalize (P := fun name body => ∃ r ∈ rs.rules, r.name = name ∧
    body.Settled ∧ body.applied = r.body.applied) normalized (fun r hr => ⟨r, hr, rfl, ?_, ?_⟩) ?_
    b hb
  · exact Pattern.settled_simplify (Pattern.settled_insertPositional _ _)
  · have wrapped (recursive : List String) (p : Pattern) :
        (Bodies.wrapLeftRecursive recursive r.name p).applied = p.applied := by
      rw [← Pattern.applied_skeleton, Pattern.skeleton_wrapLeftRecursive, Pattern.applied_skeleton]
    rw [Bodies.finishBody, Pattern.applied_simplify, Pattern.applied_insertPositional, wrapped,
      Pattern.applied_insertScopes]
  · rintro memoizable rule body ⟨r, hr, hname, settled, applied⟩
    refine ⟨r, hr, hname,
      Bodies.everywhere_wrapMemo_of (Pattern.settledNode_of_none rfl) settled, ?_⟩
    rw [← applied]
    unfold Bodies.wrapMemo
    split
    · rfl
    · split <;> rfl

/-- The rules of a normalized grammar are valid, and they are so with their bodies changed, as long as
these apply the same rules. -/
theorem validate_of_applied (normalized : rs.normalize options = .ok g)
    {change : Pattern → Pattern} (applied : ∀ p, (change p).applied = p.applied) {rs' : RuleSet}
    (definitions : rs'.definitions = g.bodies.map fun b => (b.1, change b.2)) :
    rs'.validate = .ok () := by
  obtain ⟨rules, nodup, resolved⟩ := validate_eq_ok.1 (normalize_eq_ok.1 normalized).1
  have names : rs'.names = rs.names := by
    have fst : rs'.names = rs'.definitions.map (·.1) := by
      rw [RuleSet.names, RuleSet.definitions, List.map_map]
      rfl
    rw [fst, definitions, List.map_map, ← names_of_normalize normalized]
    rfl
  rw [validate_eq_ok, names]
  refine ⟨fun none => ?_, nodup, fun r' hr' name hname => ?_⟩
  · rw [RuleSet.names, none] at names
    exact rules (List.map_eq_nil_iff.1 names.symm)
  · have mem : (r'.name, r'.body) ∈ rs'.definitions := List.mem_map.2 ⟨r', hr', rfl⟩
    rw [definitions] at mem
    obtain ⟨b, hb, heq⟩ := List.mem_map.1 mem
    obtain ⟨r, hr, -, -, written⟩ := rule_of_mem normalized hb
    have hbody : r'.body = change b.2 := (Prod.mk.inj heq).2.symm
    rw [hbody, applied, written] at hname
    exact resolved r hr name hname

end RuleSet

end Pegboard
