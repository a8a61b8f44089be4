import Mathlib.Logic.Relation
import Pegboard.Proofs.Normalize.Detection
import Pegboard.Proofs.Normalize.Memoizable

/-!
# What the analyses of rules depend on

Normalization looks at all rules together in two places: to find the left-recursive ones, and to find
those whose outcomes may be kept.  Neither looks further than the rules that can be applied.  Two sets
of rules come to the same answers about a rule if the rules that it may come to apply are alike in
both.  For left recursion, bodies are alike if they lead into the same rules.  For memoization it is
enough that they apply the same rules and have free variables or not: a rule may be memoized unless it
reaches one with free variables.

## Main Definitions

* `Pattern.LeadsAlike`: two bodies lead into the same rules.
* `Bodies.Applies`: a rule applies another one.
* `Bodies.HasFree`: the body of a rule has free variables.

## Main Results

* `Bodies.leads_congr`: the detector says the same where bodies are alike.
* `Bodies.mem_closure_iff`: what is reached is what is reached step by step.
* `Bodies.mem_memoizable_iff`: a rule may be memoized unless it reaches free variables.
-/

namespace Pegboard

open Relation (ReflTransGen)

namespace Pattern

variable {enter enter' : String → Leads} {ok : String → Prop}

/-! ## Left recursion -/

/-- What alternatives lead into is told by what each of them does. -/
theorem leadsAny_of_map {ps qs : List Pattern}
    (h : ps.map (leads enter) = qs.map (leads enter')) : leadsAny enter ps = leadsAny enter' qs := by
  induction ps generalizing qs with
  | nil =>
    obtain rfl := List.map_eq_nil_iff.1 h.symm
    rfl
  | cons p ps ih =>
    cases qs with
    | nil => contradiction
    | cons q qs =>
      obtain ⟨hp, hps⟩ := List.cons.inj h
      rw [leadsAny, leadsAny, hp, ih hps]

/-- What terms lead into is told by what each of them does. -/
theorem leadsFirst_of_map {ps qs : List Pattern}
    (h : ps.map (leads enter) = qs.map (leads enter')) :
    leadsFirst enter ps = leadsFirst enter' qs := by
  induction ps generalizing qs with
  | nil =>
    obtain rfl := List.map_eq_nil_iff.1 h.symm
    rfl
  | cons p ps ih =>
    cases qs with
    | nil => contradiction
    | cons q qs =>
      obtain ⟨hp, hps⟩ := List.cons.inj h
      rw [leadsFirst, leadsFirst, hp, ih hps]

/-- Two patterns lead into the same rules, as long as the same is said of the rules in `ok`. -/
def LeadsAlike (ok : String → Prop) (p q : Pattern) : Prop :=
  ∀ enter enter' : String → Leads, (∀ name, ok name → enter name = enter' name) →
    p.leads enter = q.leads enter'

/-- What a pattern leads into depends on the rules that it applies. -/
theorem leadsAlike_of_applied {p : Pattern} (h : ∀ name ∈ p.applied, ok name) :
    LeadsAlike ok p p := by
  intro enter enter' same
  induction p using induction_parts with
  | node p ih =>
    have parts : ∀ q ∈ p.parts, q.leads enter = q.leads enter' := by
      intro q hq
      exact ih q hq fun name hname => h name (applied_subset_of_part hq hname)
    cases p with
    | apply name => exact same name (h name (.head _))
    | choice ps => exact leadsAny_of_map (List.map_congr_left parts)
    | seq ps | scope _ ps => exact leadsFirst_of_map (List.map_congr_left parts)
    | opt p | star p | not p =>
      show (if p.leads enter = .yes then Leads.yes else .unknown)
        = if p.leads enter' = .yes then .yes else .unknown
      rw [parts p (.head _)]
    | plus p | label p | capture p | paren p | memo p => exact parts p (.head _)
    | _ => rfl

end Pattern

namespace Bodies

variable {bodies bodies' : Bodies} {ok : String → Prop}

/-- The detector says the same of two bodies that lead into the same rules, if the rules that are
entered from there have such bodies in turn. -/
theorem leads_congr (alike : ∀ name, ok name →
      Option.Rel (Pattern.LeadsAlike ok) (bodies.body? name) (bodies'.body? name))
    {target : String} {path : List String} {p q : Pattern} (h : p.LeadsAlike ok q) :
    bodies.leads target path p = bodies'.leads target path q := by
  rw [leads_eq, leads_eq]
  refine h _ _ fun name hname => ?_
  rw [enter, enter]
  split
  · rfl
  · rcases none_or_some_of_rel (alike name hname) with
      ⟨hbody, hbody'⟩ | ⟨body, body', hbody, hbody', same⟩
    · rw [hbody, hbody']
    · rw [hbody, hbody']
      by_cases fresh : path.contains name = false
      · have shrinks := offPath_cons_lt hbody fresh
        simp only [if_pos fresh]
        exact leads_congr alike same
      · simp only [if_neg fresh]
termination_by bodies.offPath path

/-! ## Memoization -/

/-- A rule applies a name in its body. -/
def Applies (bodies : Bodies) (caller callee : String) : Prop :=
  ∃ b ∈ bodies, b.1 = caller ∧ callee ∈ b.2.applied

/-- The body of a rule has free variables. -/
def HasFree (bodies : Bodies) (name : String) : Prop :=
  ∃ b ∈ bodies, b.1 = name ∧ b.2.hasFreeVariables = true

theorem subset_closure (bodies : Bodies) (reached : List String) :
    reached ⊆ bodies.closure reached := by
  induction reached using closure.induct bodies with
  | case1 reached h =>
    rw [closure, dif_pos h]
    exact List.Subset.refl _
  | case2 reached h ih =>
    rw [closure, dif_neg h]
    exact List.Subset.trans (List.subset_append_left _ _) ih

/-- What is taken in next applies something that was reached. -/
theorem applies_of_reachedNext {reached : List String} {name : String}
    (h : name ∈ bodies.reachedNext reached) : ∃ callee ∈ reached, bodies.Applies name callee := by
  obtain ⟨b, hb, rfl⟩ := List.mem_map.1 h
  obtain ⟨mem, hb⟩ := List.mem_filter.1 hb
  obtain ⟨callee, applied, hreached⟩ := List.any_eq_true.1 (Bool.and_eq_true _ _ ▸ hb).2
  exact ⟨callee, List.contains_iff_mem.1 hreached, b, mem, rfl, applied⟩

/-- A rule that applies something that was reached has been reached at the end. -/
theorem mem_closure_of_applies {reached : List String} {caller callee : String}
    (h : bodies.Applies caller callee) (mem : callee ∈ bodies.closure reached) :
    caller ∈ bodies.closure reached := by
  obtain ⟨b, hb, rfl, applied⟩ := h
  refine Classical.byContradiction fun missed => ?_
  have next : b.1 ∈ bodies.reachedNext (bodies.closure reached) := by
    refine List.mem_map.2 ⟨b, List.mem_filter.2 ⟨hb, ?_⟩, rfl⟩
    have fresh : (bodies.closure reached).contains b.1 = false := by simpa using missed
    rw [fresh, Bool.not_false, Bool.true_and]
    exact List.any_eq_true.2 ⟨callee, applied, List.contains_iff_mem.2 mem⟩
  rw [reachedNext_closure] at next
  contradiction

/-- The rules that are reached are those from which steps lead to one of the first. -/
theorem mem_closure_iff {reached : List String} {name : String} :
    name ∈ bodies.closure reached ↔ ∃ last ∈ reached, ReflTransGen bodies.Applies name last := by
  constructor
  · induction reached using closure.induct bodies with
    | case1 reached h =>
      rw [closure, dif_pos h]
      exact fun mem => ⟨name, mem, .refl⟩
    | case2 reached h ih =>
      rw [closure, dif_neg h]
      intro mem
      obtain ⟨last, hlast, steps⟩ := ih mem
      rcases List.mem_append.1 hlast with hlast | next
      · exact ⟨last, hlast, steps⟩
      · obtain ⟨callee, hcallee, step⟩ := applies_of_reachedNext next
        exact ⟨callee, hcallee, steps.tail step⟩
  · rintro ⟨last, hlast, steps⟩
    induction steps using ReflTransGen.head_induction_on with
    | refl => exact subset_closure bodies reached hlast
    | head step _ ih => exact mem_closure_of_applies step ih

/-- A rule may be memoized unless it reaches free variables, its own among them. -/
theorem mem_memoizable_iff {name : String} : name ∈ bodies.memoizable ↔
    name ∈ bodies.map (·.1) ∧ ∀ last, ReflTransGen bodies.Applies name last →
      ¬ bodies.HasFree last := by
  have free (last : String) :
      last ∈ (bodies.filter fun b => b.2.hasFreeVariables).map (·.1) ↔ bodies.HasFree last := by
    simp only [List.mem_map, List.mem_filter, HasFree]
    exact exists_congr fun b => by rw [and_assoc, and_comm (a := b.2.hasFreeVariables = true)]
  rw [memoizable, List.mem_filter, Bool.not_eq_true', ← Bool.not_eq_true, List.contains_iff_mem,
    Bodies.open, mem_closure_iff]
  refine and_congr_right fun _ => ?_
  constructor
  · intro none last steps hfree
    exact none ⟨last, (free last).2 hfree, steps⟩
  · rintro none ⟨last, hlast, steps⟩
    exact none last steps ((free last).1 hlast)

end Bodies

end Pegboard
