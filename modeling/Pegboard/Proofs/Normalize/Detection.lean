import Pegboard.Proofs.Match.Progress
import Pegboard.Proofs.Normalize.Closed

/-!
# Detection of left recursion

A rule that applies itself again where it started, before anything is consumed, must have its body
wrapped, or a match would descend without end.  Whether it is wrapped is decided by the form of the
bodies: the detector looks at the terms of a sequence from the first to the first that it takes to
consume input.

On the way from a rule back to itself, every rule applies the next one where it starts.  If the
detector follows all these steps, it finds the recursion, for what it says of a pattern depends on
the rules that it has entered in one direction only: the fewer there are, the more is said.

## Main Definitions

* `Bodies.Follows`: the detector follows the step from one rule to another.
* `Bodies.Way`: a way from one rule to another through the rules of a list.

## Main Results

* `Bodies.isLeftRecursive_of_way`: a rule is found to be left-recursive if the detector follows all
  steps of a way back to it.
* `Pattern.opens_of_finish`, `Pattern.opens_of_insertScopes`: the passes let no body open a rule that
  it did not open before.
-/

namespace Pegboard

/-! ## What the detector says -/

namespace Leads

/-- What is said in `a` is said more strongly, or as strongly, in `b`. -/
def Below (a b : Leads) : Prop := (a ≠ .no → b ≠ .no) ∧ (a = .yes → b = .yes)

theorem Below.refl (a : Leads) : a.Below a := ⟨id, id⟩

theorem no_below (b : Leads) : Below .no b := ⟨fun h => absurd rfl h, fun h => by contradiction⟩

theorem Below.optional {a b : Leads} (h : a.Below b) :
    Below (if a = .yes then .yes else .unknown) (if b = .yes then .yes else .unknown) := by
  cases a <;> cases b <;> simp_all [Below]

end Leads

namespace Pattern

variable {enter enter' : String → Leads}

mutual

/-- More that is said of the rules makes more that is said of a pattern. -/
theorem leads_below (h : ∀ name, (enter name).Below (enter' name)) :
    ∀ p : Pattern, (p.leads enter).Below (p.leads enter')
  | .apply name => h name
  | .choice alts => leadsAny_below h alts
  | .seq ps => leadsFirst_below h ps
  | .scope _ ps => leadsFirst_below h ps
  | .pred _ => .refl _
  | .eq _ => .refl _
  | .pos => .refl _
  | .lit _ => .refl _
  | .range _ _ => .refl _
  | .action _ => .refl _
  | .empty => .refl _
  | .leftrec _ _ => .refl _
  | .opt p => (leads_below h p).optional
  | .star p => (leads_below h p).optional
  | .not p => (leads_below h p).optional
  | .plus p => leads_below h p
  | .label p _ => leads_below h p
  | .capture p => leads_below h p
  | .paren p => leads_below h p
  | .memo p _ => leads_below h p

theorem leadsAny_below (h : ∀ name, (enter name).Below (enter' name)) :
    ∀ ps : List Pattern, (leadsAny enter ps).Below (leadsAny enter' ps)
  | [] => .refl _
  | p :: ps => by
    rw [leadsAny, leadsAny]
    by_cases hp : p.leads enter = .no
    · rw [if_neg (not_not_intro hp)]
      split
      · exact ⟨fun _ => by simp, fun _ => rfl⟩
      · exact leadsAny_below h ps
    · rw [if_pos hp, if_pos ((leads_below h p).1 hp)]
      exact .refl _

theorem leadsFirst_below (h : ∀ name, (enter name).Below (enter' name)) :
    ∀ ps : List Pattern, (leadsFirst enter ps).Below (leadsFirst enter' ps)
  | [] => .refl _
  | p :: ps => by
    have hp := leads_below h p
    have hps := leadsFirst_below h ps
    rw [leadsFirst, leadsFirst]
    cases ha : p.leads enter with
    | no => exact Leads.no_below _
    | yes =>
      rw [hp.2 ha]
      exact .refl _
    | unknown =>
      cases hb : p.leads enter' with
      | no => exact absurd hb (hp.1 (by simp [ha]))
      | yes => exact ⟨fun _ => by simp, fun _ => rfl⟩
      | unknown => exact hps

end

mutual

/-- A pattern that opens a rule leads into it, if the detector passes on the terms before. -/
theorem leads_of_opens {skip : Pattern → Prop} {name : String}
    (pass : ∀ t : Pattern, skip t → t.leads enter ≠ .no) (yes : enter name = .yes) :
    ∀ p : Pattern, p.opens skip name → p.leads enter = .yes
  | .apply rule, h => (show rule = name from h) ▸ yes
  | .choice alts, h => leadsAny_of_opens pass yes alts h
  | .seq ps, h => leadsFirst_of_opens pass yes ps h
  | .scope _ ps, h => leadsFirst_of_opens pass yes ps h
  | .leftrec _ _, _ => rfl
  | .opt p, h => if_pos (leads_of_opens pass yes p h)
  | .star p, h => if_pos (leads_of_opens pass yes p h)
  | .not p, h => if_pos (leads_of_opens pass yes p h)
  | .plus p, h => leads_of_opens pass yes p h
  | .label p _, h => leads_of_opens pass yes p h
  | .capture p, h => leads_of_opens pass yes p h
  | .paren p, h => leads_of_opens pass yes p h
  | .memo p _, h => leads_of_opens pass yes p h

theorem leadsAny_of_opens {skip : Pattern → Prop} {name : String}
    (pass : ∀ t : Pattern, skip t → t.leads enter ≠ .no) (yes : enter name = .yes) :
    ∀ ps : List Pattern, opensAny skip name ps → leadsAny enter ps = .yes
  | p :: ps, h => by
    rw [leadsAny]
    split
    · rfl
    · next hno =>
      rcases h with h | h
      · exact absurd (by simp [leads_of_opens pass yes p h]) hno
      · exact leadsAny_of_opens pass yes ps h

theorem leadsFirst_of_opens {skip : Pattern → Prop} {name : String}
    (pass : ∀ t : Pattern, skip t → t.leads enter ≠ .no) (yes : enter name = .yes) :
    ∀ ps : List Pattern, opensTerms skip name ps → leadsFirst enter ps = .yes
  | p :: ps, h => by
    rw [leadsFirst]
    rcases h with h | ⟨hskip, h⟩
    · rw [leads_of_opens pass yes p h]
    · cases hp : p.leads enter with
      | no => exact absurd hp (pass p hskip)
      | yes => rfl
      | unknown => exact leadsFirst_of_opens pass yes ps h

end

end Pattern

namespace Bodies

variable {bodies : Bodies} {target : String} {path path' : List String}

/-- What the detector says of a rule that is applied. -/
def enter (bodies : Bodies) (target : String) (path : List String) (name : String) : Leads :=
  if name = target then .yes
  else
    match bodies.body? name with
    | none => .no
    | some body =>
      if path.contains name = false then bodies.leads target (name :: path) body else .no

theorem leads_eq (bodies : Bodies) (target : String) (path : List String) (p : Pattern) :
    bodies.leads target path p = p.leads (bodies.enter target path) := by
  rw [Bodies.leads]
  congr 1
  funext name
  rw [enter]
  split
  · rfl
  · split <;> next h => simp [h]

/-- Fewer rules on the path leave more to be said. -/
theorem leads_antitone {path path' : List String} (sub : path ⊆ path') (p : Pattern) :
    (bodies.leads target path' p).Below (bodies.leads target path p) := by
  rw [leads_eq, leads_eq]
  refine Pattern.leads_below (fun name => ?_) p
  rw [enter, enter]
  split
  · exact .refl _
  · cases hbody : bodies.body? name with
    | none => exact .refl _
    | some body =>
      by_cases fresh' : path'.contains name = false
      · have fresh : path.contains name = false := by
          simp only [List.contains_eq_mem, decide_eq_false_iff_not] at fresh' ⊢
          exact fun h => fresh' (sub h)
        have shrinks := offPath_cons_lt hbody fresh'
        simp only [if_pos fresh', if_pos fresh]
        exact leads_antitone (List.cons_subset_cons name sub) body
      · simp only [if_neg fresh']
        exact Leads.no_below _
termination_by bodies.offPath path'

/-- The detector, on its way with the rules on `path`, follows the step from one rule to another that
its body applies: it passes on the terms before, for it takes none of them to consume input. -/
def Follows (bodies : Bodies) (target : String) (path : List String) (caller callee : String) :
    Prop :=
  ∃ body, bodies.body? caller = some body ∧
    body.opens (fun t => bodies.leads target path t ≠ .no) callee

/-- A way from a rule to the target through the rules of a list, of steps in `R`. -/
inductive Way (R : String → String → Prop) (target : String) : String → List String → Prop where
  | last {x} (h : R x target) : Way R target x []
  | next {x y l} (h : R x y) (rest : Way R target y l) : Way R target x (y :: l)

section Way

variable {R : String → String → Prop} {x : String} {l : List String}

theorem way_of_steps (h : ∀ a b, [a, b] <:+: x :: (l ++ [target]) → R a b) :
    Way R target x l := by
  induction l generalizing x with
  | nil => exact .last (h x target (List.infix_refl _))
  | cons y l ih =>
    refine .next (h x y ⟨[], l ++ [target], rfl⟩) (ih fun a b hab => h a b ?_)
    exact hab.trans (List.suffix_cons x _).isInfix

/-- From a rule on a way, the rest of the way leads to the target. -/
theorem Way.rest (h : Way R target x l) {y : String} (hy : y ∈ x :: l) :
    ∃ l', Way R target y l' ∧ y :: l' <:+ x :: l := by
  induction h with
  | @last x h =>
    obtain rfl := List.mem_singleton.1 hy
    exact ⟨[], .last h, List.suffix_refl _⟩
  | @next x z l step rest ih =>
    rcases List.mem_cons.1 hy with rfl | hy
    · exact ⟨z :: l, .next step rest, List.suffix_refl _⟩
    · obtain ⟨l', way, suffix⟩ := ih hy
      exact ⟨l', way, suffix.trans (List.suffix_cons x _)⟩

/-- If there is a way, there is one on which no rule comes twice. -/
theorem Way.simple (h : Way R target x l) :
    ∃ l', Way R target x l' ∧ (x :: l').Nodup ∧ l' ⊆ l := by
  induction h with
  | last h => exact ⟨[], .last h, by simp, List.nil_subset _⟩
  | @next x y l step _ ih =>
    obtain ⟨l', way, nodup, sub⟩ := ih
    by_cases hx : x ∈ y :: l'
    · obtain ⟨l'', way', suffix⟩ := way.rest hx
      refine ⟨l'', way', nodup.sublist suffix.sublist, fun z hz => ?_⟩
      have hz' : z ∈ y :: l' := suffix.subset (.tail _ hz)
      exact List.cons_subset_cons y sub hz'
    · exact ⟨y :: l', .next step way, List.nodup_cons.2 ⟨hx, nodup⟩, List.cons_subset_cons y sub⟩

end Way

theorem leads_of_follows {all : List String} {x y : String} (onPath : path ⊆ all)
    (follows : bodies.Follows target all x y) {body : Pattern}
    (found : bodies.body? x = some body) (yes : bodies.enter target path y = .yes) :
    bodies.leads target path body = .yes := by
  obtain ⟨body', found', opens⟩ := follows
  cases found.symm.trans found'
  rw [leads_eq]
  refine Pattern.leads_of_opens (fun t ht => ?_) yes body opens
  rw [← leads_eq]
  exact (leads_antitone onPath t).1 ht

/-- If the detector follows all steps of a way back to the target, it leads there. -/
theorem leads_of_way {all : List String} {x : String} {l : List String}
    (way : Way (bodies.Follows target all) target x l) (nodup : (x :: l).Nodup) (sub : l ⊆ all)
    (onPath : path ⊆ all) (offPath : ∀ y ∈ l, y ∉ path) {body : Pattern}
    (found : bodies.body? x = some body) : bodies.leads target path body = .yes := by
  induction way generalizing path body with
  | last follows => exact leads_of_follows onPath follows found (if_pos rfl)
  | @next x y l follows rest ih =>
    refine leads_of_follows onPath follows found ?_
    rw [enter]
    split
    · rfl
    · obtain ⟨next, hnext⟩ : ∃ next, bodies.body? y = some next := by
        cases rest with
        | last h | next h _ =>
          obtain ⟨next, hnext, -⟩ := h
          exact ⟨next, hnext⟩
      have fresh : path.contains y = false := by simpa using offPath y (.head _)
      obtain ⟨-, nodup⟩ := List.nodup_cons.1 nodup
      obtain ⟨hy, hl⟩ := List.cons_subset.1 sub
      simp only [hnext, if_pos fresh]
      refine ih nodup hl (List.cons_subset.2 ⟨hy, onPath⟩) (fun z hz hmem => ?_) hnext
      rcases List.mem_cons.1 hmem with rfl | hmem
      · exact (List.nodup_cons.1 nodup).1 hz
      · exact offPath z (.tail _ hz) hmem

/-- If the detector follows all steps of a way from a rule back to it, it finds the rule to be
left-recursive. -/
theorem isLeftRecursive_of_way {rule : String} {names l : List String} {body : Pattern}
    (found : bodies.body? rule = some body)
    (way : Way (bodies.Follows rule (rule :: names)) rule rule l) (sub : l ⊆ names) :
    bodies.isLeftRecursive rule body = true := by
  obtain ⟨l', way, nodup, sub'⟩ := way.simple
  have hyes : bodies.leads rule [rule] body = .yes := by
    refine leads_of_way way nodup (fun y hy => .tail _ (sub (sub' hy)))
      (fun y hy => List.mem_singleton.1 hy ▸ .head _) (fun y hy hmem => ?_) found
    rw [List.mem_singleton.1 hmem] at hy
    exact (List.nodup_cons.1 nodup).1 hy
  rw [isLeftRecursive, hyes]
  rfl

/-- If the detector follows all steps from a rule through others back to it, it finds the rule to be
left-recursive. -/
theorem isLeftRecursive_of_follows {rule : String} {names : List String} {body : Pattern}
    (found : bodies.body? rule = some body)
    (follows : ∀ x y, [x, y] <:+: rule :: (names ++ [rule]) →
      bodies.Follows rule (rule :: names) x y) : bodies.isLeftRecursive rule body = true :=
  isLeftRecursive_of_way found (way_of_steps follows) (List.Subset.refl _)

end Bodies

namespace Pattern

variable {empty : String → Prop} {name : String}

/-! ## Passes that change no step -/

theorem nullable_of_labelTerms {ps : List Pattern} {position : Nat}
    (h : nullableAll empty (labelTerms position ps)) : nullableAll empty ps := by
  induction ps generalizing position with
  | nil => trivial
  | cons p ps ih =>
    obtain ⟨hp, hps⟩ := h
    refine ⟨?_, ih hps⟩
    split at hp <;> exact hp

theorem opensTerms_of_labelTerms {ps : List Pattern} {position : Nat}
    (h : opensTerms (nullable empty) name (labelTerms position ps)) :
    opensTerms (nullable empty) name ps := by
  induction ps generalizing position with
  | nil => exact h
  | cons p ps ih =>
    rcases h with hp | ⟨hp, hps⟩
    · refine .inl ?_
      split at hp <;> exact hp
    · refine .inr ⟨?_, ih hps⟩
      split at hp <;> exact hp

theorem nullable_of_positionalNode {rule : String} (q : Pattern)
    (h : (positionalNode rule q).nullable empty) : q.nullable empty := by
  unfold positionalNode at h
  split at h
  · split at h
    · exact nullable_of_labelTerms h
    · exact h
  · exact nullable_of_labelTerms h
  · exact h

theorem opens_of_positionalNode {rule : String} (q : Pattern)
    (h : (positionalNode rule q).opens (nullable empty) name) :
    q.opens (nullable empty) name := by
  unfold positionalNode at h
  split at h
  · split at h
    · exact opensTerms_of_labelTerms h
    · exact h
  · exact opensTerms_of_labelTerms h
  · exact h

theorem nullable_of_simplifyNode (q : Pattern) (h : (simplifyNode q).nullable empty) :
    q.nullable empty := by
  unfold simplifyNode at h
  split at h
  · exact .inl h
  · exact ⟨h, trivial⟩
  · trivial
  · exact h
  · exact h

theorem opens_of_simplifyNode (q : Pattern)
    (h : (simplifyNode q).opens (nullable empty) name) : q.opens (nullable empty) name := by
  unfold simplifyNode at h
  split at h
  · exact .inl h
  · exact .inl h
  · exact h
  · exact h
  · exact h

theorem nullable_of_scopeAlternative {rule : String} (q : Pattern)
    (h : (scopeAlternative rule q).nullable empty) : q.nullable empty := by
  unfold scopeAlternative at h
  split at h
  · exact h
  · exact h
  · split at h
    · exact h.1
    · exact h

theorem opens_of_scopeAlternative {rule : String} (q : Pattern)
    (h : (scopeAlternative rule q).opens (nullable empty) name) : q.opens (nullable empty) name := by
  unfold scopeAlternative at h
  split at h
  · exact h
  · exact h
  · split at h
    · exact h.elim id fun none => none.2.elim
    · exact h

theorem nullableAny_of_map {f : Pattern → Pattern}
    (hf : ∀ q : Pattern, (f q).nullable empty → q.nullable empty) {ps : List Pattern}
    (h : nullableAny empty (ps.map f)) : nullableAny empty ps := by
  induction ps with
  | nil => exact h
  | cons p ps ih => exact h.imp (hf p) ih

theorem opensAny_of_map {f : Pattern → Pattern} {skip : Pattern → Prop}
    (hf : ∀ q : Pattern, (f q).opens skip name → q.opens skip name) {ps : List Pattern}
    (h : opensAny skip name (ps.map f)) : opensAny skip name ps := by
  induction ps with
  | nil => exact h
  | cons p ps ih => exact h.imp (hf p) ih

theorem nullable_of_scopeNode {rule : String} (q : Pattern)
    (h : (scopeNode rule q).nullable empty) : q.nullable empty := by
  unfold scopeNode at h
  split at h
  · split at h <;> exact h
  · exact nullableAny_of_map nullable_of_scopeAlternative h
  · exact h

theorem opens_of_scopeNode {rule : String} (q : Pattern)
    (h : (scopeNode rule q).opens (nullable empty) name) : q.opens (nullable empty) name := by
  unfold scopeNode at h
  split at h
  · split at h <;> exact h
  · exact opensAny_of_map opens_of_scopeAlternative h
  · exact h

/-- Scopes let no body open a rule that it did not open before. -/
theorem opens_of_insertScopes {rule : String} {body : Pattern}
    (h : (body.insertScopes rule).opens (nullable empty) name) :
    body.opens (nullable empty) name := by
  have rebuilt : (body.rebuild (scopeNode rule)).opens (nullable empty) name := by
    unfold insertScopes at h
    split at h
    · next heq => rwa [heq]
    · exact opens_of_scopeAlternative _ h
  exact opens_of_rebuild nullable_of_scopeNode opens_of_scopeNode body rebuilt

/-- Positional labels and simplification let no body open a rule that it did not open before. -/
theorem opens_of_finish {rule : String} {body : Pattern}
    (h : ((body.insertPositional rule).simplify).opens (nullable empty) name) :
    body.opens (nullable empty) name :=
  opens_of_rebuild nullable_of_positionalNode opens_of_positionalNode body
    (opens_of_rebuild nullable_of_simplifyNode opens_of_simplifyNode _ h)

end Pattern

end Pegboard
