import Mathlib.Data.List.Permutation
import Pegboard.Lint
import Pegboard.Proofs.Lint.Gap
import Pegboard.Proofs.Normalize.Source

/-!
# Shadowed alternatives can be removed

What is reported as shadowed may be taken out of its choice: the rules normalize as before, and
every match accepts or rejects as before, with the same value and at the same offset.

Normalization looks at the rules together to find the left-recursive ones and those that may be
memoized, and at one body at a time.  Neither the one nor the other takes notice of the alternative,
so the two grammars are the same but for the gap.  What the gap means for a match is the matter of
`Match.Run.thinned`.

## Main Definitions

* `Bodies.Paired`: two lists of bodies have the same names, and bodies that are related.
* `RuleSet.Drops`: one alternative that is reported as shadowed is taken out of the body of a rule.

## Main Results

* `Bodies.Paired.leftRecursive`, `Bodies.Paired.mem_memoizable`: paired bodies are analysed alike.
* `RuleSet.normalize_of_drops`: the grammar with the gap.
* `RuleSet.lint_shadowed`: what is reported can be taken out, and a match is the same without it.
-/

namespace Pegboard

open Relation (ReflGen)

namespace Bodies

variable {bodies bodies' : Bodies} {R R' : Pattern → Pattern → Prop}

/-! ## Bodies in pairs -/

/-- Two lists of bodies have the same names, and bodies that are related. -/
def Paired (R : Pattern → Pattern → Prop) (bodies bodies' : Bodies) : Prop :=
  List.Forall₂ (fun b b' => b'.1 = b.1 ∧ R b.2 b'.2) bodies bodies'

namespace Paired

theorem mapBodies (h : Paired R bodies bodies') {f f' : String → Pattern → Pattern}
    (change : ∀ rule p q, R p q → R' (f rule p) (f' rule q)) :
    Paired R' (bodies.mapBodies f) (bodies'.mapBodies f') := by
  induction h with
  | nil => exact .nil
  | @cons b b' _ _ pair _ ih =>
    refine .cons ⟨pair.1, ?_⟩ ih
    show R' (f b.1 b.2) (f' b'.1 b'.2)
    rw [pair.1]
    exact change b.1 b.2 b'.2 pair.2

theorem mono (h : Paired R bodies bodies') (weaken : ∀ p q, R p q → R' p q) :
    Paired R' bodies bodies' :=
  List.Forall₂.imp (fun b b' pair => ⟨pair.1, weaken b.2 b'.2 pair.2⟩) h

theorem names (h : Paired R bodies bodies') : bodies'.map (·.1) = bodies.map (·.1) := by
  induction h with
  | nil => rfl
  | cons pair _ ih => rw [List.map_cons, List.map_cons, pair.1, ih]

/-- Paired bodies are found under the same names. -/
theorem body? (h : Paired R bodies bodies') (name : String) :
    Option.Rel R (bodies.body? name) (bodies'.body? name) := by
  induction h with
  | nil => exact .none
  | @cons b b' _ _ pair _ ih =>
    rw [Bodies.body?, Bodies.body?, List.find?_cons, List.find?_cons, pair.1]
    cases b.1 == name with
    | true => exact .some pair.2
    | false => exact ih

/-- There is a body of a name for which something is so, if it is so for the paired body. -/
theorem exists_iff (h : Paired R bodies bodies') {P : Pattern → Prop}
    (same : ∀ p q, R p q → (P q ↔ P p)) (name : String) :
    (∃ b ∈ bodies', b.1 = name ∧ P b.2) ↔ ∃ b ∈ bodies, b.1 = name ∧ P b.2 := by
  induction h with
  | nil => rfl
  | cons pair _ ih =>
    simp only [List.exists_mem_cons_iff, pair.1, same _ _ pair.2, ih]

/-- Bodies that lead into the same rules have the same left-recursive rules. -/
theorem leftRecursive (h : Paired (Pattern.LeadsAlike fun _ => True) bodies bodies') :
    bodies'.leftRecursive = bodies.leftRecursive := by
  have filtered {bs bs' : Bodies} (hbs : Paired (Pattern.LeadsAlike fun _ => True) bs bs') :
      (bs'.filter fun b => bodies'.isLeftRecursive b.1 b.2).map (·.1)
        = (bs.filter fun b => bodies.isLeftRecursive b.1 b.2).map (·.1) := by
    induction hbs with
    | nil => rfl
    | @cons b b' _ _ pair _ ih =>
      have same : bodies'.isLeftRecursive b'.1 b'.2 = bodies.isLeftRecursive b.1 b.2 := by
        rw [isLeftRecursive, isLeftRecursive, pair.1]
        rw [leads_congr (fun name _ => h.body? name) pair.2]
      rw [List.filter_cons, List.filter_cons, same]
      split
      · rw [List.map_cons, List.map_cons, pair.1, ih]
      · exact ih
  exact filtered h

/-- In bodies that apply the same rules, the same rules apply each other. -/
theorem applies (h : Paired (fun p q => q.applied = p.applied) bodies bodies') :
    bodies'.Applies = bodies.Applies := by
  ext caller callee
  exact h.exists_iff (P := fun body => callee ∈ body.applied)
    (fun p q same => by rw [same]) caller

/-- Bodies that apply the same rules, and have free variables or not, may be memoized alike. -/
theorem mem_memoizable (h : Paired (fun p q => q.applied = p.applied ∧
      q.hasFreeVariables = p.hasFreeVariables) bodies bodies') (name : String) :
    name ∈ bodies'.memoizable ↔ name ∈ bodies.memoizable := by
  have free (last : String) : bodies'.HasFree last ↔ bodies.HasFree last :=
    h.exists_iff (P := fun body => body.hasFreeVariables = true)
      (fun p q same => by rw [same.2]) last
  have applies : bodies'.Applies = bodies.Applies := Paired.applies (h.mono fun _ _ same => same.1)
  simp only [mem_memoizable_iff, h.names, applies, free]

end Paired

end Bodies

/-! ## The passes over a body -/

namespace Pattern

variable {s : Shadowing} {p q : Pattern}

theorem hasFreeVariables_simplify (p : Pattern) :
    p.simplify.hasFreeVariables = p.hasFreeVariables := by
  rw [hasFreeVariables, hasFreeVariables, ← variableNames_skeleton, ← labels_skeleton,
    skeleton_simplify, variableNames_skeleton, labels_skeleton]

/-- Alternatives that never match are missing in the second of two bodies, and the analysis of what
may be memoized does not see it. -/
structure FinishedAlike (p q : Pattern) : Prop where
  thins : p.Thins q
  applied : q.applied = p.applied
  free : q.hasFreeVariables = p.hasFreeVariables

theorem FinishedAlike.refl (p : Pattern) : p.FinishedAlike p := ⟨p.thins_self, rfl, rfl⟩

/-- A body that has a gap as it is written has the same gap after the passes. -/
theorem Drops.finishBody (h : p.Drops s q) (recursive : List String) (rule : String) :
    (Bodies.finishBody recursive rule p).FinishedAlike (Bodies.finishBody recursive rule q) := by
  have wrapped : (Bodies.wrapLeftRecursive recursive rule p).Drops s
      (Bodies.wrapLeftRecursive recursive rule q) := by
    unfold Bodies.wrapLeftRecursive
    split
    · exact .leftrec h
    · exact h
  have labelled := wrapped.insertPositional rule
  refine ⟨labelled.thins, ?_, ?_⟩
  · rw [Bodies.finishBody, Bodies.finishBody, applied_simplify, applied_simplify,
      labelled.applied]
  · rw [Bodies.finishBody, Bodies.finishBody, hasFreeVariables_simplify,
      hasFreeVariables_simplify, labelled.hasFreeVariables]

theorem Thins.wrapMemo (h : p.Thins q) {memoizable memoizable' : List String} {rule : String}
    (same : rule ∈ memoizable' ↔ rule ∈ memoizable) :
    (Bodies.wrapMemo memoizable rule p).Thins (Bodies.wrapMemo memoizable' rule q) := by
  have contains : memoizable'.contains rule = memoizable.contains rule := by
    rw [Bool.eq_iff_iff, List.contains_iff_mem, List.contains_iff_mem, same]
  have wrapped : (if memoizable.contains rule then Pattern.memo p rule else p).Thins
      (if memoizable'.contains rule then .memo q rule else q) := by
    rw [contains]
    split
    · exact .memo h
    · exact h
  cases h with
  | leftrec h => exact .leftrec h
  | _ => exact wrapped

end Pattern

/-- Memoization does the same around alternatives that are missing. -/
theorem Bodies.Paired.memoize {bodies bodies' : Bodies}
    (h : Paired Pattern.FinishedAlike bodies bodies') :
    Paired Pattern.Thins bodies.memoize bodies'.memoize := by
  have analysed : Paired (fun p q => q.applied = p.applied ∧
      q.hasFreeVariables = p.hasFreeVariables) bodies bodies' :=
    h.mono fun _ _ alike => ⟨alike.applied, alike.free⟩
  exact h.mapBodies fun rule _ _ alike => alike.thins.wrapMemo (analysed.mem_memoizable rule)

/-! ## Rules without a shadowed alternative -/

/-- The second rule set is the first one without one alternative, somewhere in the body of a rule,
that is reported as shadowed. -/
inductive RuleSet.Drops (rule : Rule) (s : Shadowing) : RuleSet → RuleSet → Prop where
  | mk {before after body} (h : rule.body.Drops s body) :
      Drops rule s ⟨before ++ rule :: after⟩ ⟨before ++ { rule with body := body } :: after⟩

namespace RuleSet

variable {rs rs' : RuleSet} {options : NormalizeOptions} {g : Grammar} {rule : Rule}
  {s : Shadowing}

namespace Drops

/-- The bodies are the same, but for the gap in one of them. -/
theorem definitions (h : rs.Drops rule s rs') :
    Bodies.Paired (ReflGen (Pattern.Drops s)) rs.definitions rs'.definitions := by
  obtain @⟨before, after, body, h⟩ := h
  show List.Forall₂ _ _ _
  rw [RuleSet.definitions, RuleSet.definitions, List.map_append, List.map_append, List.map_cons,
    List.map_cons]
  induction before with
  | nil => exact .cons ⟨rfl, .single h⟩ (List.forall₂_same.2 fun _ _ => ⟨rfl, .refl⟩)
  | cons r before ih => exact .cons ⟨rfl, .refl⟩ ih

theorem scopedBodies (h : rs.Drops rule s rs') :
    Bodies.Paired (ReflGen (Pattern.Drops s)) rs.scopedBodies rs'.scopedBodies := by
  refine h.definitions.mapBodies fun rule p q gap => ?_
  cases gap with
  | refl => exact .refl
  | single gap => exact .single (gap.insertScopes rule)

/-- The same rules are left-recursive. -/
theorem leftRecursive (h : rs.Drops rule s rs') :
    rs'.scopedBodies.leftRecursive = rs.scopedBodies.leftRecursive := by
  refine Bodies.Paired.leftRecursive (h.scopedBodies.mono fun p q gap => ?_)
  cases gap with
  | refl => exact Pattern.leadsAlike_of_applied fun _ _ => trivial
  | single gap => exact gap.leadsAlike

theorem finished (h : rs.Drops rule s rs') :
    Bodies.Paired Pattern.FinishedAlike rs.finished rs'.finished := by
  rw [RuleSet.finished, RuleSet.finished, h.leftRecursive]
  refine h.scopedBodies.mapBodies fun rule p q gap => ?_
  cases gap with
  | refl => exact .refl _
  | single gap => exact gap.finishBody _ rule

theorem names (h : rs.Drops rule s rs') : rs'.names = rs.names := by
  cases h
  simp [RuleSet.names]

/-- The rules are still valid. -/
theorem validate (h : rs.Drops rule s rs') (valid : rs.validate = .ok ()) :
    rs'.validate = .ok () := by
  obtain ⟨rules, nodup, resolved⟩ := validate_eq_ok.1 valid
  have applies : Bodies.Applies rs'.definitions = Bodies.Applies rs.definitions := by
    refine Bodies.Paired.applies (h.definitions.mono fun p q gap => ?_)
    cases gap with
    | refl => rfl
    | single gap => exact gap.applied
  rw [validate_eq_ok, h.names]
  refine ⟨fun none => ?_, nodup, fun r' hr' callee hcallee => ?_⟩
  · have names := h.names
    rw [RuleSet.names, none] at names
    exact rules (List.map_eq_nil_iff.1 names.symm)
  · have step : Bodies.Applies rs'.definitions r'.name callee :=
      ⟨_, List.mem_map_of_mem hr', rfl, hcallee⟩
    rw [applies] at step
    obtain ⟨b, hb, -, applied⟩ := step
    obtain ⟨r, hr, rfl⟩ := List.mem_map.1 hb
    exact resolved r hr callee applied

end Drops

/-- Rules without a shadowed alternative normalize to the grammar without it. -/
theorem normalize_of_drops (normalized : rs.normalize options = .ok g)
    (h : rs.Drops rule s rs') : ∃ g', rs'.normalize options = .ok g' ∧
      Match.GrammarThins g g' ∧ g'.start = g.start := by
  obtain ⟨valid, recursive, rfl⟩ := normalize_eq_ok.1 normalized
  have paired : Bodies.Paired Pattern.Thins
      (if options.memoize then rs.finished.memoize else rs.finished)
      (if options.memoize then rs'.finished.memoize else rs'.finished) := by
    split
    · exact h.finished.memoize
    · exact h.finished.mono fun _ _ alike => alike.thins
  refine ⟨_, normalize_eq_ok.2 ⟨h.validate valid, ?_, rfl⟩, ⟨rfl, paired.body?⟩, ?_⟩
  · rw [h.leftRecursive]
    exact recursive
  · rw [Grammar.start, Grammar.start, ← List.head?_map, ← List.head?_map, paired.names]

/-- The warnings about shadowed alternatives are about what can be taken out. -/
theorem mem_lint_shadowed {d : Diagnostic} : d ∈ rs.lint ∧ d.code = .shadowedAlternative ↔
    ∃ rule s rs', rs.Drops rule s rs' ∧ d = s.diagnostic rule := by
  constructor
  · rintro ⟨reported, code⟩
    rcases List.mem_append.1 reported with shadowed | unused
    · obtain ⟨rule, hrule, hd⟩ := List.mem_flatMap.1 shadowed
      obtain ⟨s, hs, rfl⟩ := List.mem_map.1 hd
      obtain ⟨body, drops⟩ := Pattern.mem_shadowings_iff.1 hs
      obtain ⟨before, after, hrules⟩ := List.append_of_mem hrule
      obtain ⟨rules⟩ := rs
      obtain rfl : rules = before ++ rule :: after := hrules
      exact ⟨rule, s, _, .mk drops, rfl⟩
    · obtain ⟨u, -, rfl⟩ := List.mem_map.1 unused
      contradiction
  · rintro ⟨rule, s, rs', ⟨drops⟩, rfl⟩
    refine ⟨List.mem_append_left _ (List.mem_flatMap.2 ⟨rule, ?_, ?_⟩), rfl⟩
    · exact List.mem_append_right _ (.head _)
    · exact List.mem_map_of_mem (Pattern.mem_shadowings_iff.2 ⟨_, drops⟩)

/-- **What is reported as shadowed can be taken out.**  Let a rule set normalize.  The warnings about
shadowed alternatives are exactly those about an alternative, in a choice at any depth, that `Drops`
takes out.  The rules without it normalize under the same options.  Wherever a match with the grammar
has a result, so has the match with the grammar that this gives: both accept the same value up to
the same offset, or both reject at the same offset. -/
theorem lint_shadowed (normalized : rs.normalize options = .ok g) :
    (∀ d : Diagnostic, d ∈ rs.lint ∧ d.code = .shadowedAlternative ↔
      ∃ rule s rs', rs.Drops rule s rs' ∧ d = s.diagnostic rule) ∧
    ∀ rule s rs', rs.Drops rule s rs' → ∃ g', rs'.normalize options = .ok g' ∧
      ∀ (n : Nat) (source : String) (input : Array Char) (result : MatchResult),
        g.run n source input = some result →
          (∃ m other, g'.run m source input = some other) ∧
          ∀ m other, g'.run m source input = some other → result.SameButMessage other := by
  refine ⟨fun d => mem_lint_shadowed, fun rule s rs' drops => ?_⟩
  obtain ⟨g', normalized', thins, start⟩ := normalize_of_drops normalized drops
  exact ⟨g', normalized', fun n source input result run => Grammar.run_thinned thins start run⟩

end RuleSet

/-! ## A sign that is tried too late -/

/-- The rule `c = 'a' (signs) 'b'`. -/
def comparedRule (signs : List Pattern) : Rule :=
  ⟨"c", .choice [.seq [.lit "a", .paren (.choice signs), .lit "b"]], .origin⟩

/-- The signs `'<' | '<='`. -/
def comparedSigns : List Pattern := [.seq [.lit "<"], .seq [.lit "<="]]

/-- The grammar of the rule with both signs. -/
def comparedGrammar : Grammar :=
  ⟨[("c", .memo (.seq [.lit "a", .choice [.lit "<", .lit "<="], .lit "b"]) "c")], []⟩

/-- The longer sign is reported.  With it and without it, `a<=b` is rejected behind the shorter
one. -/
theorem lint_shadowed_compared :
    RuleSet.normalize ⟨[comparedRule comparedSigns]⟩ ⟨true, []⟩ = .ok comparedGrammar ∧
      comparedGrammar.run 9 "<stdin>" #['a', '<', '=', 'b']
        = some (.rejected "<stdin>:1 Unexpected \"=\" at column 3" 2) ∧
      Shadowing.diagnostic (comparedRule comparedSigns) ⟨"<", "<="⟩
        ∈ RuleSet.lint ⟨[comparedRule comparedSigns]⟩ ∧
      ∃ g', RuleSet.normalize ⟨[comparedRule [.seq [.lit "<"]]]⟩ ⟨true, []⟩ = .ok g' ∧
        ∃ m message, g'.run m "<stdin>" #['a', '<', '=', 'b'] = some (.rejected message 2) := by
  have normalized : RuleSet.normalize ⟨[comparedRule comparedSigns]⟩ ⟨true, []⟩
      = .ok comparedGrammar := by cbv
  have ended : comparedGrammar.run 9 "<stdin>" #['a', '<', '=', 'b']
      = some (.rejected "<stdin>:1 Unexpected \"=\" at column 3" 2) := by cbv
  have gap : (comparedRule comparedSigns).body.Drops ⟨"<", "<="⟩
      (comparedRule [.seq [.lit "<"]]).body := by
    refine @Pattern.Drops.choice _ [] [] _ _ ?_
    refine @Pattern.Drops.seq _ [.lit "a"] [.lit "b"] _ _ (.paren ?_)
    exact @Pattern.Drops.here _ [.seq [.lit "<"]] [] (.seq [.lit "<="]) (by cbv)
  have drops : RuleSet.Drops (comparedRule comparedSigns) ⟨"<", "<="⟩
      ⟨[comparedRule comparedSigns]⟩ ⟨[comparedRule [.seq [.lit "<"]]]⟩ :=
    @RuleSet.Drops.mk _ _ [] [] _ gap
  obtain ⟨reports, pruned⟩ := RuleSet.lint_shadowed normalized
  have reported := (reports _).2 ⟨_, _, _, drops, rfl⟩
  obtain ⟨g', normalized', same⟩ := pruned _ _ _ drops
  obtain ⟨⟨m, other, hother⟩, alike⟩ := same 9 "<stdin>" _ _ ended
  refine ⟨normalized, ended, reported.1, g', normalized', m, ?_⟩
  have rejected := alike m other hother
  cases other with
  | accepted => exact rejected.elim
  | rejected message pos => exact ⟨message, by rw [hother, show pos = 2 from rejected]⟩

end Pegboard
