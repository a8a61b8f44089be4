import Mathlib.Data.List.Permutation
import Pegboard.Lint
import Pegboard.Proofs.Match.Agreement
import Pegboard.Proofs.Normalize.Analyses
import Pegboard.Proofs.Normalize.Source

/-!
# Unused rules can be removed

A rule that no rule of another name applies, and where matching does not start, is reported as
unused.  Such a rule may be removed: what is left normalizes to the grammar without its body, and
every match has the result that it had before.

The passes over one body do not see other rules.  The two analyses that see them all, and the
evaluation of patterns, go from a body to the bodies of the rules that it applies.  From a rule that
stays they never come to one that is applied by itself alone.

## Main Definitions

* `Bodies.Unapplied`: no body of another name applies a rule.
* `RuleSet.without`, `Grammar.without`: all rules but those of a name.

## Main Results

* `RuleSet.idle_of_reported`: what is reported as unused is applied by itself alone.
* `RuleSet.normalize_without`: removing an unused rule.
-/

namespace Pegboard

open Relation (ReflTransGen)

/-! ## Rules without those of a name -/

namespace Bodies

variable {bodies : Bodies} {name other : String}

/-- All bodies but those of a name. -/
def without (bodies : Bodies) (name : String) : Bodies := bodies.filter (·.1 != name)

/-- No rule of another name applies the rules of this name. -/
def Unapplied (bodies : Bodies) (name : String) : Prop :=
  ∀ b ∈ bodies, b.1 ≠ name → name ∉ b.2.applied

theorem mem_without {b : String × Pattern} :
    b ∈ bodies.without name ↔ b ∈ bodies ∧ b.1 ≠ name := by
  rw [without, List.mem_filter, bne_iff_ne]

theorem body?_without (bodies : Bodies) (h : other ≠ name) :
    (bodies.without name).body? other = bodies.body? other := by
  rw [body?, without, List.find?_filter, body?]
  congr 2
  funext b
  by_cases hb : b.1 = other <;> simp [hb, h]

theorem without_mapBodies (f : String → Pattern → Pattern) (bodies : Bodies) (name : String) :
    (bodies.mapBodies f).without name = (bodies.without name).mapBodies f := by
  rw [without, mapBodies, List.filter_map]
  rfl

/-- Bodies that are changed by two functions are the same if the functions do the same to each. -/
theorem mapBodies_congr {f f' : String → Pattern → Pattern}
    (h : ∀ b ∈ bodies, f b.1 b.2 = f' b.1 b.2) : bodies.mapBodies f = bodies.mapBodies f' :=
  List.map_congr_left fun b hb => congrArg (Prod.mk b.1) (h b hb)

/-- Whether another rule is left-recursive does not depend on a rule that is not applied. -/
theorem mem_leftRecursive_without (unapplied : bodies.Unapplied name) (h : other ≠ name) :
    other ∈ (bodies.without name).leftRecursive ↔ other ∈ bodies.leftRecursive := by
  have inside {b : String × Pattern} (hb : b ∈ bodies) (hname : b.1 ≠ name) :
      b.2.LeadsAlike (· ≠ name) b.2 :=
    Pattern.leadsAlike_of_applied fun callee hcallee heq => unapplied b hb hname (heq ▸ hcallee)
  have alike (callee : String) (hcallee : callee ≠ name) :
      Option.Rel (Pattern.LeadsAlike (· ≠ name)) ((bodies.without name).body? callee)
        (bodies.body? callee) := by
    rw [body?_without bodies hcallee]
    cases found : bodies.body? callee with
    | none => exact .none
    | some body => exact .some (inside (mem_of_body? found) hcallee)
  have same {b : String × Pattern} (hb : b ∈ bodies) (hname : b.1 ≠ name) :
      (bodies.without name).isLeftRecursive b.1 b.2 = bodies.isLeftRecursive b.1 b.2 := by
    rw [isLeftRecursive, isLeftRecursive, leads_congr alike (inside hb hname)]
  simp only [leftRecursive, List.mem_map, List.mem_filter, mem_without]
  constructor
  · rintro ⟨b, ⟨⟨hb, hname⟩, recursive⟩, rfl⟩
    exact ⟨b, ⟨hb, same hb hname ▸ recursive⟩, rfl⟩
  · rintro ⟨b, ⟨hb, recursive⟩, rfl⟩
    exact ⟨b, ⟨⟨hb, h⟩, (same hb h).symm ▸ recursive⟩, rfl⟩

/-- From another rule, applications lead only to rules that stay. -/
theorem applies_without (unapplied : bodies.Unapplied name) {last : String} (h : other ≠ name)
    (steps : ReflTransGen bodies.Applies other last) :
    last ≠ name ∧ ReflTransGen (bodies.without name).Applies other last := by
  induction steps with
  | refl => exact ⟨h, .refl⟩
  | tail _ step ih =>
    obtain ⟨b, hb, rfl, hcallee⟩ := step
    obtain ⟨hname, steps⟩ := ih
    refine ⟨fun heq => unapplied b hb hname (heq ▸ hcallee), steps.tail ?_⟩
    exact ⟨b, mem_without.2 ⟨hb, hname⟩, rfl, hcallee⟩

/-- Whether another rule may be memoized does not depend on a rule that is not applied. -/
theorem mem_memoizable_without (unapplied : bodies.Unapplied name) (h : other ≠ name) :
    other ∈ (bodies.without name).memoizable ↔ other ∈ bodies.memoizable := by
  have named : other ∈ (bodies.without name).map (·.1) ↔ other ∈ bodies.map (·.1) := by
    simp only [List.mem_map, mem_without]
    exact exists_congr fun b => and_congr_left fun hb => and_iff_left (hb ▸ h)
  have free {last : String} (hlast : last ≠ name) :
      (bodies.without name).HasFree last ↔ bodies.HasFree last := by
    constructor
    · rintro ⟨b, hb, rfl, hfree⟩
      exact ⟨b, (mem_without.1 hb).1, rfl, hfree⟩
    · rintro ⟨b, hb, rfl, hfree⟩
      exact ⟨b, mem_without.2 ⟨hb, hlast⟩, rfl, hfree⟩
  have fewer : (bodies.without name).Applies ≤ bodies.Applies := by
    rintro caller callee ⟨b, hb, hstep⟩
    exact ⟨b, (mem_without.1 hb).1, hstep⟩
  have steps {last : String} (reached : ReflTransGen (bodies.without name).Applies other last) :
      ReflTransGen bodies.Applies other last := ReflTransGen.mono fewer _ _ reached
  rw [mem_memoizable_iff, mem_memoizable_iff, named]
  refine and_congr_right fun _ => ⟨fun none last reached => ?_, fun none last reached => ?_⟩
  · obtain ⟨hlast, reached⟩ := applies_without unapplied h reached
    exact fun hfree => none last reached ((free hlast).2 hfree)
  · obtain ⟨hlast, -⟩ := applies_without unapplied h (steps reached)
    exact fun hfree => none last (steps reached) ((free hlast).1 hfree)

/-- Memoization does the same to the other bodies without a rule that is not applied. -/
theorem memoize_without (unapplied : bodies.Unapplied name) :
    (bodies.without name).memoize = bodies.memoize.without name := by
  rw [memoize, memoize, without_mapBodies]
  refine mapBodies_congr fun b hb => ?_
  have same : (bodies.without name).memoizable.contains b.1 = bodies.memoizable.contains b.1 := by
    rw [Bool.eq_iff_iff, List.contains_iff_mem, List.contains_iff_mem,
      mem_memoizable_without unapplied (mem_without.1 hb).2]
  unfold wrapMemo
  rw [same]

end Bodies

/-- The grammar without the rules of a name. -/
def Grammar.without (g : Grammar) (name : String) : Grammar :=
  ⟨g.bodies.without name, g.leftAssoc⟩

/-- A grammar and the one without a rule that is not applied agree on the other rules. -/
theorem Grammar.agreeOn_without (g : Grammar) {name : String}
    (unapplied : g.bodies.Unapplied name) :
    Match.AgreeOn (· ≠ name) g (g.without name) where
  assoc := rfl
  body? _ h := g.bodies.body?_without h
  inside other body h found _ applied heq :=
    unapplied (other, body) (Bodies.mem_of_body? found) h (heq ▸ applied)

namespace RuleSet

variable {rs : RuleSet} {options : NormalizeOptions} {g : Grammar} {name : String}

/-- The rules but those of a name. -/
def without (rs : RuleSet) (name : String) : RuleSet := ⟨rs.rules.filter (·.name != name)⟩

theorem definitions_without (rs : RuleSet) (name : String) :
    (rs.without name).definitions = Bodies.without rs.definitions name := by
  rw [without, definitions, definitions, Bodies.without, List.filter_map]
  rfl

theorem scopedBodies_without (rs : RuleSet) (name : String) :
    (rs.without name).scopedBodies = rs.scopedBodies.without name := by
  rw [scopedBodies, definitions_without, scopedBodies, Bodies.without_mapBodies]

/-- Matching does not start at the rules of a name, and no rule of another name applies them. -/
structure Idle (rs : RuleSet) (name : String) : Prop where
  notFirst : ∀ first ∈ rs.rules.head?, first.name ≠ name
  unapplied : ∀ r ∈ rs.rules, r.name ≠ name → name ∉ r.body.applied

theorem mem_rules_without {r : Rule} :
    r ∈ (rs.without name).rules ↔ r ∈ rs.rules ∧ r.name ≠ name := by
  rw [without, List.mem_filter, bne_iff_ne]

/-- The warning that a rule is unused is about one name. -/
theorem name_of_unusedDiagnostic {r u : Rule} (h : r.unusedDiagnostic = u.unusedDiagnostic) :
    r.name = u.name := by
  have label := Option.some.inj (congrArg Diagnostic.label h)
  exact (String.append_right_inj _).1 ((String.append_left_inj _).1 label)

/-- What is reported as unused is applied by itself alone, and it is not where matching starts. -/
theorem idle_of_reported (nodup : rs.names.Nodup) {u : Rule}
    (reported : u.unusedDiagnostic ∈ rs.lint) : rs.Idle u.name := by
  rcases List.mem_append.1 reported with shadowed | unused
  · obtain ⟨r, -, hr⟩ := List.mem_flatMap.1 shadowed
    obtain ⟨s, -, hs⟩ := List.mem_map.1 hr
    have code : Code.shadowedAlternative = .unusedRule := congrArg Diagnostic.code hs
    contradiction
  · obtain ⟨v, hv, same⟩ := List.mem_map.1 unused
    rw [← name_of_unusedDiagnostic same]
    obtain ⟨later, notUsed⟩ := List.mem_filter.1 hv
    have notUsed : v.name ∉ rs.usedNames := by simpa using notUsed
    constructor
    · intro first hfirst heq
      cases hrules : rs.rules with
      | nil => simp [hrules] at hfirst
      | cons r rest =>
        rw [hrules] at hfirst later
        obtain rfl : r = first := by simpa using hfirst
        rw [RuleSet.names, hrules, List.map_cons, List.nodup_cons] at nodup
        exact nodup.1 (heq ▸ List.mem_map_of_mem later)
    · intro r hr hname applied
      refine notUsed (List.mem_flatMap.2 ⟨r, hr, List.mem_filter.2 ⟨applied, ?_⟩⟩)
      rw [bne_iff_ne]
      exact hname.symm

/-- Rules are valid without those that are idle. -/
theorem validate_without (valid : rs.validate = .ok ()) (idle : rs.Idle name) :
    (rs.without name).validate = .ok () := by
  obtain ⟨rules, nodup, resolved⟩ := validate_eq_ok.1 valid
  refine validate_eq_ok.2 ⟨?_, ?_, fun r hr callee hcallee => ?_⟩
  · obtain ⟨first, rest, hrules⟩ := List.exists_cons_of_ne_nil rules
    have stays : first ∈ (rs.without name).rules :=
      mem_rules_without.2 ⟨hrules ▸ .head _, idle.notFirst first (by rw [hrules]; rfl)⟩
    exact List.ne_nil_of_mem stays
  · exact nodup.sublist (List.filter_sublist.map _)
  · obtain ⟨hr, hname⟩ := mem_rules_without.1 hr
    refine (resolved r hr callee hcallee).imp_left fun defined => ?_
    obtain ⟨r', hr', rfl⟩ := List.mem_map.1 defined
    have other : r'.name ≠ name := fun heq => idle.unapplied r hr hname (heq ▸ hcallee)
    exact List.mem_map_of_mem (mem_rules_without.2 ⟨hr', other⟩)

theorem unapplied_scopedBodies (idle : rs.Idle name) : rs.scopedBodies.Unapplied name := by
  intro b hb hname applied
  obtain ⟨body, hbody, hscopes⟩ := Bodies.mem_mapBodies.1 hb
  obtain ⟨r, hr, hrule⟩ := List.mem_map.1 hbody
  obtain ⟨hrname, rfl⟩ := Prod.mk.inj hrule
  rw [hscopes, Pattern.applied_insertScopes] at applied
  exact idle.unapplied r hr (hrname ▸ hname) applied

theorem unapplied_of_normalize (normalized : rs.normalize options = .ok g) (idle : rs.Idle name) :
    g.bodies.Unapplied name := by
  intro b hb hname applied
  obtain ⟨r, hr, hrname, -, written⟩ := rule_of_mem normalized hb
  exact idle.unapplied r hr (hrname ▸ hname) (written ▸ applied)

/-- The passes over one body do the same to the other rules without those that are idle. -/
theorem finished_without (idle : rs.Idle name) :
    (rs.without name).finished = rs.finished.without name := by
  rw [finished, scopedBodies_without, finished, Bodies.without_mapBodies]
  refine Bodies.mapBodies_congr fun b hb => ?_
  have same : (rs.scopedBodies.without name).leftRecursive.contains b.1
      = rs.scopedBodies.leftRecursive.contains b.1 := by
    rw [Bool.eq_iff_iff, List.contains_iff_mem, List.contains_iff_mem,
      Bodies.mem_leftRecursive_without (unapplied_scopedBodies idle) (Bodies.mem_without.1 hb).2]
  rw [Bodies.finishBody, Bodies.wrapLeftRecursive, same]
  rfl

/-- Normalization without idle rules gives the grammar without their bodies. -/
theorem normalize_of_idle (normalized : rs.normalize options = .ok g) (idle : rs.Idle name)
    (plain : name ∉ options.leftAssoc) :
    (rs.without name).normalize options = .ok (g.without name) := by
  obtain ⟨valid, recursive, rfl⟩ := normalize_eq_ok.1 normalized
  refine normalize_eq_ok.2 ⟨validate_without valid idle, fun rule hrule => ?_, ?_⟩
  · rw [scopedBodies_without, Bodies.mem_leftRecursive_without (unapplied_scopedBodies idle)]
    · exact recursive rule hrule
    · exact fun heq => plain (heq ▸ hrule)
  · have unmemoized : rs.normalize .default = .ok ⟨rs.finished, []⟩ :=
      normalize_eq_ok.2 ⟨valid, fun _ h => by contradiction, rfl⟩
    have unapplied : rs.finished.Unapplied name := unapplied_of_normalize unmemoized idle
    rw [finished_without idle, Bodies.memoize_without unapplied, Grammar.without]
    split <;> rfl

/-- Without idle rules matching starts at the same rule. -/
theorem start_without (normalized : rs.normalize options = .ok g) (idle : rs.Idle name) :
    (g.without name).start = g.start ∧ g.start ≠ name := by
  have names := names_of_normalize normalized
  obtain ⟨first, rest, hrules⟩ :=
    List.exists_cons_of_ne_nil (validate_eq_ok.1 (normalize_eq_ok.1 normalized).1).1
  have hfirst : first.name ≠ name := idle.notFirst first (by rw [hrules]; rfl)
  cases hbodies : g.bodies with
  | nil => simp [hbodies, RuleSet.names, hrules] at names
  | cons b bodies =>
    have hb : b.1 = first.name := by
      rw [hbodies, RuleSet.names, hrules] at names
      exact (List.cons.inj names).1
    have stays : (b.1 != name) = true := by rw [bne_iff_ne, hb]; exact hfirst
    have start : g.start = b.1 := by rw [Grammar.start, hbodies]; rfl
    refine ⟨?_, start ▸ hb ▸ hfirst⟩
    have bodies' : (g.without name).bodies = b :: Bodies.without bodies name := by
      rw [Grammar.without, Bodies.without, hbodies, List.filter_cons, if_pos stays]
      rfl
    rw [start, Grammar.start, bodies']
    rfl

/-- **An unused rule can be removed.**  Let a rule set normalize, and let a rule be reported as
unused that is not asked to associate to the left.  Then the rules without it normalize under the same
options, to the grammar without its body.  Every match with that grammar gives what it gives with
the whole one, with the same fuel: the same value or error text, at the same offset. -/
theorem normalize_without (normalized : rs.normalize options = .ok g) {u : Rule}
    (reported : u.unusedDiagnostic ∈ rs.lint) (plain : u.name ∉ options.leftAssoc) :
    (rs.without u.name).normalize options = .ok (g.without u.name) ∧
      ∀ (n : Nat) (source : String) (input : Array Char),
        (g.without u.name).run n source input = g.run n source input := by
  have idle := idle_of_reported (nodup_of_normalize normalized) reported
  refine ⟨normalize_of_idle normalized idle plain, fun n source input => ?_⟩
  obtain ⟨start, notStart⟩ := start_without normalized idle
  exact Match.run_congr (g.agreeOn_without (unapplied_of_normalize normalized idle)) start notStart
    n source

end RuleSet

/-! ## A rule that is applied by itself alone -/

/-- The rule `old = old 'y' | 'y'`. -/
def oldRule : Rule :=
  ⟨"old", .choice [.seq [.apply "old", .lit "y"], .seq [.lit "y"]], .origin⟩

/-- The rules `s = n '+' | n` and `n = 'x'`, with the old one after them. -/
def agedRules : RuleSet :=
  ⟨[⟨"s", .choice [.seq [.apply "n", .lit "+"], .seq [.apply "n"]], .origin⟩,
    ⟨"n", .choice [.seq [.lit "x"]], .origin⟩, oldRule]⟩

/-- The grammar without the old rule: the others are memoized. -/
def youngGrammar : Grammar :=
  ⟨[("s", .memo (.choice [.seq [.apply "n", .lit "+"], .apply "n"]) "s"),
    ("n", .memo (.lit "x") "n")], []⟩

/-- The whole grammar, where the old rule is left-recursive. -/
def agedGrammar : Grammar :=
  ⟨youngGrammar.bodies
    ++ [("old", .leftrec (.choice [.seq [.apply "old", .lit "y"], .lit "y"]) "old")], []⟩

/-- The old rule is reported; without it the others normalize as before, and match as before. -/
theorem normalize_without_old :
    agedRules.normalize ⟨true, []⟩ = .ok agedGrammar ∧
      oldRule.unusedDiagnostic ∈ agedRules.lint ∧
      (agedRules.without "old").normalize ⟨true, []⟩ = .ok youngGrammar ∧
      youngGrammar.run 9 "<stdin>" #['x', '+'] = some (.accepted (.str "+") 2) := by
  have normalized : agedRules.normalize ⟨true, []⟩ = .ok agedGrammar := by cbv
  have reported : oldRule.unusedDiagnostic ∈ agedRules.lint := .head _
  have run : agedGrammar.run 9 "<stdin>" #['x', '+'] = some (.accepted (.str "+") 2) := by cbv
  obtain ⟨without, same⟩ := RuleSet.normalize_without normalized reported (by decide)
  exact ⟨normalized, reported, without, (same 9 "<stdin>" #['x', '+']).trans run⟩

end Pegboard
