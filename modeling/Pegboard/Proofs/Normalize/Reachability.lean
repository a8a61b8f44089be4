import Mathlib.Logic.Relation
import Pegboard.Proofs.Grammar.Written
import Pegboard.Proofs.Normalize.Detection
import Pegboard.Proofs.Normalize.Passes

/-!
# Detection is reachability

In grammars from text, the left-recursive rules are those that can be reached from themselves by left
calls.  A left call is an application at the start of a body, or behind terms that are passed.
Whether a term is passed is told by its form alone.

The detector walks through the bodies with a path of the rules that it has entered.  To enter one
again counts for `no`, which may hide a left call behind it.  Nothing is lost by that: a way on
which a rule comes twice can be cut short.  In the other direction, what the detector finds uncertain
must be a term that is passed.  For arbitrary bodies that is wrong, for it takes a choice with an
uncertain alternative for recursive.  In a grammar from text the alternatives, and what is in
parentheses or braces, are groups of terms and never uncertain.

## Main Definitions

* `Pattern.isPassed`: the terms behind which there may be left calls.
* `Bodies.LeftStep`: the body of a rule has a left call of another rule.
* `Bodies.Sure`: in the bodies nothing is uncertain but the terms that are passed.

## Main Results

* `Bodies.isLeftRecursive_of_transGen`: the detector finds what can be reached.
* `Bodies.transGen_of_leads`: what the detector finds can be reached.
* `leftRecursive_iff_transGen`: detection is exact for the rules of a grammar text.
-/

namespace Pegboard

open Relation (TransGen)

namespace Pattern

/-- Whether there may be left calls behind a term of a sequence. -/
def isPassed : Pattern → Bool
  | .opt _ => true
  | .star _ => true
  | .not _ => true
  | .pred _ => true
  | .eq _ => true
  | .pos => true
  | .label p _ => isPassed p
  | .plus p => isPassed p
  | _ => false

/-- A pattern has a left call of a rule: it applies it at its start, or behind terms that are
passed.  A wrapper for left recursion counts as an application of its rule, but a grammar text has
none. -/
def CallsLeft (p : Pattern) (name : String) : Prop := p.opens (fun t => t.isPassed = true) name

/-- A node that is uncertain only if it is passed: the alternatives of a choice are not passed, nor
is what stands in parentheses, braces or a memo, and it is no wrapper for left recursion. -/
def SureNode : Pattern → Prop
  | .choice alts => ∀ p ∈ alts, p.isPassed = false
  | .paren p => p.isPassed = false
  | .capture p => p.isPassed = false
  | .memo p _ => p.isPassed = false
  | .leftrec _ _ => False
  | _ => True

section Leads

variable {enter : String → Leads}

/-- What is passed does not stop the detector. -/
theorem leads_ne_no_of_isPassed : ∀ p : Pattern, p.isPassed = true → p.leads enter ≠ .no
  | .opt p, _ | .star p, _ | .not p, _ => by
    rw [leads]
    split <;> simp
  | .pred _, _ | .eq _, _ | .pos, _ => by simp [leads]
  | .label p _, h => leads_ne_no_of_isPassed p h
  | .plus p, h => leads_ne_no_of_isPassed p h

theorem leadsAny_ne_unknown (ps : List Pattern) : leadsAny enter ps ≠ .unknown := by
  induction ps with
  | nil => simp [leadsAny]
  | cons p ps ih =>
    rw [leadsAny]
    split
    · simp
    · exact ih

theorem leadsFirst_ne_unknown (ps : List Pattern) : leadsFirst enter ps ≠ .unknown := by
  induction ps with
  | nil => simp [leadsFirst]
  | cons p ps ih =>
    rw [leadsFirst]
    split
    · exact ih
    · next certain => exact certain

/-- What is uncertain is passed, if no rule is uncertain. -/
theorem isPassed_of_leads (known : ∀ name, enter name ≠ .unknown) {p : Pattern}
    (sure : p.Everywhere SureNode) (h : p.leads enter = .unknown) : p.isPassed = true := by
  induction p using induction_parts with
  | node p ih =>
    obtain ⟨own, parts⟩ := everywhere_iff.1 sure
    -- A wrapper around a part that is not passed would be uncertain only if the part were.
    have inner {q : Pattern} (hq : q ∈ p.parts) (certain : q.isPassed = false) :
        q.leads enter ≠ .unknown := fun hq' => by
      rw [ih q hq (parts q hq) hq'] at certain
      contradiction
    cases p with
    | opt | star | not | pred | eq | pos => rfl
    | label q _ => exact ih q (.head _) (parts q (.head _)) h
    | plus q => exact ih q (.head _) (parts q (.head _)) h
    | apply name => exact absurd h (known name)
    | choice alts => exact absurd h (leadsAny_ne_unknown alts)
    | seq ps | scope _ ps => exact absurd h (leadsFirst_ne_unknown ps)
    | paren q => exact absurd h (inner (q := q) (.head _) own)
    | capture q => exact absurd h (inner (q := q) (.head _) own)
    | memo q _ => exact absurd h (inner (q := q) (.head _) own)
    | leftrec => exact own.elim
    | lit | range | action | empty => contradiction

theorem yes_of_optional {a : Leads} (h : (if a = .yes then Leads.yes else .unknown) = .yes) :
    a = .yes := by
  by_contra no
  rw [if_neg no] at h
  contradiction

mutual

/-- A pattern that leads into a rule has a left call of one that does. -/
theorem exists_callsLeft_of_leads (known : ∀ name, enter name ≠ .unknown) :
    ∀ p : Pattern, p.Everywhere SureNode → p.leads enter = .yes →
      ∃ name, p.CallsLeft name ∧ enter name = .yes
  | .apply name, _, h => ⟨name, rfl, h⟩
  | .choice alts, sure, h =>
    have ⟨own, parts⟩ := everywhere_iff.1 sure
    exists_opensAny_of_leads known alts own parts h
  | .seq ps, sure, h => exists_opensTerms_of_leads known ps (everywhere_iff.1 sure).2 h
  | .scope _ ps, sure, h => exists_opensTerms_of_leads known ps (everywhere_iff.1 sure).2 h
  | .leftrec _ _, sure, _ => (everywhere_iff.1 sure).1.elim
  | .opt p, sure, h =>
    exists_callsLeft_of_leads known p ((everywhere_iff.1 sure).2 p (.head _)) (yes_of_optional h)
  | .star p, sure, h =>
    exists_callsLeft_of_leads known p ((everywhere_iff.1 sure).2 p (.head _)) (yes_of_optional h)
  | .not p, sure, h =>
    exists_callsLeft_of_leads known p ((everywhere_iff.1 sure).2 p (.head _)) (yes_of_optional h)
  | .plus p, sure, h =>
    exists_callsLeft_of_leads known p ((everywhere_iff.1 sure).2 p (.head _)) h
  | .label p _, sure, h =>
    exists_callsLeft_of_leads known p ((everywhere_iff.1 sure).2 p (.head _)) h
  | .capture p, sure, h =>
    exists_callsLeft_of_leads known p ((everywhere_iff.1 sure).2 p (.head _)) h
  | .paren p, sure, h =>
    exists_callsLeft_of_leads known p ((everywhere_iff.1 sure).2 p (.head _)) h
  | .memo p _, sure, h =>
    exists_callsLeft_of_leads known p ((everywhere_iff.1 sure).2 p (.head _)) h

theorem exists_opensAny_of_leads (known : ∀ name, enter name ≠ .unknown) :
    ∀ ps : List Pattern, (∀ p ∈ ps, p.isPassed = false) →
      (∀ p ∈ ps, p.Everywhere SureNode) → leadsAny enter ps = .yes →
      ∃ name, opensAny (fun t => t.isPassed = true) name ps ∧ enter name = .yes
  | p :: ps, certain, sure, h => by
    cases hp : p.leads enter with
    | yes =>
      obtain ⟨name, opens, yes⟩ := exists_callsLeft_of_leads known p (sure p (.head _)) hp
      exact ⟨name, .inl opens, yes⟩
    | no =>
      rw [leadsAny, hp, if_neg (not_not_intro rfl)] at h
      obtain ⟨name, opens, yes⟩ := exists_opensAny_of_leads known ps
        (fun q hq => certain q (.tail _ hq)) (fun q hq => sure q (.tail _ hq)) h
      exact ⟨name, .inr opens, yes⟩
    | unknown =>
      have passed := isPassed_of_leads known (sure p (.head _)) hp
      rw [certain p (.head _)] at passed
      contradiction

theorem exists_opensTerms_of_leads (known : ∀ name, enter name ≠ .unknown) :
    ∀ ps : List Pattern, (∀ p ∈ ps, p.Everywhere SureNode) → leadsFirst enter ps = .yes →
      ∃ name, opensTerms (fun t => t.isPassed = true) name ps ∧ enter name = .yes
  | p :: ps, sure, h => by
    cases hp : p.leads enter with
    | yes =>
      obtain ⟨name, opens, yes⟩ := exists_callsLeft_of_leads known p (sure p (.head _)) hp
      exact ⟨name, .inl opens, yes⟩
    | no =>
      rw [leadsFirst, hp] at h
      contradiction
    | unknown =>
      rw [leadsFirst, hp] at h
      obtain ⟨name, opens, yes⟩ := exists_opensTerms_of_leads known ps
        (fun q hq => sure q (.tail _ hq)) h
      exact ⟨name, .inr ⟨isPassed_of_leads known (sure p (.head _)) hp, opens⟩, yes⟩

end

end Leads

end Pattern

namespace Bodies

open Pattern

variable {bodies : Bodies} {target : String} {path : List String}

/-- The body of one rule has a left call of another. -/
def LeftStep (bodies : Bodies) (caller callee : String) : Prop :=
  (bodies.body? callee).isSome = true ∧
    ∃ body, bodies.body? caller = some body ∧ body.CallsLeft callee

/-- In the bodies nothing is uncertain but the terms that are passed. -/
def Sure (bodies : Bodies) : Prop :=
  ∀ b ∈ bodies, b.2.Everywhere SureNode ∧ b.2.isPassed = false

/-! ## What can be reached is found -/

theorem Way.mono {R S : String → String → Prop} (h : ∀ x y, R x y → S x y) {x : String}
    {l : List String} (way : Way R target x l) : Way S target x l := by
  induction way with
  | last step => exact .last (h _ _ step)
  | next step _ ih => exact .next (h _ _ step) ih

theorem exists_way_of_transGen {R : String → String → Prop} {x : String}
    (h : TransGen R x target) : ∃ l, Way R target x l := by
  induction h using TransGen.head_induction_on with
  | single step => exact ⟨[], .last step⟩
  | head step _ ih =>
    obtain ⟨l, way⟩ := ih
    exact ⟨_, .next step way⟩

/-- The detector passes on all terms before a left call, wherever it is. -/
theorem opens_of_callsLeft {p : Pattern} {name : String} (calls : p.CallsLeft name) :
    p.opens (fun t => bodies.leads target path t ≠ .no) name := by
  refine opens_of_skip p (fun t _ passed => ?_) calls
  rw [leads_eq]
  exact leads_ne_no_of_isPassed t passed

/-- The detector follows all left calls. -/
theorem LeftStep.follows {x y : String} (h : bodies.LeftStep x y) :
    bodies.Follows target path x y := by
  obtain ⟨-, body, found, calls⟩ := h
  exact ⟨body, found, opens_of_callsLeft calls⟩

theorem isLeftRecursive_of_transGen {rule : String} {body : Pattern}
    (found : bodies.body? rule = some body) (h : TransGen bodies.LeftStep rule rule) :
    bodies.isLeftRecursive rule body = true := by
  obtain ⟨l, way⟩ := exists_way_of_transGen h
  exact isLeftRecursive_of_way found (way.mono fun _ _ => LeftStep.follows) (List.Subset.refl l)

/-! ## What is found can be reached -/

/-- No rule is uncertain. -/
theorem Sure.enter_ne_unknown (sure : bodies.Sure) (target : String) (path : List String)
    (name : String) : bodies.enter target path name ≠ .unknown := by
  rw [enter]
  split
  · simp
  · cases found : bodies.body? name with
    | none => simp
    | some body =>
      by_cases fresh : path.contains name = false
      · have shrinks := offPath_cons_lt found fresh
        obtain ⟨everywhere, certain⟩ := sure _ (mem_of_body? found)
        simp only [if_pos fresh]
        intro h
        rw [leads_eq] at h
        rw [isPassed_of_leads (sure.enter_ne_unknown target (name :: path)) everywhere h]
          at certain
        contradiction
      · simp only [if_neg fresh]
        simp
termination_by bodies.offPath path

/-- If the body of a rule leads to the target, the target can be reached from the rule. -/
theorem transGen_of_leads (sure : bodies.Sure) (isRule : (bodies.body? target).isSome = true)
    {path : List String} {x : String} {body : Pattern} (found : bodies.body? x = some body)
    (h : bodies.leads target path body = .yes) : TransGen bodies.LeftStep x target := by
  rw [leads_eq] at h
  obtain ⟨name, calls, yes⟩ := exists_callsLeft_of_leads (sure.enter_ne_unknown target path) body
    (sure _ (mem_of_body? found)).1 h
  rw [enter] at yes
  split at yes
  · next same => exact .single ⟨isRule, body, found, same ▸ calls⟩
  · cases next : bodies.body? name with
    | none => simp [next] at yes
    | some inner =>
      by_cases fresh : path.contains name = false
      · have shrinks := offPath_cons_lt next fresh
        simp only [next, if_pos fresh] at yes
        exact .head ⟨by simp [next], body, found, calls⟩ (transGen_of_leads sure isRule next yes)
      · simp only [next, if_neg fresh] at yes
        contradiction
termination_by bodies.offPath path

/-- Detection is exact if nothing is uncertain but the terms that are passed. -/
theorem Sure.mem_leftRecursive_iff (sure : bodies.Sure) (nodup : (bodies.map (·.1)).Nodup)
    {rule : String} : rule ∈ bodies.leftRecursive ↔ TransGen bodies.LeftStep rule rule := by
  constructor
  · intro h
    obtain ⟨b, hb, rfl⟩ := List.mem_map.1 h
    obtain ⟨mem, recursive⟩ := List.mem_filter.1 hb
    have found := body?_of_mem nodup mem
    rw [isLeftRecursive, decide_eq_true_iff] at recursive
    exact transGen_of_leads sure (by simp [found]) found recursive
  · intro h
    obtain ⟨y, -, body, found, -⟩ : ∃ y, bodies.LeftStep rule y := by
      cases h using TransGen.head_induction_on with
      | single step => exact ⟨_, step⟩
      | head step _ => exact ⟨_, step⟩
    exact mem_leftRecursive (mem_of_body? found) (isLeftRecursive_of_transGen found h)

end Bodies

/-! ## Bodies from text -/

namespace Pattern

/-- Parsing gives groups, so that nothing is uncertain but what is passed. -/
theorem Authored.sure {p : Pattern} (h : p.Authored) : p.Everywhere SureNode := by
  have group {q : Pattern} (hq : q.IsGroup) : q.isPassed = false := by
    cases q with
    | choice => rfl
    | _ => exact hq.elim
  intro q hq
  have own := h q hq
  cases q with
  | choice alts =>
    intro alt halt
    rcases own.2 alt halt with rfl | ⟨ps, -, rfl⟩ <;> rfl
  | paren inner => exact group own
  | capture inner => exact group own
  | leftrec | memo => exact own.elim
  | _ => trivial

section Scopes

variable {rule name : String}

/-- Scopes do not make a difference to which terms are passed. -/
theorem isPassed_scopes (rule : String) (p : Pattern) :
    (p.rebuild (scopeNode rule)).isPassed = p.isPassed := by
  induction p using induction_parts with
  | node p ih =>
    rw [rebuild_eq]
    cases p with
    | label q _ => exact ih q (.head _)
    | plus q => exact ih q (.head _)
    | seq ps =>
      show (if _ then Pattern.scope rule _ else .seq _).isPassed = false
      split <;> rfl
    | _ => rfl

theorem isPassed_scopeAlternative {p : Pattern} (h : p.isPassed = false) :
    (scopeAlternative rule p).isPassed = false := by
  unfold scopeAlternative
  split
  · rfl
  · rfl
  · split
    · rfl
    · exact h

theorem callsLeft_scopeAlternative (p : Pattern) :
    (scopeAlternative rule p).CallsLeft name ↔ p.CallsLeft name := by
  unfold scopeAlternative
  split
  · rfl
  · rfl
  · split
    · simp [CallsLeft, opens, opensTerms]
    · rfl

theorem opensAny_map {f : Pattern → Pattern} {ps : List Pattern}
    (h : ∀ p ∈ ps, (f p).CallsLeft name ↔ p.CallsLeft name) :
    opensAny (fun t => t.isPassed = true) name (ps.map f)
      ↔ opensAny (fun t => t.isPassed = true) name ps := by
  induction ps with
  | nil => rfl
  | cons p ps ih =>
    exact or_congr (h p (.head _)) (ih fun q hq => h q (.tail _ hq))

theorem opensTerms_map {f : Pattern → Pattern} {ps : List Pattern}
    (h : ∀ p ∈ ps, (f p).CallsLeft name ↔ p.CallsLeft name)
    (passed : ∀ p, (f p).isPassed = p.isPassed) :
    opensTerms (fun t => t.isPassed = true) name (ps.map f)
      ↔ opensTerms (fun t => t.isPassed = true) name ps := by
  induction ps with
  | nil => rfl
  | cons p ps ih =>
    have first : (f p).isPassed = true ↔ p.isPassed = true := by rw [passed]
    exact or_congr (h p (.head _)) (and_congr first (ih fun q hq => h q (.tail _ hq)))

/-- Scopes do not make a difference to the left calls. -/
theorem callsLeft_scopes (rule : String) (p : Pattern) :
    (p.rebuild (scopeNode rule)).CallsLeft name ↔ p.CallsLeft name := by
  induction p using induction_parts with
  | node p ih =>
    rw [rebuild_eq]
    cases p with
    | choice alts =>
      show opensAny _ name ((alts.map _).map _) ↔ _
      rw [List.map_map]
      exact opensAny_map fun q hq => (callsLeft_scopeAlternative _).trans (ih q hq)
    | seq ps =>
      have terms := opensTerms_map ih (isPassed_scopes rule)
      show (if _ then Pattern.scope rule _ else .seq _).CallsLeft name ↔ _
      split <;> exact terms
    | scope _ ps => exact opensTerms_map ih (isPassed_scopes _)
    | leftrec q _ => exact or_congr_right (ih q (.head _))
    | label q _ | memo q _ | not q | opt q | star q | plus q | paren q | capture q =>
      exact ih q (.head _)
    | _ => rfl

theorem callsLeft_insertScopes (p : Pattern) :
    (p.insertScopes rule).CallsLeft name ↔ p.CallsLeft name := by
  rw [← callsLeft_scopes rule p, insertScopes]
  split
  · next heq => rw [heq]
  · exact callsLeft_scopeAlternative _

theorem isPassed_insertScopes {p : Pattern} (h : p.isPassed = false) :
    (p.insertScopes rule).isPassed = false := by
  unfold insertScopes
  split
  · rfl
  · exact isPassed_scopeAlternative ((isPassed_scopes rule p).trans h)

theorem sure_insertScopes {p : Pattern} (h : p.Everywhere SureNode) :
    (p.insertScopes rule).Everywhere SureNode := by
  refine everywhere_insertScopes (fun q hq => ?_) (fun _ _ => trivial) h
  have own := (everywhere_iff.1 hq).1
  cases q with
  | choice alts =>
    intro alt halt
    obtain ⟨_, hrebuilt, rfl⟩ := List.mem_map.1 halt
    obtain ⟨written, hwritten, rfl⟩ := List.mem_map.1 hrebuilt
    exact isPassed_scopeAlternative ((isPassed_scopes rule written).trans (own written hwritten))
  | seq ps =>
    show (if _ then Pattern.scope rule _ else .seq _).SureNode
    split <;> trivial
  | paren q => exact (isPassed_scopes rule q).trans own
  | capture q => exact (isPassed_scopes rule q).trans own
  | memo q _ => exact (isPassed_scopes rule q).trans own
  | leftrec => exact own.elim
  | _ => trivial

end Scopes

end Pattern

namespace RuleSet

variable {rs : RuleSet}

/-- Scopes do not make a difference to the steps. -/
theorem leftStep_scopedBodies {x y : String} :
    rs.scopedBodies.LeftStep x y ↔ Bodies.LeftStep rs.definitions x y := by
  rw [Bodies.LeftStep, Bodies.LeftStep, scopedBodies, Bodies.body?_mapBodies,
    Bodies.body?_mapBodies, Option.isSome_map]
  refine and_congr_right fun _ => ?_
  simp only [Option.map_eq_some_iff, exists_exists_and_eq_and, Pattern.callsLeft_insertScopes]

theorem sure_definitions {text : String} (parsed : parseGrammar text = .ok rs) :
    Bodies.Sure rs.definitions := by
  intro b hb
  obtain ⟨r, hr, rfl⟩ := List.mem_map.1 hb
  refine ⟨(authored_of_parseGrammar parsed r hr).2.sure, ?_⟩
  have group := ((derivation_of_parseGrammar parsed).2.2 r hr).1
  show r.body.isPassed = false
  cases hbody : r.body with
  | choice => rfl
  | _ =>
    rw [hbody] at group
    exact group.elim

theorem sure_scopedBodies (h : Bodies.Sure rs.definitions) : rs.scopedBodies.Sure := by
  intro b hb
  obtain ⟨d, hd, rfl⟩ := List.mem_map.1 hb
  obtain ⟨sure, certain⟩ := h d hd
  exact ⟨Pattern.sure_insertScopes sure, Pattern.isPassed_insertScopes certain⟩

end RuleSet

/-- **Detection is exact.**  For the rules of a grammar text, before and after scopes are put in, the
left-recursive rules are those that can be reached from themselves by one or more left calls.  The
scopes make no difference to what these are. -/
theorem leftRecursive_iff_transGen {text : String} {rs : RuleSet}
    (parsed : parseGrammar text = .ok rs) (nodup : rs.names.Nodup) {bodies : Bodies}
    (stage : bodies = rs.definitions ∨ bodies = rs.scopedBodies) :
    (∀ x y, bodies.LeftStep x y ↔ Bodies.LeftStep rs.definitions x y) ∧
      ∀ rule, rule ∈ bodies.leftRecursive ↔ TransGen bodies.LeftStep rule rule := by
  have names : rs.definitions.map (·.1) = rs.names := by
    simp [RuleSet.definitions, RuleSet.names]
  have names' : rs.scopedBodies.map (·.1) = rs.names := by
    simp [RuleSet.scopedBodies, Bodies.mapBodies, ← names]
  have sure := RuleSet.sure_definitions parsed
  rcases stage with rfl | rfl
  · exact ⟨fun _ _ => .rfl, fun _ => sure.mem_leftRecursive_iff (names ▸ nodup)⟩
  · exact ⟨fun _ _ => RuleSet.leftStep_scopedBodies,
      fun _ => (RuleSet.sure_scopedBodies sure).mem_leftRecursive_iff (names' ▸ nodup)⟩

/-! ## A way through an option and a lookahead -/

/-- A grammar whose first two rules come to each other, each behind a term that is passed. -/
def crossingText : String := "a = 'x'? b | 'z', b = ~c a:v, c = 'w' a"

/-- The rules of that grammar. -/
def crossingRules : RuleSet :=
  ⟨[⟨"a", .choice [.seq [.opt (.lit "x"), .apply "b"], .seq [.lit "z"]], ⟨0, 1⟩⟩,
    ⟨"b", .choice [.seq [.not (.apply "c"), .label (.apply "a") "v"]], ⟨18, 19⟩⟩,
    ⟨"c", .choice [.seq [.lit "w", .apply "a"]], ⟨30, 31⟩⟩]⟩

/-- The first two rules are left-recursive.  The third is not, for it matches a literal first. -/
theorem crossingRules_leftRecursive : parseGrammar crossingText = .ok crossingRules ∧
    "a" ∈ crossingRules.scopedBodies.leftRecursive ∧
    "b" ∈ crossingRules.scopedBodies.leftRecursive ∧
    "c" ∉ crossingRules.scopedBodies.leftRecursive := by
  have parsed : parseGrammar crossingText = .ok crossingRules := by cbv
  obtain ⟨steps, detected⟩ := leftRecursive_iff_transGen parsed (by decide) (.inr rfl)
  have there : crossingRules.scopedBodies.LeftStep "a" "b" :=
    (steps _ _).2 ⟨rfl, _, rfl, .inl (.inr ⟨rfl, .inl rfl⟩)⟩
  have back : crossingRules.scopedBodies.LeftStep "b" "a" :=
    (steps _ _).2 ⟨rfl, _, rfl, .inl (.inr ⟨rfl, .inl rfl⟩)⟩
  refine ⟨parsed, (detected "a").2 (.head there (.single back)),
    (detected "b").2 (.head back (.single there)), fun h => ?_⟩
  obtain ⟨callee, step, -⟩ := TransGen.head'_iff.1 ((detected "c").1 h)
  obtain ⟨-, body, found, calls⟩ := (steps _ _).1 step
  obtain rfl : Pattern.choice [.seq [.lit "w", .apply "a"]] = body := Option.some.inj found
  rcases calls with (none | ⟨passed, -⟩) | none
  · exact none
  · exact absurd passed (by decide)
  · exact none

end Pegboard
