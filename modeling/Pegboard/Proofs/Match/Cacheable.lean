import Pegboard.Proofs.Match.Memoization
import Pegboard.Proofs.Normalize.Meaning
import Pegboard.Proofs.Normalize.Recursion
import Pegboard.Proofs.Normalize.Selection
import Pegboard.Proofs.Normalize.Valid

/-!
# Rules that may be memoized

Normalization tells by the form of the bodies whose outcomes are kept.  It leaves out the rules that
reach a free variable, for they depend on the bindings of their callers, and the left-recursive ones,
for they grow seeds.  This module says what must be so of the bodies for that to be enough.

A name counts as bound by a rule if any label in its body has it, even one of another alternative,
and the names of constants and builtin functions count as bound although labels may have them.  So a
variable must be bound by the rule where it is looked up if a label of the rule has its name, and no
label of any rule may have the name of a constant that is looked up.  And a rule that comes back to
itself must do so by left calls.  Otherwise the detector overlooks the recursion, and the rule is
kept although it meets the seeds of the rules that it recurs through.

## Main Definitions

* `Bodies.Given`: a name that no caller binds, unless it is a free variable.
* `Bodies.ReachesFree`: a rule that depends on the bindings of its callers.
* `RuleSet.MemoSafe`: rules of which the right ones are selected.

## Main Results

* `RuleSet.MemoSafe.knows`: a selected rule looks up only names that no caller binds.
* `RuleSet.MemoSafe.apart`: a rule that is kept does not come back to a seed that grows around it.
* `run_memoize`: matching with memoization has the result of matching without.
-/

namespace Pegboard

open Relation (ReflTransGen TransGen)

namespace Bodies

variable {bodies : Bodies}

/-- A name that is not bound by the body of a rule, nor by the callers if it is the name of a constant
or of a builtin function: no label of the body has the name, and in the second case no label of any
rule. -/
def Given (bodies : Bodies) (body : Pattern) (name : String) : Prop :=
  name ∉ body.labels ∧ (name ∈ constants ∨ Builtin.isName name = true → bodies.Unbound name)

/-- A rule reaches a body with a free variable by applying rules, or its own body has one. -/
def ReachesFree (bodies : Bodies) (rule : String) : Prop :=
  ∃ b ∈ bodies, ReflTransGen bodies.Invokes rule b.1 ∧ ∃ free, b.2.IsFree free

/-- In a body without free variables, no label of any rule binds the names that are given. -/
theorem Given.unbound {body : Pattern} {name : String} (given : bodies.Given body name)
    (closed : body.hasFreeVariables = false) (mentioned : name ∈ body.variableNames) :
    bodies.Unbound name := by
  refine given.2 (Classical.byContradiction fun other => ?_)
  rw [not_or, Bool.not_eq_true] at other
  have free : body.hasFreeVariables = true := by
    refine List.any_eq_true.2 ⟨name, mentioned, ?_⟩
    simpa [other.2] using ⟨given.1, other.1⟩
  rw [closed] at free
  contradiction

/-- A memoizable rule has no free variables. -/
theorem closed_of_memoizable {name : String} {body : Pattern} (memoizable : name ∈ bodies.memoizable)
    (found : bodies.body? name = some body) : body.hasFreeVariables = false := by
  obtain ⟨-, none⟩ := mem_memoizable_iff.1 memoizable
  exact Bool.eq_false_iff.2 fun free => none name .refl ⟨_, mem_of_body? found, rfl, free⟩

end Bodies

namespace RuleSet

/-- Rules of which those are selected for memoization that depend on nothing but the offset. -/
structure MemoSafe (rs : RuleSet) : Prop where
  /-- No body is wrapped as it is written. -/
  unwrapped : ∀ r ∈ rs.rules, r.body.Everywhere Pattern.PlainNode
  /-- A rule reaches a free variable, or each name that it looks up is bound in its body by then, or
  given. -/
  bound : ∀ b ∈ rs.finished,
    rs.finished.ReachesFree b.1 ∨ b.2.Knows (fun _ => True) (rs.finished.Given b.2)
  /-- No rule that is applied where another one starts, but not by a left call, comes back to it. -/
  shows : ∀ caller callee, Bodies.Hides rs.definitions rs.finished.mayBeEmpty caller callee →
    ¬ rs.finished.LeftPath callee caller

namespace MemoSafe

variable {rs : RuleSet}

/-- A memoizable rule looks up only names that it has bound by then, or that no label binds. -/
theorem knows (safe : rs.MemoSafe) {name : String} {body : Pattern}
    (memoizable : name ∈ rs.finished.memoizable) (found : rs.finished.body? name = some body) :
    body.Knows (fun _ => True) rs.finished.Unbound := by
  rcases safe.bound _ (Bodies.mem_of_body? found) with ⟨b, hb, steps, free⟩ | known
  · obtain ⟨-, none⟩ := Bodies.mem_memoizable_iff_invokes.1 memoizable
    exact absurd free (none b hb steps)
  · have closed := Bodies.closed_of_memoizable memoizable found
    refine Pattern.knows_of_nodes body (fun q hq => ⟨fun _ _ => id, fun name read given => ?_⟩) known
    refine given.unbound closed (Pattern.mem_variableNames_iff.2 ⟨q, hq, ?_⟩)
    cases q with
    | pred e | eq e | action e => exact ⟨e, rfl, e.mem_variableNames read⟩
    | _ => contradiction

/-- The body of a rule with scopes has a left call of another rule. -/
def Step (rs : RuleSet) (caller callee : String) : Prop :=
  ∃ body, rs.scopedBodies.body? caller = some body ∧ body.CallsLeft callee

/-- A step on the way from a rule back to itself is a left call, unless it is the growth of a seed. -/
theorem step_of_leftCall (safe : rs.MemoSafe) {caller callee : String}
    (call : rs.finished.LeftCall caller callee) (back : rs.finished.LeftPath callee caller) :
    (caller = callee ∧ ∃ inner, rs.finished.body? caller = some (.leftrec inner caller)) ∨
      Step rs caller callee := by
  obtain ⟨body, found, opens⟩ := call
  obtain ⟨inScope, hscope, rfl⟩ := body?_finished found
  have left (h : inScope.opens (Pattern.nullable rs.finished.mayBeEmpty) callee) :
      Step rs caller callee := by
    refine ⟨inScope, hscope, ?_⟩
    rw [scopedBodies, Bodies.body?_mapBodies, Option.map_eq_some_iff] at hscope
    obtain ⟨written, hwritten, rfl⟩ := hscope
    rw [Pattern.callsLeft_insertScopes]
    exact Classical.byContradiction fun hidden => safe.shows caller callee
      ⟨written, hwritten, Pattern.opens_of_insertScopes h, hidden⟩ back
  unfold Bodies.wrapLeftRecursive at found opens
  split at opens
  · next wrapped =>
    rw [if_pos wrapped] at found
    rcases opens with same | opens
    · exact .inl ⟨same, _, found⟩
    · exact .inr (left (Pattern.opens_of_finish opens))
  · exact .inr (left (Pattern.opens_of_finish opens))

/-- On the way from a rule to another one and back, all steps are left calls. -/
theorem steps_of_leftPath (safe : rs.MemoSafe) {a b : String} (there : rs.finished.LeftPath a b)
    (back : rs.finished.LeftPath b a) : ReflTransGen (Step rs) a b := by
  induction there with
  | refl => exact .refl
  | @step a b c call rest ih =>
    have round : rs.finished.LeftPath b a := rest.trans back
    have steps := ih (back.trans (.step call .refl))
    rcases safe.step_of_leftCall call round with ⟨rfl, -⟩ | step
    · exact steps
    · exact .head step steps

/-- A rule that comes back to itself by left calls is found to be left-recursive. -/
theorem mem_leftRecursive_of_steps {rule : String} (h : TransGen (Step rs) rule rule) :
    rule ∈ rs.scopedBodies.leftRecursive := by
  obtain ⟨-, ⟨body, found, -⟩, -⟩ := TransGen.head'_iff.1 h
  obtain ⟨names, way⟩ := Bodies.exists_way_of_transGen h
  refine Bodies.mem_leftRecursive (Bodies.mem_of_body? found)
    (Bodies.isLeftRecursive_of_way found (way.mono ?_) (List.Subset.refl names))
  rintro x y ⟨body, found, calls⟩
  exact ⟨body, found, Bodies.opens_of_callsLeft calls⟩

/-- A body that grows a seed is the whole body of the rule of the seed. -/
theorem body?_of_leftrec (safe : rs.MemoSafe) (nodup : rs.names.Nodup) {b : String × Pattern}
    (hb : b ∈ rs.finished) {inner : Pattern} {seed : String} (h : .leftrec inner seed ∈ b.2.nodes) :
    rs.finished.body? seed = some (.leftrec inner seed) := by
  obtain ⟨whole, plain, hbody⟩ := plain_of_unwrapped safe.unwrapped hb
  have found := Bodies.body?_of_mem (rs.names_finished ▸ nodup) hb
  rw [hbody] at h found
  unfold Bodies.wrapLeftRecursive at h found
  split at h
  · next wrapped =>
    rw [if_pos wrapped] at found
    rcases List.mem_cons.1 h with same | inside
    · cases same
      exact found
    · exact (plain _ inside).elim
  · exact (plain _ h).elim

/-- A rule that is kept, applied where the seed of another one grows, does not come back to the seed
before anything is consumed. -/
theorem apart (safe : rs.MemoSafe) (nodup : rs.names.Nodup) {rule seed first : String}
    (kept : rs.finished.Kept rule) (within : rs.finished.Within seed rule)
    (call : rs.finished.LeftCall rule first) : ¬ rs.finished.LeftPath first seed := by
  intro path
  obtain ⟨b, hb, inner, hinner, next, opens, rest⟩ := within
  -- The way from the rule to the seed and on, where the seed grows, to the rule.
  have grows : rs.finished.LeftCall seed next :=
    ⟨_, safe.body?_of_leftrec nodup hb hinner, .inr opens⟩
  have back : rs.finished.LeftPath first rule := path.trans (.step grows rest)
  have steps := safe.steps_of_leftPath back (.step call .refl)
  rcases safe.step_of_leftCall call back with ⟨-, wrapped⟩ | step
  · obtain ⟨whole, found⟩ := wrapped
    exact kept.2 whole rule found
  · have recursive := mem_leftRecursive_of_steps (.head' step steps)
    obtain ⟨body, found, -⟩ := call
    obtain ⟨inScope, -, rfl⟩ := body?_finished found
    rw [Bodies.wrapLeftRecursive, if_pos (List.contains_iff_mem.2 recursive)] at found
    exact kept.2 _ rule found

/-- What is kept depends on nothing but the offset. -/
theorem cacheable (safe : rs.MemoSafe) (nodup : rs.names.Nodup) : rs.finished.Cacheable where
  notMemo b hb := by
    obtain ⟨inner, plain, hbody⟩ := plain_of_unwrapped safe.unwrapped hb
    have notMemo : inner.Everywhere Pattern.NotMemo := fun q hq => q.notMemo_of_plain (plain q hq)
    rw [hbody]
    exact Bodies.everywhere_wrapLeftRecursive trivial notMemo
  knows _ memoizable _ found := safe.knows memoizable found
  apart _ kept _ within _ call := safe.apart nodup kept within call

end MemoSafe

end RuleSet

namespace Match

open Pattern

/-- **Memoization is only an optimization** for rules of which those are selected that depend on
nothing but the offset: matching with memoization has the result of matching without. -/
theorem run_memoize {rs : RuleSet} {leftAssoc : List String} {g g' : Grammar}
    (plain : rs.normalize ⟨false, leftAssoc⟩ = .ok g)
    (memoized : rs.normalize ⟨true, leftAssoc⟩ = .ok g') (safe : rs.MemoSafe)
    {source : String} {input : Array Char} {n m : Nat} {a b : MatchResult}
    (ha : g'.run n source input = some a) (hb : g.run m source input = some b) : a = b := by
  have nodup := rs.nodup_of_normalize plain
  have bodies : g.bodies = rs.finished := by
    obtain ⟨-, -, rfl⟩ := RuleSet.normalize_eq_ok.1 plain
    rfl
  exact run_eq_of_cacheable plain memoized (bodies ▸ safe.cacheable nodup) ha hb

/-! ## A sum of units behind blanks -/

/-- The expression `cat([u, u])`. -/
def twiceUnit : Expr := .qual (.var "cat") [.call [.arr [.var "u", .var "u"]]]

/-- The body of the rule `e = e '+' n | n`. -/
def tallyBody : Pattern := .choice [.seq [.apply "e", .lit "+", .apply "n"], .apply "n"]

/-- The terms of the rule `n = ~'+' 'x':u -> cat([u, u])`. -/
def unitTerms : List Pattern := [.not (.lit "+"), .label (.lit "x") "u", .action twiceUnit]

/-- The rules `s = w e` and `w = ' '*`, and those of the sum and of its units. -/
def tallyRules : RuleSet := .ofDefinitions [("s", .seq [.apply "w", .apply "e"]),
  ("w", .star (.lit " ")), ("e", tallyBody), ("n", .seq unitTerms)]

/-- The grammar of these rules. -/
def tallyGrammar : Grammar := ⟨[("s", .seq [.apply "w", .apply "e"]), ("w", .star (.lit " ")),
  ("e", .leftrec tallyBody "e"), ("n", .scope "n" unitTerms)], []⟩

/-- The grammar of these rules with the outcomes kept of all but the left-recursive one. -/
def tallyMemoized : Grammar := ⟨[("s", .memo (.seq [.apply "w", .apply "e"]) "s"),
  ("w", .memo (.star (.lit " ")) "w"), ("e", .leftrec tallyBody "e"),
  ("n", .memo (.scope "n" unitTerms) "n")], []⟩

theorem tallyRules_normalize : tallyRules.normalize ⟨false, []⟩ = .ok tallyGrammar ∧
    tallyRules.normalize ⟨true, []⟩ = .ok tallyMemoized :=
  ⟨by cbv, by cbv⟩

theorem tallyRules_finished : tallyRules.finished = tallyGrammar.bodies := by
  cbv

/-- No rule applies the starting rule. -/
theorem tallyRules_not_leftCall (name : String) : ¬ tallyRules.finished.LeftCall name "s" := by
  rintro ⟨body, found, opens⟩
  have mem := Bodies.mem_of_body? found
  rw [tallyRules_finished] at mem
  simp only [tallyGrammar, List.mem_cons, Prod.mk.injEq, List.not_mem_nil, or_false] at mem
  rcases mem with ⟨-, rfl⟩ | ⟨-, rfl⟩ | ⟨-, rfl⟩ | ⟨-, rfl⟩ <;>
    simp [tallyBody, unitTerms, Pattern.opens, opensAny, opensTerms] at opens

/-- The unit is bound where it is looked up, and no label is named like the function.  The sum is
applied behind the blanks, which may be empty, but does not come back to the starting rule. -/
theorem tallyRules_memoSafe : tallyRules.MemoSafe where
  unwrapped := by
    simp [tallyRules, RuleSet.ofDefinitions, tallyBody, unitTerms, Everywhere, nodes, nodesAll,
      PlainNode]
  bound b hb := by
    have reads : twiceUnit.reads = ["u", "u"] := rfl
    rw [tallyRules_finished] at hb
    simp only [tallyGrammar, List.mem_cons, List.not_mem_nil, or_false] at hb
    refine .inr ?_
    rcases hb with rfl | rfl | rfl | rfl
    · simp [Knows, KnowsTerms]
    · simp [Knows]
    · simp [tallyBody, Knows, KnowsEach, KnowsTerms]
    · simp [unitTerms, Knows, KnowsTerms, Binds, reads]
  shows caller callee hidden back := by
    obtain ⟨body, found, opens, none⟩ := hidden
    have mem := Bodies.mem_of_body? found
    simp only [tallyRules, RuleSet.definitions_ofDefinitions, List.mem_cons, Prod.mk.injEq,
      List.not_mem_nil, or_false] at mem
    rcases mem with ⟨rfl, rfl⟩ | ⟨-, rfl⟩ | ⟨-, rfl⟩ | ⟨-, rfl⟩
    · rcases back.last with rfl | ⟨name, call⟩
      · simp [Pattern.opens, opensTerms] at opens
      · exact tallyRules_not_leftCall name call
    · exact opens
    · refine none ?_
      have names : "e" = callee ∨ "n" = callee := by
        simpa [tallyBody, Pattern.opens, opensAny, opensTerms, nullable] using opens
      simpa [tallyBody, CallsLeft, Pattern.opens, opensAny, opensTerms, isPassed] using names
    · simp [unitTerms, Pattern.opens, opensTerms, nullable] at opens

/-- Matching ` x+x` has one result with memoization and without.  When the sum has grown, the first
unit is tried once more, and with memoization its outcome is known by then. -/
theorem run_memoize_sum : ∃ a b, tallyMemoized.run 30 "test" #[' ', 'x', '+', 'x'] = some a ∧
    tallyGrammar.run 30 "test" #[' ', 'x', '+', 'x'] = some b ∧ a = b := by
  have ha : tallyMemoized.run 30 "test" #[' ', 'x', '+', 'x'] = some (.accepted (.str "xx") 4) := rfl
  have hb : tallyGrammar.run 30 "test" #[' ', 'x', '+', 'x'] = some (.accepted (.str "xx") 4) := rfl
  have same := run_memoize tallyRules_normalize.1 tallyRules_normalize.2 tallyRules_memoSafe ha hb
  exact ⟨_, _, ha, hb, same⟩

end Match

end Pegboard
