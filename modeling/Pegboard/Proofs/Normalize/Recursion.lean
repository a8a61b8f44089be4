import Pegboard.Proofs.Match.Progress
import Pegboard.Proofs.Normalize.Reachability

/-!
# Recursion without progress

A rule that comes to apply itself again where it started does so through rules each of which applies
the next one before anything is consumed.  If the bodies as they are written have left calls for all
these steps, the detector finds the recursion, and the body of the rule is wrapped.

A step is lost on the detector only behind a term that may be empty but is not one that is passed: an
empty group, an empty literal, an action, the end of the input, a group of terms that may all be
empty, or a rule that may be empty.  The last section has a rule that recurs behind an empty group.
No amount of fuel is enough to apply it.

## Main Definitions

* `Passes`: what a task comes to, with the rules that are applied on the way.
* `Bodies.Hides`: the body of a rule may apply another one where it starts, but has no left call of
  it.
* `Bodies.Overlooks`: the detector loses the step from one rule to another.

## Main Results

* `Passes.leftCalls`: on the way from a rule to one that is applied at the same offset, every rule
  may apply the next one where it starts.
* `recursion_wrapped_or_overlooked`: on the way from a rule back to itself a rule is wrapped, or a
  step is hidden behind a term that is not passed.
-/

namespace Pegboard

namespace Bodies

variable {bodies : Bodies} {empty : String → Prop} {caller callee : String}

/-- The body of one rule may apply another where it starts, but has no left call of it. -/
def Hides (bodies : Bodies) (empty : String → Prop) (caller callee : String) : Prop :=
  ∃ body, bodies.body? caller = some body ∧ body.opens (Pattern.nullable empty) callee ∧
    ¬ body.CallsLeft callee

/-- Nothing is hidden if all terms that may be empty are passed. -/
theorem not_hides {below : String → Prop} (sub : ∀ name, below name → empty name)
    (passed : ∀ b ∈ bodies, b.2.Everywhere fun t => t.nullable empty → t.isPassed = true) :
    ¬ bodies.Hides below caller callee := by
  rintro ⟨body, found, opens, none⟩
  refine none (Pattern.opens_of_skip body (fun t ht hempty => ?_) opens)
  exact passed _ (mem_of_body? found) t ht (Pattern.nullable_mono sub t hempty)

/-- The detector loses a step on its way: the body of one rule may apply another where it starts, but
only behind a term that may be empty and that the detector takes to consume input. -/
def Overlooks (bodies : Bodies) (empty : String → Prop) (target : String) (path : List String)
    (caller callee : String) : Prop :=
  ∃ body, bodies.body? caller = some body ∧ body.opens (Pattern.nullable empty) callee ∧
    ¬ body.opens (fun t => bodies.leads target path t ≠ .no) callee

end Bodies

/-- Where the detector loses a step, the body as it is written has no left call. -/
theorem RuleSet.hides_of_overlooks {rs : RuleSet} {empty : String → Prop} {target : String}
    {path : List String} {caller callee : String}
    (h : rs.scopedBodies.Overlooks empty target path caller callee) :
    Bodies.Hides rs.definitions empty caller callee := by
  obtain ⟨inScope, found, opens, lost⟩ := h
  rw [scopedBodies, Bodies.body?_mapBodies, Option.map_eq_some_iff] at found
  obtain ⟨body, found, rfl⟩ := found
  refine ⟨body, found, Pattern.opens_of_insertScopes opens, fun calls => lost ?_⟩
  exact Bodies.opens_of_callsLeft ((Pattern.callsLeft_insertScopes body).2 calls)

namespace Match

open Pattern

variable {g : Grammar} {input : Array Char}

/-! ## The rules on the way -/

/-- The rule that a task is to apply, if that is all of it. -/
def Task.applied? : Task → Option String
  | .whole (.apply name) => some name
  | _ => none

/-- Carrying out a task comes to another one, and the rules that are applied on the way, one inside
the other, are those of a list. -/
inductive Passes (g : Grammar) (input : Array Char) :
    List String → Task → MatchState → Task → MatchState → Prop where
  | refl {task s} : Passes g input [] task s task s
  | step {names task s part t target u} (call : Calls g input task s part t)
      (rest : Passes g input names part t target u) :
      Passes g input (task.applied?.toList ++ names) task s target u

theorem Passes.reaches {names : List String} {task target : Task} {s u : MatchState}
    (h : Passes g input names task s target u) : Reaches g input task s target u := by
  induction h with
  | refl => exact .refl
  | step call _ ih => exact .step call ih

/-- A task that has a part applies a rule, and the part is its body, or it is none that applies a
rule. -/
theorem Calls.applied {task part : Task} {s t : MatchState} (h : Calls g input task s part t) :
    (∃ name body, task = .whole (.apply name) ∧ g.body? name = some body ∧ part = .whole body) ∨
      task.applied? = none := by
  cases h with
  | @rule name body _ found => exact .inl ⟨name, body, rfl, found, rfl⟩
  | _ => exact .inr rfl

/-- If the body of a rule opens the first rule on a way of left calls, the rule may go before it. -/
theorem leftCalls_cons {rule first : String} {others : List String} {body : Pattern}
    (found : g.body? rule = some body) (opens : body.opens (nullable g.bodies.mayBeEmpty) first)
    (calls : ∀ x y, [x, y] <:+: first :: others → g.bodies.LeftCall x y) (x y : String)
    (h : [x, y] <:+: rule :: first :: others) : g.bodies.LeftCall x y := by
  rcases List.infix_cons_iff.1 h with h | h
  · obtain ⟨hx, hrest⟩ := List.cons_prefix_cons.1 h
    obtain ⟨hy, -⟩ := List.cons_prefix_cons.1 hrest
    subst hx hy
    exact ⟨body, found, opens⟩
  · exact calls x y h

/-- On a way to the application of a rule at the offset where a task starts, the task opens the first
rule, and every rule may apply the next one where it starts. -/
theorem Passes.leftCalls {names : List String} {task : Task} {s u : MatchState} {target : String}
    (h : Passes g input names task s (.whole (.apply target)) u)
    (ready : Ready g.bodies.mayBeEmpty task s) (same : u.pos = task.origin s) :
    (∃ first rest, names ++ [target] = first :: rest ∧ task.opens g.bodies.mayBeEmpty first) ∧
      ∀ x y, [x, y] <:+: names ++ [target] → g.bodies.LeftCall x y := by
  generalize hgoal : Task.whole (.apply target) = goal at h
  induction h with
  | refl =>
    subst hgoal
    refine ⟨⟨target, [], rfl, rfl⟩, fun x y h => ?_⟩
    have := h.length_le
    simp at this
  | @step names task s part t goal u call rest ih =>
    have next := call.descends g.bodies.mayBeEmpty_closed ready
    have last := (rest.reaches.ready g.bodies.mayBeEmpty_closed next.ready).2
    rw [← hgoal] at last
    have horigin : part.origin t = task.origin s :=
      Nat.le_antisymm (same ▸ last) next.ahead
    obtain ⟨⟨first, others, hnames, opens⟩, calls⟩ :=
      ih next.ready (same.trans horigin.symm) hgoal
    rcases call.applied with ⟨rule, body, rfl, found, rfl⟩ | happ
    · -- The body of the rule opens the rest of the way.
      refine ⟨⟨rule, names ++ [target], rfl, rfl⟩, ?_⟩
      show ∀ x y, [x, y] <:+: rule :: (names ++ [target]) → g.bodies.LeftCall x y
      rw [hnames] at calls ⊢
      exact leftCalls_cons found opens calls
    · rw [happ]
      refine ⟨⟨first, others, hnames, ?_⟩, calls⟩
      rcases next.opened horigin with keeps | ⟨rule, body, rfl, -, -⟩
      · exact keeps first opens
      · contradiction

/-- The first of two neighbours in a list is not the last of it. -/
theorem mem_of_pair {x y z : String} {l : List String} (h : [x, y] <:+: l ++ [z]) : x ∈ l := by
  obtain ⟨before, after, h⟩ := h
  have hlast := congrArg List.dropLast h
  rw [List.dropLast_concat, List.append_assoc, List.dropLast_append_of_ne_nil (by simp)] at hlast
  rw [← hlast]
  exact List.mem_append_right _ (by simp)

/-- If the body of a rule comes to apply the rule again where it started, then a rule on the way is
wrapped, or the detector loses a step on the way.  That it loses only where the body as it is written
has no left call, so that the call stands behind a term that may be empty and is not passed. -/
theorem recursion_wrapped_or_overlooked {rs : RuleSet} {options : NormalizeOptions}
    (normalized : rs.normalize options = .ok g) {r : String} {body : Pattern}
    (found : g.body? r = some body) {names : List String} {s t : MatchState}
    (coherent : Coherent g s)
    (again : Passes g input names (.whole body) s (.whole (.apply r)) t) (same : t.pos = s.pos) :
    (∃ rule ∈ r :: names, ∃ inner, g.body? rule = some (.leftrec inner rule)) ∨
      ∃ caller callee, [caller, callee] <:+: r :: names ++ [r] ∧
        rs.scopedBodies.Overlooks g.bodies.mayBeEmpty r (r :: names) caller callee ∧
          Bodies.Hides rs.definitions g.bodies.mayBeEmpty caller callee := by
  have ready : Ready g.bodies.mayBeEmpty (.whole body) s :=
    ⟨coherent.placed, all_body g.bodies.mayBeEmpty_closed.wrapper found, trivial⟩
  obtain ⟨⟨first, others, hnames, opens⟩, calls⟩ := again.leftCalls ready same
  have steps : ∀ x y, [x, y] <:+: r :: names ++ [r] → g.bodies.LeftCall x y := by
    rw [List.cons_append, hnames]
    exact leftCalls_cons found opens (hnames ▸ calls)
  by_cases wrapped : ∃ rule ∈ r :: names, ∃ inner, g.body? rule = some (.leftrec inner rule)
  · exact .inl wrapped
  refine .inr (Classical.byContradiction fun none => ?_)
  -- Without a wrapped rule, every step on the way is one of the rules as written.
  have follows : ∀ x y, [x, y] <:+: r :: names ++ [r] →
      rs.scopedBodies.Follows r (r :: names) x y := by
    intro x y h
    obtain ⟨body, found, opens⟩ := steps x y h
    rcases rs.body?_of_normalize normalized found with
      ⟨inner, rfl⟩ | ⟨written, hwritten, -, hbody⟩
    · exact absurd ⟨x, mem_of_pair h, inner, found⟩ wrapped
    · have hopens : written.opens (nullable g.bodies.mayBeEmpty) y := by
        rcases hbody with rfl | rfl
        · exact opens_of_finish opens
        · exact opens_of_finish opens
      refine Classical.byContradiction fun lost => ?_
      have overlooked : rs.scopedBodies.Overlooks g.bodies.mayBeEmpty r (r :: names) x y :=
        ⟨written, hwritten, hopens, fun hpass => lost ⟨written, hwritten, hpass⟩⟩
      exact none ⟨x, y, h, overlooked, RuleSet.hides_of_overlooks overlooked⟩
  rcases rs.body?_of_normalize normalized found with
    ⟨inner, rfl⟩ | ⟨written, hwritten, hno, -⟩
  · exact wrapped ⟨r, .head _, inner, found⟩
  · exact hno (Bodies.mem_leftRecursive (Bodies.mem_of_body? hwritten)
      (Bodies.isLeftRecursive_of_follows hwritten follows))

/-! ## A recursion through an option and a lookahead -/

/-- The grammar of the rules `a = 'x'? b | 'z'`, `b = ~c a:v` and `c = 'w' a`. -/
def crossingGrammar : Grammar :=
  ⟨[("a", .leftrec (.choice [.seq [.opt (.lit "x"), .apply "b"], .lit "z"]) "a"),
    ("b", .leftrec (.scope "b" [.not (.apply "c"), .label (.apply "a") "v"]) "b"),
    ("c", .seq [.lit "w", .apply "a"])], []⟩

theorem crossingRules_normalize : crossingRules.normalize .default = .ok crossingGrammar := by
  cbv

/-- None of these rules may be empty, so that only the option and the lookahead are. -/
theorem crossing_shows (caller callee : String) :
    ¬ Bodies.Hides crossingRules.definitions crossingGrammar.bodies.mayBeEmpty caller callee := by
  have closed : crossingGrammar.bodies.EmptyClosed (· = BuiltinRule.end.name) := by
    refine ⟨fun name body found hempty => ?_, ?_, fun _ => rfl⟩
    · have mem := Bodies.mem_of_body? found
      simp only [crossingGrammar, List.mem_cons, Prod.mk.injEq, List.not_mem_nil, or_false] at mem
      rcases mem with ⟨-, rfl⟩ | ⟨-, rfl⟩ | ⟨-, rfl⟩ <;>
        simp [nullable, nullableAny, nullableAll, BuiltinRule.name] at hempty
    · simp [crossingGrammar, Everywhere, nodes, nodesAll, WrapClosed, nullable, nullableAny,
        nullableAll, BuiltinRule.name]
  refine Bodies.not_hides (fun name h => h _ closed) ?_
  simp [crossingRules, RuleSet.definitions, Everywhere, nodes, nodesAll, nullable, nullableAny,
    nullableAll, BuiltinRule.name, isPassed]

/-- On `z` the rule comes back to itself through the second rule, with nothing consumed. -/
theorem crossing_passes {body : Pattern} (found : crossingGrammar.body? "a" = some body) : ∃ t,
    Passes crossingGrammar #['z'] ["b"] (.whole body) .initial (.whole (.apply "a")) t ∧
      t.pos = 0 := by
  cases found
  refine ⟨_, .step (.grown rfl rfl) (.step .growHead (.step .choice (.step .altsHead (.step .seq
    (.step (.termsTail (.opt (.atom rfl)) rfl) (.step .termsHead (.step (.rule rfl)
      (.step (.grown rfl rfl) (.step .growHead (.step .scope
        (.step (.termsTail (.not (.rule rfl (.seq (.termsStop (.atom rfl) rfl)))) rfl)
          (.step .termsHead (.step .label .refl))))))))))))), rfl⟩

/-! ## A rule that recurs behind an empty group -/

/-- The body of the rule `a = () a | 'x'`. -/
def emptyGroupBody : Pattern := .choice [.seq [.empty, .apply "a"], .lit "x"]

/-- The rule `a = () a | 'x'`. -/
def emptyGroupRules : RuleSet := .ofDefinitions [("a", emptyGroupBody)]

/-- The grammar of that rule. -/
def emptyGroupGrammar : Grammar := ⟨[("a", emptyGroupBody)], []⟩

/-- The rule is not wrapped. -/
theorem emptyGroupRules_normalize :
    emptyGroupRules.normalize .default = .ok emptyGroupGrammar := by
  cbv

/-- The recursion through the option and the lookahead is wrapped, for nothing is hidden on the way.
On the way through the empty group no rule is wrapped: the detector is stopped by the group, and it
is not a term that is passed. -/
theorem recursion_crossing_emptyGroup :
    (∃ rule ∈ ["a", "b"], ∃ inner, crossingGrammar.body? rule = some (.leftrec inner rule)) ∧
      emptyGroupRules.scopedBodies.Overlooks emptyGroupGrammar.bodies.mayBeEmpty "a" ["a"] "a" "a" ∧
      Bodies.Hides emptyGroupRules.definitions emptyGroupGrammar.bodies.mayBeEmpty "a" "a" := by
  constructor
  · obtain ⟨t, again, same⟩ := crossing_passes rfl
    rcases recursion_wrapped_or_overlooked crossingRules_normalize rfl
      (coherent_start crossingGrammar 0) again same with wrapped | ⟨caller, callee, h, -, hidden⟩
    · exact wrapped
    · exact absurd hidden (crossing_shows caller callee)
  · have again : Passes emptyGroupGrammar #[] [] (.whole emptyGroupBody) .initial
        (.whole (.apply "a")) (MatchState.initial.succeed .null |>.succeed .null) :=
      .step .choice (.step .altsHead (.step .seq (.step (.termsTail (.atom rfl) rfl)
        (.step .termsHead .refl))))
    rcases recursion_wrapped_or_overlooked emptyGroupRules_normalize rfl
      (coherent_start emptyGroupGrammar 0) again rfl with ⟨rule, hrule, inner, found⟩ | lost
    · rw [List.mem_singleton.1 hrule] at found
      have hbody : some emptyGroupBody = some (.leftrec inner "a") := found
      simp [emptyGroupBody] at hbody
    · obtain ⟨caller, callee, h, lost⟩ := lost
      have hpair : [caller, callee] = ["a", "a"] := h.eq_of_length rfl
      simp only [List.cons.injEq, and_true] at hpair
      obtain ⟨rfl, rfl⟩ := hpair
      exact lost

/-- No amount of fuel is enough to apply the rule. -/
theorem eval_emptyGroup (input : Array Char) (n : Nat) (s : MatchState) :
    eval emptyGroupGrammar input n (.apply "a") s = none := by
  -- The same holds of the body and of its first alternative, each with one unit less.
  suffices h : (∀ s, eval emptyGroupGrammar input n (.apply "a") s = none) ∧
      (∀ s, eval emptyGroupGrammar input n emptyGroupBody s = none) ∧
      ∀ s, eval emptyGroupGrammar input n (.seq [.empty, .apply "a"]) s = none from h.1 s
  induction n with
  | zero => exact ⟨fun _ => rfl, fun _ => rfl, fun _ => rfl⟩
  | succ n ih =>
    obtain ⟨rule, body, first⟩ := ih
    refine ⟨fun s => ?_, fun s => ?_, fun s => ?_⟩
    · have found : emptyGroupGrammar.body? "a" = some emptyGroupBody := rfl
      simp [eval_succ, step, found, applyRule, body]
    · simp [eval_succ, emptyGroupBody, step, choice, first]
    · rw [eval_succ, step, sequence, terms]
      cases n with
      | zero => rfl
      | succ m =>
        have hempty : eval emptyGroupGrammar input (m + 1) .empty (s.succeed .null)
            = some ((s.succeed .null).succeed .null) := rfl
        have hok : ((s.succeed .null).succeed .null).failed = false := rfl
        simp [hempty, hok, terms, rule]

end Match

end Pegboard
