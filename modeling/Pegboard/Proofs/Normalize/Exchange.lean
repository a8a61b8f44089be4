import Pegboard.Proofs.Grammar.Roundtrip
import Pegboard.Proofs.Match.Essence
import Pegboard.Proofs.Match.Unwrapping
import Pegboard.Proofs.Normalize.Source
import Pegboard.Proofs.Normalize.Tidy

/-!
# Normalizing again

The bodies of a normalized grammar can be exchanged and normalized once more.  Scopes are put around
closed patterns only, no label is put in again, and nothing is left to simplify, so the essence of a
body stays.  But a body that is wrapped for left recursion is wrapped a second time, and then its rule
fails.  And a rule that may start with such a one is wrapped too, which makes no difference as long as
the rule does not come upon its seed.

## Main Definitions

* `Grammar.rescoped`: a grammar that is normalized again, without the wrappers that this puts in.

## Main Results

* `Pattern.essence_insertScopes`: scopes that are put into a tidy body leave its essence.
* `RuleSet.rewrapped_rescoped`: what is normalized again is the grammar with more wrappers.
* `renormalize`: the grammar that is normalized again gives the same results where no seeds are found.
-/

namespace Pegboard

namespace Pattern

/-! ## Scopes around closed patterns -/

section Essence

variable {seen : String → Bool} {f : Expr → Expr}

theorem closed_scopeNode {rule : String} {p : Pattern} (h : p.Closed) :
    (scopeNode rule p).Closed := by
  have alternative : ∀ q : Pattern, q.Closed → (scopeAlternative rule q).Closed := by
    intro q hq
    unfold scopeAlternative
    split
    · exact hq
    · exact hq
    · split
      · trivial
      · exact hq
  unfold scopeNode
  split
  · split
    · trivial
    · exact h
  · refine closedAll_iff.2 fun q hq => ?_
    obtain ⟨r, hr, rfl⟩ := List.mem_map.1 hq
    exact alternative r (closedAll_iff.1 h r hr)
  · exact h

theorem essence_scopeAlternative {rule : String} {p : Pattern} (h : p.Closed) :
    (scopeAlternative rule p).essence seen f = p.essence seen f := by
  unfold scopeAlternative
  split
  · rfl
  · rfl
  · split
    · exact essence_scope_of_closed (closedAll_map_essence ⟨h, trivial⟩)
    · rfl

/-- Scopes that are put into a tidy node stand around closed patterns. -/
theorem essence_scopeNode {rule : String} {p : Pattern} (h : p.TidyNode) :
    (scopeNode rule p).essence seen f = p.essence seen f := by
  unfold scopeNode
  split
  · split
    · exact essence_scope_of_closed (closedAll_map_essence h)
    · rfl
  · rw [essence_choice, essence_choice, List.map_map]
    refine congrArg (fun ps => simplifyNode (.choice ps)) ?_
    exact List.map_congr_left fun q hq => essence_scopeAlternative (closedAll_iff.1 h q hq)
  · rfl

/-- Scopes that are put into a tidy body leave its essence. -/
theorem essence_insertScopes {rule : String} {p : Pattern} (tidy : p.Tidy) (closed : p.Closed) :
    (p.insertScopes rule).essence seen f = p.essence seen f := by
  have keep : ∀ q : Pattern, q.Closed → (q.rebuild (scopeNode rule)).Closed :=
    closed_rebuild fun _ => closed_scopeNode
  have rebuilt : (p.rebuild (scopeNode rule)).essence seen f = p.essence seen f := by
    clear closed
    induction p using induction_parts with
    | node p ih =>
      have own := (everywhere_iff.1 tidy).1
      have parts := (everywhere_iff.1 tidy).2
      rw [rebuild_eq, essence_scopeNode (tidyNode_mapParts keep own), essence_eq, mapParts_mapParts,
        mapParts_congr fun q hq => ih q hq (parts q hq), ← essence_eq]
  unfold insertScopes
  split
  · next hchoice => rw [← hchoice, rebuilt]
  · rw [essence_scopeAlternative (keep p closed), rebuilt]

end Essence

/-- Around a body that is wrapped there may be a scope, and then it is the only term in it. -/
theorem insertScopes_leftrec (p : Pattern) (rule : String) : ∃ q,
    (leftrec p rule).insertScopes rule = .leftrec q rule ∨
      (leftrec p rule).insertScopes rule = .scope rule [.leftrec q rule] := by
  let q := p.rebuild (scopeNode rule)
  have rebuilt : (leftrec p rule).insertScopes rule
      = if (leftrec q rule).hasLabel then .scope rule [.leftrec q rule] else .leftrec q rule := rfl
  refine ⟨q, ?_⟩
  rw [rebuilt]
  split
  · exact .inr rfl
  · exact .inl rfl

end Pattern

/-! ## Grammars that are normalized again -/

/-- A grammar that is normalized again, without the wrappers that this puts in. -/
def Grammar.rescoped (g : Grammar) : Grammar :=
  ⟨g.bodies.mapBodies fun rule body => (body.insertScopes rule).simplify, g.leftAssoc⟩

theorem Grammar.body?_rescoped (g : Grammar) (rule : String) :
    g.rescoped.body? rule = (g.body? rule).map fun body => (body.insertScopes rule).simplify :=
  Bodies.body?_mapBodies (fun rule body => (body.insertScopes rule).simplify) g.bodies rule

theorem Grammar.mem_rescoped {g : Grammar} {b : String × Pattern} (hb : b ∈ g.rescoped.bodies) :
    ∃ body, (b.1, body) ∈ g.bodies ∧ b.2 = (body.insertScopes b.1).simplify := by
  have hb : b ∈ g.bodies.mapBodies fun rule body => (body.insertScopes rule).simplify := hb
  exact Bodies.mem_mapBodies.1 hb

/-- What is so of all nodes of a grammar, and of all that the passes put in, stays so. -/
theorem Grammar.everywhere_rescoped {g : Grammar} {P : Pattern → Prop} (steady : Pattern.Steady P)
    (rules : ∀ b ∈ g.bodies, b.2.Everywhere P) : ∀ b ∈ g.rescoped.bodies, b.2.Everywhere P := by
  intro b hb
  obtain ⟨body, hbody, hb⟩ := Grammar.mem_rescoped hb
  rw [hb]
  exact steady.simplify (steady.insertScopes (rules _ hbody))

namespace RuleSet

variable {rs : RuleSet} {g : Grammar}

theorem scopedBodies_toRuleSet (g : Grammar) :
    g.toRuleSet.scopedBodies = g.bodies.mapBodies Pattern.insertScopes := by
  rw [scopedBodies, Grammar.toRuleSet, definitions_ofDefinitions]

/-- The body of a rule that is normalized again. -/
theorem body?_finished_toRuleSet (g : Grammar) (rule : String) :
    Bodies.body? g.toRuleSet.finished rule = (g.body? rule).map fun body =>
      Bodies.finishBody g.toRuleSet.scopedBodies.leftRecursive rule (body.insertScopes rule) := by
  rw [finished, Bodies.body?_mapBodies, scopedBodies_toRuleSet, Bodies.body?_mapBodies,
    Option.map_map]
  rfl

/-- A body that is wrapped is wrapped again. -/
theorem doubled_finished {rule : String} {inner : Pattern}
    (wrapped : g.body? rule = some (.leftrec inner rule)) :
    ∃ p, Bodies.body? g.toRuleSet.finished rule = some (.leftrec p rule) ∧
      Match.Doubled rule p := by
  obtain ⟨q, forms⟩ := inner.insertScopes_leftrec rule
  have found : Bodies.body? g.toRuleSet.scopedBodies rule
      = some ((Pattern.leftrec inner rule).insertScopes rule) := by
    rw [scopedBodies_toRuleSet, Bodies.body?_mapBodies]
    exact congrArg (Option.map _) wrapped
  have recursive : g.toRuleSet.scopedBodies.leftRecursive.contains rule = true := by
    refine List.contains_iff_mem.2 (Bodies.mem_leftRecursive (Bodies.mem_of_body? found) ?_)
    rw [Bodies.isLeftRecursive, Bodies.leads]
    rcases forms with h | h <;> rw [h] <;> simp [Pattern.leads, Pattern.leadsFirst]
  let finish := fun p : Pattern => (p.insertPositional rule).simplify
  refine ⟨finish ((Pattern.leftrec inner rule).insertScopes rule), ?_, finish q, ?_⟩
  · rw [body?_finished_toRuleSet, wrapped, Option.map_some, Bodies.finishBody,
      Bodies.wrapLeftRecursive, if_pos recursive]
    rfl
  · rcases forms with h | h <;> rw [h]
    · exact .inl rfl
    · exact .inr ⟨rule, rfl⟩

/-- What is so of all nodes of the rules, of all that the passes put in, and of all wrappers, is so of
all nodes of the finished bodies. -/
theorem everywhere_finished {P : Pattern → Prop} (steady : Pattern.Steady P)
    (wrapper : ∀ inner rule, P (.leftrec inner rule))
    (rules : ∀ r ∈ rs.rules, r.body.Everywhere P) : ∀ b ∈ rs.finished, b.2.Everywhere P := by
  intro b hb
  obtain ⟨r, hr, -, hbody⟩ := rule_of_finished hb
  rw [hbody]
  exact steady.simplify (steady.insertPositional
    (Bodies.everywhere_wrapLeftRecursive (wrapper _ _) (steady.insertScopes (rules r hr))))

/-- A grammar that is normalized again has more wrappers.  What is wrapped has been so before, or no
body has been wrapped for its rule. -/
theorem rewrapped_rescoped {text : String} (parsed : parseGrammar text = .ok rs)
    (normalized : rs.normalize .default = .ok g) :
    Match.Rewrapped ⟨g.toRuleSet.finished, []⟩ g.rescoped where
  start := by
    rw [finished, Bodies.start_mapBodies _ _ _ [], scopedBodies_toRuleSet,
      Bodies.start_mapBodies _ _ _ []]
    exact Bodies.start_mapBodies _ _ _ _
  unassoc name := by
    refine ⟨rfl, ?_⟩
    show g.leftAssoc.contains name = false
    rw [(normalize_eq_ok.1 normalized).2.2]
    rfl
  undefined name none := by
    have none := (body?_finished_toRuleSet g name).symm.trans none
    rw [g.body?_rescoped, Option.map_eq_none_iff.1 none]
    rfl
  bodies name body found := by
    obtain ⟨written, hwritten, rfl⟩ :=
      Option.map_eq_some_iff.1 ((body?_finished_toRuleSet g name).symm.trans found)
    obtain ⟨-, -, -, settled, -⟩ := rule_of_mem normalized (Bodies.mem_of_body? hwritten)
    have rescoped : g.rescoped.body? name
        = some (((written.insertScopes name).insertPositional name).simplify) := by
      rw [Pattern.insertPositional_of_settled (Pattern.settled_insertScopes settled),
        g.body?_rescoped, hwritten]
      rfl
    rw [Bodies.finishBody, Bodies.wrapLeftRecursive] at found ⊢
    split
    · next again =>
      rw [if_pos again] at found
      refine .inr ⟨_, rfl, rescoped, ?_⟩
      by_cases wrapped : ∃ inner, written = .leftrec inner name
      · obtain ⟨inner, rfl⟩ := wrapped
        obtain ⟨p, found', doubled⟩ := doubled_finished hwritten
        cases found.symm.trans found'
        exact .inr doubled
      · exact .inl (g.everywhere_rescoped Match.steady_notBodyOf
          (Match.notBodyOf_of_text parsed normalized hwritten fun inner h => wrapped ⟨inner, h⟩))
    · exact .inl rescoped
  closed b hb := by
    obtain ⟨body, -, hb⟩ := Grammar.mem_rescoped hb
    exact hb ▸ Pattern.closed_simplify (Pattern.closed_insertScopes b.1 body)
  memoless b hb := by
    have memoless : ∀ b ∈ g.bodies, b.2.Everywhere Pattern.NotMemo := fun _ hb =>
      Match.everywhere_of_text parsed normalized hb Pattern.notMemo_of_plain fun _ => trivial
    rcases List.mem_append.1 hb with hb | hb
    · refine everywhere_finished Pattern.steady_notMemo (fun _ _ => trivial) (fun r hr => ?_) b hb
      have mem : (r.name, r.body) ∈ g.toRuleSet.definitions := List.mem_map_of_mem hr
      rw [Grammar.toRuleSet, definitions_ofDefinitions] at mem
      exact memoless _ mem
    · exact g.everywhere_rescoped Pattern.steady_notMemo memoless b hb

end RuleSet

/-- The rules of a grammar that was normalized from text are read back from their interchange form,
and normalizing them again succeeds.  The grammar that this gives has the same results on every input
that it matches without coming to a left-recursive body that finds a seed, while every rule that was
left-recursive before fails wherever it is applied without a seed. -/
theorem renormalize {text : String} {rs : RuleSet} {g : Grammar}
    (parsed : parseGrammar text = .ok rs) (normalized : rs.normalize .default = .ok g) :
    ∃ rs' g', RuleSet.decode g.toRuleSet.encode = .ok rs' ∧ rs'.normalize .default = .ok g' ∧
      (∀ input, g'.Seedless input → ∀ n m source r r', g.run n source input = some r →
        g'.run m source input = some r' → r' = r) ∧
      ∀ rule inner, g.body? rule = some (.leftrec inner rule) → ∀ input s s',
        s.seeds.get? (rule, s.pos) = none → Match.Run g' input (.whole (.apply rule)) s s' →
          s'.failed = true := by
  have authored := authored_of_parseGrammar parsed
  have tidy : ∀ b ∈ g.bodies, b.2.Tidy := tidy_of_normalize authored normalized
  have closed : ∀ b ∈ g.bodies, b.2.Closed := rs.closed_of_normalize normalized
  have read : RuleSet.decode g.toRuleSet.encode = .ok g.toRuleSet := by
    rw [RuleSet.decode_encode, Grammar.toRuleSet, RuleSet.definitions_ofDefinitions]
  have definitions : g.toRuleSet.definitions = g.bodies.map fun b => (b.1, id b.2) := by
    rw [Grammar.toRuleSet, RuleSet.definitions_ofDefinitions]
    exact (List.map_id' g.bodies).symm
  have normalized' : g.toRuleSet.normalize .default = .ok ⟨g.toRuleSet.finished, []⟩ :=
    RuleSet.normalize_eq_ok.2
      ⟨RuleSet.validate_of_applied normalized (fun _ => rfl) definitions, nofun, rfl⟩
  refine ⟨g.toRuleSet, ⟨g.toRuleSet.finished, []⟩, read, normalized', ?_, ?_⟩
  · intro input seedless n m source r r' hr hr'
    have rewrapped := RuleSet.rewrapped_rescoped parsed normalized
    obtain ⟨k, hk⟩ := rewrapped.run seedless hr'
    have every (p : Pattern) : p.Everywhere (Pattern.SeenNode (fun _ => true) id) :=
      fun _ _ _ _ => ⟨fun _ _ => rfl, fun _ => rfl⟩
    have essence : g.rescoped.essence (fun _ => true) id = g.essence (fun _ => true) id :=
      Grammar.essence_mapBodies fun b hb => by
        rw [Pattern.essence_simplify, Pattern.essence_insertScopes (tidy b hb) (closed b hb)]
    exact Grammar.run_eq_of_essence closed rewrapped.closed (fun b _ => every b.2)
      (fun b _ => every b.2) essence hr hk
  · intro rule inner wrapped input s s' unseeded run
    obtain ⟨p, found, doubled⟩ := RuleSet.doubled_finished wrapped
    have found : Grammar.body? ⟨g.toRuleSet.finished, []⟩ rule = some (.leftrec p rule) := found
    cases run with
    | atom h => simp [Match.atom?, found] at h
    | @rule _ body _ t found' inside =>
      obtain rfl := Option.some.inj (found.symm.trans found')
      have failed := doubled.failed (by rwa [s.entering_seeds, s.entering_pos]) inside
      obtain ⟨blocked, left⟩ := s.leaving_eq rule t
      rw [left]
      exact failed

/-! ## A scope that is put in again, and a wrapper that makes no difference -/

/-- Whether a pattern is no left-recursive body. -/
def Pattern.NotLeftrec : Pattern → Prop
  | .leftrec _ _ => False
  | _ => True

/-- A grammar without left-recursive bodies finds no seeds. -/
theorem Grammar.seedless_of_notLeftrec {g : Grammar}
    (rules : ∀ b ∈ g.bodies, b.2.Everywhere Pattern.NotLeftrec) (input : Array Char) :
    g.Seedless input := by
  intro inner rule s reaches
  have start : Match.All Pattern.NotLeftrec (Match.Task.whole (.apply g.start)).patterns := by
    simp [Match.All, Match.Task.patterns, Pattern.Everywhere, Pattern.nodes, Pattern.NotLeftrec]
  have all := reaches.all (fun _ _ _ found => Match.all_body rules found _ (.head _)) start
  exact all.here.elim

/-- A text with a group whose first term gets a label by its position. -/
def groupedText : String := "a = ('x' 'y' -> _1) 'z'\n"

/-- The rules of that text. -/
def groupedRules : RuleSet :=
  ⟨[⟨"a", .choice [.seq [.paren (.choice [.seq [.lit "x", .lit "y", .action (.var "_1")]]),
    .lit "z"]], ⟨0, 1⟩⟩]⟩

/-- The scope that is put around the group with its label. -/
def labelledGroup : Pattern :=
  .scope "a" [.label (.lit "x") "_1", .lit "y", .action (.var "_1")]

/-- The grammar of that text. -/
def groupedGrammar : Grammar := ⟨[("a", .seq [labelledGroup, .lit "z"])], []⟩

/-- The same, normalized again: now the whole body has a label in it, and becomes a scope. -/
def regroupedGrammar : Grammar := ⟨[("a", .scope "a" [labelledGroup, .lit "z"])], []⟩

theorem groupedText_parse : parseGrammar groupedText = .ok groupedRules := by cbv

theorem groupedRules_normalize : groupedRules.normalize .default = .ok groupedGrammar := by cbv

theorem groupedGrammar_normalize :
    groupedGrammar.toRuleSet.normalize .default = .ok regroupedGrammar := by cbv

/-- A text with a rule that may start with a left-recursive one. -/
def forkText : String := "s = 'k' | e\ne = e 'x' | 'y'\n"

/-- The rules of that text. -/
def forkRules : RuleSet :=
  ⟨[⟨"s", .choice [.seq [.lit "k"], .seq [.apply "e"]], ⟨0, 1⟩⟩,
    ⟨"e", .choice [.seq [.apply "e", .lit "x"], .seq [.lit "y"]], ⟨12, 13⟩⟩]⟩

/-- The body of `s = 'k' | e`. -/
def forkBody : Pattern := .choice [.lit "k", .apply "e"]

/-- The body of `e = e 'x' | 'y'`, as it grows. -/
def trailBody : Pattern := .leftrec (.choice [.seq [.apply "e", .lit "x"], .lit "y"]) "e"

/-- The grammar of that text. -/
def forkGrammar : Grammar := ⟨[("s", forkBody), ("e", trailBody)], []⟩

/-- The same, normalized again: both bodies are wrapped. -/
def reforkedGrammar : Grammar := ⟨[("s", .leftrec forkBody "s"), ("e", .leftrec trailBody "e")], []⟩

theorem forkText_parse : parseGrammar forkText = .ok forkRules := by cbv

theorem forkRules_normalize : forkRules.normalize .default = .ok forkGrammar := by cbv

theorem forkGrammar_normalize :
    forkGrammar.toRuleSet.normalize .default = .ok reforkedGrammar := by cbv

/-- What matching `k` comes to: the first rule grows from its first alternative. -/
def OnFirst : Match.Task → MatchState → Prop
  | .whole (.apply name), s => name = "s" ∧ s = .initial
  | .whole (.leftrec p name), s => p = forkBody ∧ name = "s" ∧ s = .initial
  | .grow p key, _ => p = forkBody ∧ key = ("s", 0)
  | .whole (.choice ps), s => ps = [.lit "k", .apply "e"] ∧ s.pos = 0
  | .alts start ps, s => start = 0 ∧ ps = [.lit "k", .apply "e"] ∧ s.pos = 0
  | .whole (.lit _), _ => True
  | _, _ => False

theorem onFirst_of_calls {task part : Match.Task} {s t : MatchState} (on : OnFirst task s)
    (call : Match.Calls reforkedGrammar #['k'] task s part t) : OnFirst part t := by
  cases call with
  | altsHead =>
    obtain ⟨-, same, -⟩ := on
    cases same
    trivial
  | altsTail run bad =>
    -- The literal is there, so the second alternative is not tried.
    obtain ⟨-, same, hpos⟩ := on
    cases same
    cases run with
    | atom found =>
      cases found
      simp [Match.literal, Match.literalFrom, hpos, MatchState.succeed] at bad
  | growHead =>
    obtain ⟨rfl, rfl⟩ := on
    exact ⟨rfl, rfl⟩
  | growTail => exact on
  | choice => exact ⟨on.2, on.1, on.2⟩
  | once _ blocked =>
    obtain ⟨-, -, rfl⟩ := on
    contradiction
  | grown =>
    obtain ⟨rfl, rfl, rfl⟩ := on
    exact ⟨rfl, rfl⟩
  | rule found =>
    obtain ⟨rfl, rfl⟩ := on
    cases found
    exact ⟨rfl, rfl, rfl⟩
  | _ => exact on.elim

/-- On `k` the only body that is reached is the one that has been wrapped anew, and it has no seed. -/
theorem reforkedGrammar_seedless : reforkedGrammar.Seedless #['k'] := by
  have on {task part : Match.Task} {s t : MatchState}
      (reaches : Match.Reaches reforkedGrammar #['k'] task s part t) (start : OnFirst task s) :
      OnFirst part t := by
    induction reaches with
    | refl => exact start
    | step call _ ih => exact ih (onFirst_of_calls start call)
  intro inner rule s reaches
  obtain ⟨-, -, rfl⟩ := on reaches ⟨rfl, rfl⟩
  rfl

/-- A scope that is put in again leaves the result as it was, and so does a new wrapper.  With a
second wrapper a rule fails, though it matched before. -/
theorem renormalize_grouped :
    regroupedGrammar.run 9 "t" #['x', 'y', 'z'] = groupedGrammar.run 9 "t" #['x', 'y', 'z'] ∧
    reforkedGrammar.run 9 "t" #['k'] = forkGrammar.run 9 "t" #['k'] ∧
    ((∃ s, Match.Run forkGrammar #['y', 'x', 'x'] (.whole (.apply "e")) .initial s ∧
        s.failed = false ∧ s.pos = 3) ∧
      ∃ s, Match.Run reforkedGrammar #['y', 'x', 'x'] (.whole (.apply "e")) .initial s ∧
        s.failed = true) := by
  refine ⟨?_, ?_, ⟨_, Match.run_iff_eval.2 ⟨12, rfl⟩, rfl, rfl⟩, ?_⟩
  · obtain ⟨rs', g', read, normalized, same, -⟩ :=
      renormalize groupedText_parse groupedRules_normalize
    rw [RuleSet.decode_encode] at read
    obtain rfl := Except.ok.inj read
    obtain rfl := Except.ok.inj (groupedGrammar_normalize.symm.trans normalized)
    have seedless : regroupedGrammar.Seedless #['x', 'y', 'z'] :=
      Grammar.seedless_of_notLeftrec (by simp [regroupedGrammar, labelledGroup, Pattern.Everywhere,
        Pattern.nodes, Pattern.nodesAll, Pattern.NotLeftrec]) _
    exact congrArg some (same _ seedless 9 9 "t" _ _ rfl rfl)
  · obtain ⟨rs', g', read, normalized, same, -⟩ := renormalize forkText_parse forkRules_normalize
    rw [RuleSet.decode_encode] at read
    obtain rfl := Except.ok.inj read
    obtain rfl := Except.ok.inj (forkGrammar_normalize.symm.trans normalized)
    exact congrArg some (same _ reforkedGrammar_seedless 9 9 "t" _ _ rfl rfl)
  · obtain ⟨rs', g', read, normalized, -, fails⟩ := renormalize forkText_parse forkRules_normalize
    rw [RuleSet.decode_encode] at read
    obtain rfl := Except.ok.inj read
    obtain rfl := Except.ok.inj (forkGrammar_normalize.symm.trans normalized)
    obtain ⟨s, run⟩ : ∃ s, Match.Run reforkedGrammar #['y', 'x', 'x'] (.whole (.apply "e"))
        .initial s := ⟨_, Match.run_iff_eval.2 ⟨12, rfl⟩⟩
    exact ⟨s, run, fails "e" _ rfl _ _ _ rfl run⟩

end Pegboard
