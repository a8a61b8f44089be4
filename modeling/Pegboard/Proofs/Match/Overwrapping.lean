import Pegboard.Proofs.Match.Acceptance
import Pegboard.Proofs.Match.Active
import Pegboard.Proofs.Match.Context
import Pegboard.Proofs.Match.Counterpart

/-!
# Rules that are wrapped without need

A rule that is not left-recursive may be wrapped as if it was.  Where its body fails, the rule comes
to its failing seed.  Where its body succeeds, the outcome becomes the seed and the body is evaluated
once more.  It does not come upon the seed, so it does again what it did, down to the failures that
it raises, and gets no further.

This takes that the rule is not evaluated where it is being applied.  Applying it is not the only way
of evaluating it: rules in interchange form may have bodies wrapped for it in other places, and these
take its seed for theirs.

## Main Definitions

* `Grammar.wrap`: a grammar in which a rule is wrapped.
* `Unrepeated`: a rule that is not evaluated again where it is being applied.

## Main Results

* `final?_wrap`: a match ends in the same way if such a rule is wrapped.
* `unrepeated_of_leftPath`: a rule that left calls do not lead back to is such a rule.
* `unrepeated_of_text`: in a grammar from text, it is enough that the rule is not applied again.
* `final?_wrap_stray`: a body wrapped in another place may make a difference.
-/

namespace Pegboard

/-- The grammar in which the body of a rule is wrapped. -/
def Grammar.wrap (r : String) (g : Grammar) : Grammar :=
  ⟨g.bodies.mapBodies fun rule body => if rule = r then .leftrec body r else body, g.leftAssoc⟩

theorem Grammar.body?_wrap (r : String) (g : Grammar) (name : String) :
    (g.wrap r).body? name
      = (g.body? name).map fun body => if name = r then .leftrec body r else body :=
  Bodies.body?_mapBodies (fun rule body => if rule = r then .leftrec body r else body) g.bodies name

theorem Grammar.start_wrap (r : String) (g : Grammar) : (g.wrap r).start = g.start :=
  Bodies.start_mapBodies _ _ _ _

namespace Match

variable {g g' : Grammar} {input : Array Char} {r : String} {body : Pattern}
variable {s s' t u : MatchState} {ok : RuleAt → Prop} {log : List Failure}

/-- Whether a task is to evaluate a rule: to apply it, or to match a body that is wrapped for it. -/
def Task.Evaluates (rule : String) : Task → Prop
  | .whole (.apply name) => name = rule
  | .whole (.leftrec _ name) => name = rule
  | _ => False

/-- A rule that a match never evaluates where it is applying the rule, and never applies where it is
matching a body that is wrapped for it. -/
structure Unrepeated (g : Grammar) (input : Array Char) (r : String) (body : Pattern) : Prop where
  again : ∀ s part t, Reaches g input (.whole (.apply g.start)) .initial (.whole (.apply r)) s →
    Reaches g input (.whole body) (s.entering r) part t → part.Evaluates r → t.pos ≠ s.pos
  unseeded : ∀ s, Reaches g input (.whole (.apply g.start)) .initial (.whole (.apply r)) s →
    s.seeds.get? (r, s.pos) = none

/-! ## The growth of a wrapped body -/

/-- Runs that are to agree on everything but the offset where they fail. -/
def onSuccess : Comparison := ⟨fun _ => True, fun _ => True, False⟩

theorem akin_refl (ok : RuleAt → Prop) (s : MatchState) : onSuccess.Akin ok s s :=
  ⟨rfl, rfl, fun _ _ => rfl, fun _ _ => rfl, trivial⟩

/-- The keys of `ok` apart from the one of a rule at an offset. -/
def Apart (ok : RuleAt → Prop) (own : RuleAt) (key : RuleAt) : Prop := ok key ∧ key ≠ own

/-- Growth ends with a seed that is as the body has ended. -/
theorem ended_grown {outcome : Outcome} (ended : onSuccess.Ended (Apart ok (r, u.pos)) s' t)
    (seed : t.seeds.get? (r, u.pos) = some outcome) (failed : outcome.failed = s'.failed)
    (result : s'.failed = false → outcome.value = s'.value ∧ outcome.pos = s'.pos)
    (unseeded : s'.seeds.get? (r, u.pos) = none) (notAssoc : g'.isLeftAssoc r = false) :
    onSuccess.Ended ok s' (grown g' r u t) := by
  have adopted : grown g' r u t
      = { t with seeds := t.seeds.erase (r, u.pos) }.adopt outcome := by
    rw [grown, seed, notAssoc]
    rfl
  rw [adopted]
  refine ⟨failed, fun fine => ?_, ended.around.blocked, fun key hkey => ?_, ended.around.lookup,
    trivial⟩
  · cases hf : s'.failed with
    | true => exact (fine hf).elim
    | false => exact result hf
  · show (t.seeds.erase (r, u.pos)).get? key = s'.seeds.get? key
    by_cases hown : key = (r, u.pos)
    · rw [hown, Table.get?_erase_self, unseeded]
    · rw [Table.get?_erase_of_ne _ hown, ended.around.seeds key ⟨hkey, hown⟩]

/-- A round of growth starts with a seed that the body does not look at. -/
theorem akin_round {own : RuleAt} (around : onSuccess.Around (Apart ok own) s u)
    (hpos : own.2 = s.pos) (seed : Outcome) :
    onSuccess.Akin (Apart ok own) s { u with seeds := u.seeds.insert own seed, pos := own.2 } := by
  refine ⟨hpos, around.blocked, fun key hkey => ?_, around.lookup, trivial⟩
  rw [Table.get?_insert_of_ne _ _ hkey.2]
  exact around.seeds key hkey

/-- What is around a body before it is evaluated is around it again when it has been. -/
theorem around_of_sameContext (same : SameContext s s') (around : onSuccess.Around ok s' u) :
    onSuccess.Around ok s u where
  blocked := around.blocked.trans same.blocked
  seeds key hkey := by rw [around.seeds key hkey, same.seeds]
  lookup name hn := by rw [around.lookup name hn, same.scopes]
  memo := trivial

/-- If a body does not look at the seed of its rule, then it may be wrapped. -/
theorem follows_leftrec (same : SameContext s s') (unseeded : s.seeds.get? (r, s.pos) = none)
    (unblocked : s.blocked.contains r = false) (notAssoc : g'.isLeftAssoc r = false)
    (hkey : ok (r, s.pos)) (akin : onSuccess.Akin ok s u)
    (follow : ∀ v, onSuccess.Akin (Apart ok (r, u.pos)) s v →
      onSuccess.Follows g' input (Apart ok (r, u.pos)) (.whole body) log s' v) :
    onSuccess.Follows g' input ok (.whole (.leftrec body r)) log s' u := by
  have unseeded' : u.seeds.get? (r, u.pos) = none := by rw [akin.seed hkey, unseeded]
  have unblocked' : u.blocked.contains r = false := by rw [akin.around.blocked, unblocked]
  have left : s'.seeds.get? (r, u.pos) = none := by rw [same.seeds, akin.pos, unseeded]
  have start : growing g' r u = { u with seeds := u.seeds.insert (r, u.pos) (.failing u.pos) } := by
    rw [growing, notAssoc]
    rfl
  have apart : onSuccess.Around (Apart ok (r, u.pos)) s u :=
    ⟨akin.around.blocked, fun key hk => akin.around.seeds key hk.1, akin.around.lookup, trivial⟩
  -- In the first round the seed is a failing one.
  obtain ⟨v, run, ended, furthest⟩ := follow _ (akin_round apart akin.pos (.failing u.pos))
  have seed : v.seeds.get? (r, u.pos) = some (.failing u.pos) := by
    rw [run.seeds_eq]
    exact Table.get?_insert_self ..
  have outgrows : v.outgrows (r, u.pos) = !s'.failed := by
    rw [MatchState.outgrows, seed, ended.failed]
    exact Bool.and_true _
  cases hf : s'.failed with
  | true =>
    rw [hf] at outgrows
    have grows : Run g' input (.grow body (r, u.pos)) (growing g' r u) v := by
      rw [start]
      exact .growStop run outgrows
    refine ⟨_, .grown unseeded' unblocked' grows, ?_, furthest⟩
    exact ended_grown ended seed hf.symm (fun fine => absurd (hf.symm.trans fine) (by decide)) left
      notAssoc
  | false =>
    rw [hf] at outgrows
    obtain ⟨value, pos⟩ := ended.good hf
    -- In the second round the seed is what the body came to, and this is what it comes to again.
    obtain ⟨w, again, settled, furthest'⟩ :=
      follow _ (akin_round (around_of_sameContext same ended.around) akin.pos v.outcome)
    have seed' : w.seeds.get? (r, u.pos) = some v.outcome := by
      rw [again.seeds_eq]
      exact Table.get?_insert_self ..
    have stop : w.outgrows (r, u.pos) = false := by
      have still : w.pos = v.outcome.pos := (settled.good hf).2.trans pos.symm
      rw [MatchState.outgrows, seed', still]
      show (!w.failed && (v.failed || decide (v.outcome.pos < v.outcome.pos))) = false
      rw [ended.failed, hf, decide_eq_false (Nat.lt_irrefl _)]
      exact Bool.and_false _
    have grows : Run g' input (.grow body (r, u.pos)) (growing g' r u) w := by
      rw [start]
      exact .growNext run outgrows (.growStop again stop)
    refine ⟨_, .grown unseeded' unblocked' grows, ?_, ?_⟩
    · exact ended_grown settled seed' ended.failed (fun _ => ⟨value, pos⟩) left notAssoc
    · show w.furthest = Failure.last u.furthest log
      have before : v.furthest = Failure.last u.furthest log := furthest
      have after : w.furthest = Failure.last v.furthest log := furthest'
      rw [after, before, Failure.last_last]

/-! ## Matches with a wrapped rule -/

/-- Whether a match comes to a task, and `ok` has the keys of all rules that the task evaluates. -/
structure Suits (g : Grammar) (input : Array Char) (ok : RuleAt → Prop) (task : Task)
    (s : MatchState) : Prop where
  reached : Reaches g input (.whole (.apply g.start)) .initial task s
  keys : ∀ rule part t, Reaches g input task s part t → part.Evaluates rule → ok (rule, t.pos)

theorem Suits.part {task part : Task} (suits : Suits g input ok task s)
    (call : Calls g input task s part t) : Suits g input ok part t :=
  ⟨suits.reached.trans (.step call .refl), fun rule part' t' h =>
    suits.keys rule part' t' (.step call h)⟩

/-- The body of a rule that is not evaluated again does not need the seed of the rule. -/
theorem Suits.inside (suits : Suits g input ok (.whole (.apply r)) s)
    (found : g.body? r = some body) (unrepeated : Unrepeated g input r body) :
    Suits g input (Apart ok (r, s.pos)) (.whole body) (s.entering r) := by
  have inside := suits.part (.rule found)
  refine ⟨inside.reached, fun rule part t h evaluates =>
    ⟨inside.keys rule part t h evaluates, fun hown => ?_⟩⟩
  obtain ⟨rfl, hpos⟩ := Prod.mk.inj hown
  exact unrepeated.again s part t suits.reached h evaluates hpos

/-- A rule that does not associate to the left is never blocked. -/
theorem Reaches.unblocked {task part : Task} (h : Reaches g input task .initial part t)
    (notAssoc : g.isLeftAssoc r = false) : t.blocked.contains r = false := by
  refine Bool.eq_false_iff.2 fun blocked => ?_
  have assoc := h.blocked (fun _ hn => by contradiction) r (List.contains_iff_mem.1 blocked)
  rw [notAssoc] at assoc
  contradiction

theorem corresponds_wrap (rules : ∀ b ∈ g.bodies, b.2.Closed) (found : g.body? r = some body)
    (notAssoc : g.isLeftAssoc r = false) (unrepeated : Unrepeated g input r body) :
    onSuccess.Corresponds g (g.wrap r) input (Suits g input) where
  assoc _ := rfl
  unknown name h := by rw [g.body?_wrap, h, Option.map_none]
  part suits call := suits.part call
  sees suits := suits.keys _ _ _ .refl rfl
  reads _ _ _ := trivial
  rule {ok name body' s log s' u} found' raises suits akin follow := by
    have inner := g.body?_wrap r name
    rw [found', Option.map_some] at inner
    refine .apply inner akin ?_
    split
    · next hname =>
      subst hname
      obtain rfl : body = body' := Option.some.inj (found.symm.trans found')
      have hpos : (s.entering name).pos = s.pos := s.entering_pos name
      have unblocked : (s.entering name).blocked.contains name = false :=
        (suits.part (.rule found)).reached.unblocked notAssoc
      have same := sameContext_of_closed rules raises.run (rules _ (Bodies.mem_of_body? found))
      have here : (u.entering name).pos = s.pos := (u.entering_pos name).trans akin.pos
      refine follows_leftrec same ?_ unblocked notAssoc ?_ (akin.entering name) fun v akin' =>
        follow _ v (here ▸ suits.inside found unrepeated) akin'
      · rw [MatchState.entering_seeds, hpos]
        exact unrepeated.unseeded s suits.reached
      · rw [hpos]
        exact suits.keys _ _ _ .refl rfl
    · exact follow ok _ (suits.part (.rule found')) (akin.entering name)

/-- **To wrap a rule that is not left-recursive is harmless.**  Take a normalized grammar that keeps
no outcomes, and in it a rule that is not wrapped and that a match does not evaluate again where it is
being applied.  If the match ends, then it also ends with the rule wrapped: it succeeds or fails as
before, with the same value and offset if it succeeds, and with the same furthest failure. -/
theorem final?_wrap {rs : RuleSet} {options : NormalizeOptions}
    (normalized : rs.normalize options = .ok g)
    (memoless : ∀ b ∈ g.bodies, b.2.Everywhere Pattern.NotMemo) (found : g.body? r = some body)
    (unwrapped : ∀ inner, body ≠ .leftrec inner r) (unrepeated : Unrepeated g input r body)
    {n : Nat} (h : final? g input n = some s) :
    ∃ m u, final? (g.wrap r) input m = some u ∧ u.failed = s.failed ∧
      (s.failed = false → u.value = s.value ∧ u.pos = s.pos) ∧ u.furthest = s.furthest := by
  have notAssoc : g.isLeftAssoc r = false := by
    refine Bool.eq_false_iff.2 fun assoc => ?_
    obtain ⟨inner, wrapped⟩ := rs.wrapped_of_leftAssoc normalized assoc found
    exact unwrapped inner wrapped
  obtain ⟨log, raises⟩ := raises_of_final? memoless h
  have suits : Suits g input (fun _ => True) (.whole (.apply g.start)) .initial :=
    ⟨.refl, fun _ _ _ _ _ => trivial⟩
  obtain ⟨u, run, ended, furthest⟩ := raises.followed
    (corresponds_wrap (rs.closed_of_normalize normalized) found notAssoc unrepeated) suits
    (akin_refl _ _) trivial
  rw [← g.start_wrap r] at run
  obtain ⟨m, hm⟩ := run_start_iff.1 run
  exact ⟨m, u, hm, ended.failed, ended.good, furthest.trans raises.furthest.symm⟩

/-! ## Rules that are not evaluated again -/

/-- Where no body is wrapped for a rule, the rule has no seeds. -/
theorem Reaches.unseeded (own : ∀ b ∈ g.bodies, b.2.Everywhere (NotBodyOf r)) {task part : Task}
    (h : Reaches g input task s part t) (all : All (NotBodyOf r) task.patterns)
    (unseeded : ∀ pos, s.seeds.get? (r, pos) = none) (pos : Nat) :
    t.seeds.get? (r, pos) = none := by
  induction h with
  | refl => exact unseeded pos
  | step call _ ih =>
    refine ih ?_ fun pos => Classical.byContradiction fun active => ?_
    · rcases call.rule_or_all with ⟨name, body, rfl, found, rfl, -⟩ | keeps
      · exact all_body own found
      · exact keeps _ all
    · rcases call.seeds active with before | ⟨inner, rfl, -⟩
      · exact before (unseeded pos)
      · exact all.here inner rfl

/-- Where no body is wrapped for a rule, to evaluate the rule is to apply it. -/
theorem unrepeated_of_notBodyOf (own : ∀ b ∈ g.bodies, b.2.Everywhere (NotBodyOf r))
    (found : g.body? r = some body)
    (again : ∀ s t, Reaches g input (.whole (.apply g.start)) .initial (.whole (.apply r)) s →
      Reaches g input (.whole body) (s.entering r) (.whole (.apply r)) t → t.pos ≠ s.pos) :
    Unrepeated g input r body := by
  refine ⟨fun s part t reached h evaluates => ?_, fun s reached => ?_⟩
  · unfold Task.Evaluates at evaluates
    split at evaluates
    · subst evaluates
      exact again s t reached h
    · next inner name =>
      subst evaluates
      have all := h.all (fun _ _ _ found => own _ (Bodies.mem_of_body? found)) (all_body own found)
      exact absurd rfl (all.here inner)
    · contradiction
  · refine reached.unseeded own ?_ (fun _ => rfl) s.pos
    simp [All, Task.patterns, Pattern.Everywhere, Pattern.nodes, NotBodyOf]

/-- A rule is not evaluated again where it is being applied, if left calls do not lead back to it and
no body is wrapped for it. -/
theorem unrepeated_of_leftPath (own : ∀ b ∈ g.bodies, b.2.Everywhere (NotBodyOf r))
    (found : g.body? r = some body)
    (apart : ∀ first, g.bodies.LeftCall r first → ¬ g.bodies.LeftPath first r) :
    Unrepeated g input r body := by
  refine unrepeated_of_notBodyOf own found fun s t reached h hpos => ?_
  have coherent : Coherent g s := reached.coherent (coherent_start g 0)
  have ready : Ready g.bodies.mayBeEmpty (.whole body) (s.entering r) :=
    ⟨coherent.placed.of_tables (s.entering_seeds r) (s.entering_memo r),
      all_body g.bodies.mayBeEmpty_closed.wrapper found, trivial⟩
  have same : t.pos = (s.entering r).pos := hpos.trans (s.entering_pos r).symm
  obtain ⟨first, opens, path⟩ := h.path ready same rfl
  exact apart first ⟨body, found, opens⟩ path

/-- In a grammar from text, where a rule is not wrapped, no body is wrapped for it. -/
theorem notBodyOf_of_text {text : String} {rs : RuleSet} {leftAssoc : List String}
    (parsed : parseGrammar text = .ok rs) (normalized : rs.normalize ⟨false, leftAssoc⟩ = .ok g)
    (found : g.body? r = some body) (unwrapped : ∀ inner, body ≠ .leftrec inner r) :
    ∀ b ∈ g.bodies, b.2.Everywhere (NotBodyOf r) := by
  have authored := authored_of_parseGrammar parsed
  have hr : ¬ rs.scopedBodies.leftRecursive.contains r = true := fun hr => by
    obtain ⟨inner, -, hbody⟩ :=
      RuleSet.plain_of_normalize authored normalized (Bodies.mem_of_body? found)
    exact unwrapped inner (hbody.trans (if_pos hr))
  intro b hb
  obtain ⟨inner, plain, hbody⟩ := RuleSet.plain_of_normalize authored normalized hb
  have all : inner.Everywhere (NotBodyOf r) := fun q hq => notBodyOf_of_plain q (plain q hq)
  rw [hbody, Bodies.wrapLeftRecursive]
  split
  · next hb =>
    refine Pattern.everywhere_iff.2 ⟨fun inner' heq => ?_, List.forall_mem_singleton.2 all⟩
    cases heq
    exact hr hb
  · exact all

/-- In a grammar from text, where a rule is not wrapped, the only way of evaluating it is to apply
it. -/
theorem unrepeated_of_text {text : String} {rs : RuleSet} {leftAssoc : List String}
    (parsed : parseGrammar text = .ok rs) (normalized : rs.normalize ⟨false, leftAssoc⟩ = .ok g)
    (found : g.body? r = some body) (unwrapped : ∀ inner, body ≠ .leftrec inner r)
    (again : ∀ s t, Reaches g input (.whole (.apply g.start)) .initial (.whole (.apply r)) s →
      Reaches g input (.whole body) (s.entering r) (.whole (.apply r)) t → t.pos ≠ s.pos) :
    Unrepeated g input r body :=
  unrepeated_of_notBodyOf (notBodyOf_of_text parsed normalized found unwrapped) found again

/-! ## A rule in brackets, and a stray body -/

/-- The rules `s = n '+' s | n` and `n = '(' s ')' | 'x'`. -/
def nestedBodies : Bodies :=
  [("s", .choice [.seq [.apply "n", .lit "+", .apply "s"], .apply "n"]),
    ("n", .choice [.seq [.lit "(", .apply "s", .lit ")"], .lit "x"])]

/-- The rule `s` applies `n` where it starts, which applies no rule there. -/
theorem nestedBodies_apart (first : String) (call : nestedBodies.LeftCall "s" first) :
    ¬ nestedBodies.LeftPath first "s" := by
  obtain ⟨body, found, opens⟩ := call
  cases found
  obtain rfl : "n" = first := by
    simpa [Pattern.opens, Pattern.opensAny, Pattern.opensTerms, Pattern.nullable] using opens
  intro path
  rcases path.eq_or_call with heq | ⟨name, body, found, opens⟩
  · exact absurd heq (by decide)
  · cases found
    simp [Pattern.opens, Pattern.opensAny, Pattern.opensTerms, Pattern.nullable] at opens

/-- In `(x)+x` the rule `s` is applied three times: around the brackets, in them and behind them. -/
theorem final?_wrap_nested :
    (RuleSet.ofDefinitions nestedBodies).normalize .default = .ok ⟨nestedBodies, []⟩ ∧
      (∃ s, final? ⟨nestedBodies, []⟩ #['(', 'x', ')', '+', 'x'] 20 = some s ∧
        s.failed = false ∧ s.value = .str "x" ∧ s.pos = 5) ∧
      ∃ m u, final? (Grammar.wrap "s" ⟨nestedBodies, []⟩) #['(', 'x', ')', '+', 'x'] m = some u ∧
        u.failed = false ∧ u.value = .str "x" ∧ u.pos = 5 := by
  have normalized : (RuleSet.ofDefinitions nestedBodies).normalize .default
    = .ok ⟨nestedBodies, []⟩ := by cbv
  obtain ⟨s, h, failed, value, pos⟩ :
      ∃ s, final? ⟨nestedBodies, []⟩ #['(', 'x', ')', '+', 'x'] 20 = some s ∧
        s.failed = false ∧ s.value = .str "x" ∧ s.pos = 5 := ⟨_, rfl, rfl, rfl, rfl⟩
  have memoless : ∀ b ∈ nestedBodies, b.2.Everywhere Pattern.NotMemo := by
    simp [nestedBodies, Pattern.Everywhere, Pattern.nodes, Pattern.nodesAll, Pattern.NotMemo]
  have own : ∀ b ∈ nestedBodies, b.2.Everywhere (NotBodyOf "s") := by
    simp [nestedBodies, Pattern.Everywhere, Pattern.nodes, Pattern.nodesAll, NotBodyOf]
  obtain ⟨m, u, hu, failed', good, -⟩ := final?_wrap normalized memoless rfl (by simp)
    (unrepeated_of_leftPath own rfl nestedBodies_apart) h
  obtain ⟨value', pos'⟩ := good failed
  exact ⟨normalized, ⟨s, h, failed, value, pos⟩, m, u, hu, failed'.trans failed,
    value'.trans value, pos'.trans pos⟩

/-- The body of a rule `a` in which a body that is wrapped for `a` stands behind an empty group. -/
def strayBody : Pattern := .opt (.seq [.empty, .leftrec (.lit "x") "a"])

/-- The grammar of that rule. -/
def strayGrammar : Grammar := ⟨[("a", strayBody)], []⟩

/-- A body that is wrapped for a rule in another place takes the seed of the rule for its own.  The
rule `a` is not applied again and its grammar keeps no outcomes, but it matches an `x` only if it is
not wrapped.  Normalization wraps it if it stands in a group of its own. -/
theorem final?_wrap_stray :
    (RuleSet.ofDefinitions [("a", strayBody)]).normalize .default = .ok strayGrammar ∧
      (∀ b ∈ strayGrammar.bodies, b.2.Everywhere Pattern.NotMemo) ∧
      strayGrammar.body? "a" = some strayBody ∧ (∀ inner, strayBody ≠ .leftrec inner "a") ∧
      (∀ s part t, Reaches strayGrammar #['x'] (.whole strayBody) s part t →
        part ≠ .whole (.apply "a")) ∧
      (∃ s, final? strayGrammar #['x'] 10 = some s ∧ s.failed = false ∧ s.value = .str "x" ∧
        s.pos = 1) ∧
      (∃ u, final? (strayGrammar.wrap "a") #['x'] 10 = some u ∧ u.failed = false ∧
        u.value = .null ∧ u.pos = 0) ∧
      (RuleSet.ofDefinitions [("a", .choice [strayBody])]).normalize .default
        = .ok (strayGrammar.wrap "a") := by
  refine ⟨by cbv, ?_, rfl, by simp [strayBody], fun s part t h => ?_, ⟨_, rfl, rfl, rfl, rfl⟩,
    ⟨_, rfl, rfl, rfl, rfl⟩, by cbv⟩
  · simp [strayGrammar, strayBody, Pattern.Everywhere, Pattern.nodes, Pattern.nodesAll,
      Pattern.NotMemo]
  · rintro rfl
    have all : All (fun p => ∀ name, p ≠ .apply name) [.apply "a"] := by
      refine h.all (fun name _ hne _ => absurd rfl (hne name)) ?_
      simp [All, Task.patterns, strayBody, Pattern.Everywhere, Pattern.nodes, Pattern.nodesAll]
    exact all.here "a" rfl

end Match

end Pegboard
