import Pegboard.Proofs.Match.Overwrapping

/-!
# Bodies without their wrappers

A body that is wrapped grows, unless it finds a seed of its rule.  If a match comes to no body that
finds one, then all growth ends after the second round, which does what the first one did, and the
grammar without the wrappers gives the same result.

A body that is wrapped twice is no such body.  Both wrappers keep their seeds under the name of the
rule and the offset, so the inner one finds the failing seed of the outer one, and the rule fails.

## Main Definitions

* `Grammar.Seedless`: no body that a match comes to finds a seed of its rule.
* `Doubled`: a body that is wrapped for its rule before another wrapper is put around it.
* `Rewrapped`: a grammar that is another one with more wrappers.

## Main Results

* `Raises.ne_nil`: what fails has raised a failure, where no seeds are found.
* `Rewrapped.run`: a grammar with more wrappers gives the results of the other one.
* `Doubled.failed`: a rule whose body is wrapped twice fails.
-/

namespace Pegboard

/-- No left-recursive body that a match comes to finds a seed of its rule where it starts. -/
def Grammar.Seedless (g : Grammar) (input : Array Char) : Prop :=
  ∀ inner rule s, Match.Reaches g input (.whole (.apply g.start)) .initial
    (.whole (.leftrec inner rule)) s → s.seeds.get? (rule, s.pos) = none

namespace Match

variable {g h : Grammar} {input : Array Char} {rule : String} {body : Pattern}
variable {s s' u : MatchState} {ok : RuleAt → Prop} {log : List Failure}

/-! ## Failures without seeds -/

/-- Whether a task has failed.  Growth has, if it ends with a failing seed. -/
def Task.Fails : Task → MatchState → Prop
  | .grow _ key, s => ((s.seeds.get? key).getD (.failing key.2)).failed = true
  | _, s => s.failed = true

/-- Where a task starts: terms behind others that have not failed, and growth from a seed. -/
def Task.Starts : Task → MatchState → Prop
  | .terms _, s => s.failed = false
  | .grow _ key, s => (s.seeds.get? key).isSome
  | _, _ => True

/-- What fails has raised a failure, if no seed is found that may be a failing one. -/
theorem Raises.ne_nil (seedless : g.Seedless input) {task : Task}
    (raises : Raises g input task s log s')
    (reached : Reaches g input (.whole (.apply g.start)) .initial task s) (starts : task.Starts s)
    (fails : task.Fails s') : log ≠ [] := by
  have next {task part : Task} {s t : MatchState}
      (reached : Reaches g input (.whole (.apply g.start)) .initial task s)
      (call : Calls g input task s part t) :
      Reaches g input (.whole (.apply g.start)) .initial part t := reached.trans (.step call .refl)
  induction raises with
  | altsNil => simp
  | altsLast _ ih => exact ih (next reached .altsHead) trivial fails
  | altsTaken _ good => exact absurd fails (ne_true_of_eq_false good)
  | altsNext raises bad _ _ ihRest =>
    exact List.append_ne_nil_of_right_ne_nil _
      (ihRest (next reached (.altsTail raises.run bad)) trivial fails)
  | termsNil => exact absurd fails (ne_true_of_eq_false starts)
  | termsStop _ bad ih => exact ih (next reached .termsHead) trivial bad
  | termsNext raises good _ _ ihRest =>
    exact List.append_ne_nil_of_right_ne_nil _
      (ihRest (next reached (.termsTail raises.run good)) good fails)
  | repeatedStop | repeatedStill | plusStill => exact absurd fails Bool.false_ne_true
  | repeatedNext raises good moved _ _ ihRest =>
    exact List.append_ne_nil_of_right_ne_nil _
      (ihRest (next reached (.repeatedTail raises.run good moved)) trivial fails)
  | @growStop inner key s log s' raises stop ih =>
    -- The seed is the one that was there, and fails, so the round has failed.
    obtain ⟨seed, hseed⟩ := Option.isSome_iff_exists.1 starts
    have kept : s'.seeds.get? key = some seed := by
      rw [raises.run.seeds_eq]
      exact hseed
    have bad : seed.failed = true := by
      rw [Task.Fails, kept] at fails
      exact fails
    have failed : s'.failed = true := by
      rw [MatchState.outgrows, kept] at stop
      simpa [bad] using stop
    exact ih (next reached .growHead) trivial failed
  | @growNext inner key s log s' log' s'' raises further _ _ ihRest =>
    have seeded : (Task.grow inner key).Starts (s'.reseeded key) :=
      congrArg Option.isSome (Table.get?_insert_self _ _ _)
    exact List.append_ne_nil_of_right_ne_nil _
      (ihRest (next reached (.growTail raises.run further)) seeded fails)
  | @atom p s s' hatom =>
    have raised : s'.failed = (failure? input p s).isSome := (raised_of_atom? hatom).2
    intro none
    rw [Option.toList_eq_nil_iff.1 none] at raised
    exact absurd fails (ne_true_of_eq_false raised)
  | choice _ ih => exact ih (next reached .choice) trivial fails
  | seq _ ih => exact ih (next reached .seq) rfl fails
  | scope _ ih => exact ih (next reached .scope) rfl fails
  | @label inner name s log s' _ ih =>
    obtain ⟨frame, labelled⟩ := s'.labelled_eq name
    rw [labelled] at fails
    exact ih (next reached .label) trivial fails
  | seed found => rw [seedless _ _ _ reached] at found; contradiction
  | once unseeded blocked _ ih => exact ih (next reached (.once unseeded blocked)) trivial fails
  | @grown inner rule s log s' unseeded unblocked _ ih =>
    have seeded : (Task.grow inner (rule, s.pos)).Starts (growing g rule s) :=
      congrArg Option.isSome (Table.get?_insert_self _ _ _)
    exact ih (next reached (.grown unseeded unblocked)) seeded fails
  | @rule name body s log s' found _ ih =>
    obtain ⟨blocked, left⟩ := s.leaving_eq name s'
    rw [left] at fails
    exact ih (next reached (.rule found)) trivial fails
  | @notRefuted inner s log s' _ bad =>
    have fails : (looked s s').failed = true := fails
    rw [looked, if_pos bad] at fails
    exact absurd fails Bool.false_ne_true
  | notMatched => simp
  | @opt inner s log s' _ ih =>
    have fails : (optional s s').failed = true := fails
    unfold optional at fails
    split at fails
    · exact absurd fails Bool.false_ne_true
    · next good => exact absurd fails good
  | star _ ih => exact ih (next reached .star) trivial fails
  | plusStop _ bad ih => exact ih (next reached .plusHead) trivial bad
  | plusNext raises good moved _ _ ihRest =>
    exact List.append_ne_nil_of_right_ne_nil _
      (ihRest (next reached (.plusTail raises.run good moved)) trivial fails)
  | paren _ ih => exact ih (next reached .paren) trivial fails
  | @capture inner s log s' _ ih =>
    obtain ⟨value, captured⟩ := captured_eq input s s'
    rw [captured] at fails
    exact ih (next reached .capture) trivial fails

/-! ## Bodies that are wrapped twice -/

/-- A body that is wrapped for a rule already, by itself or as the only term of a scope. -/
def Doubled (rule : String) (p : Pattern) : Prop :=
  ∃ inner, p = .leftrec inner rule ∨ ∃ owner, p = .scope owner [.leftrec inner rule]

/-- A body that is wrapped for a rule looks up the seed of the rule where it starts. -/
theorem Doubled.meets (doubled : Doubled rule body) (g : Grammar) (input : Array Char)
    (s : MatchState) : ∃ inner t,
    Reaches g input (.whole body) s (.whole (.leftrec inner rule)) t ∧ t.pos = s.pos ∧
      t.seeds = s.seeds := by
  obtain ⟨inner, rfl | ⟨owner, rfl⟩⟩ := doubled
  · exact ⟨inner, s, .refl, rfl, rfl⟩
  · exact ⟨inner, _, .step .scope (.step .termsHead .refl), rfl, rfl⟩

theorem get?_seeded (rule : String) (s : MatchState) :
    (s.seeded rule).seeds.get? (rule, s.pos) = some (.failing s.pos) :=
  Table.get?_insert_self _ _ _

/-- Where the rule has a failing seed, a body that is wrapped for it fails. -/
theorem Doubled.adopts (doubled : Doubled rule body)
    (seeded : s.seeds.get? (rule, s.pos) = some (.failing s.pos))
    (run : Run g input (.whole body) s s') : s'.failed = true := by
  have wrapped {inner : Pattern} {s s' : MatchState}
      (seeded : s.seeds.get? (rule, s.pos) = some (.failing s.pos))
      (run : Run g input (.whole (.leftrec inner rule)) s s') : s'.failed = true := by
    cases run with
    | atom found => contradiction
    | seed found =>
      obtain rfl := Option.some.inj (seeded.symm.trans found)
      rfl
    | once unseeded => rw [seeded] at unseeded; contradiction
    | grown unseeded => rw [seeded] at unseeded; contradiction
  obtain ⟨inner, rfl | ⟨owner, rfl⟩⟩ := doubled
  · exact wrapped seeded run
  · cases run with
    | atom found => contradiction
    | scope inside =>
      cases inside with
      | termsStop _ bad => exact bad
      | termsNext first good _ =>
        have bad := wrapped (by exact seeded) first
        rw [good] at bad
        contradiction

/-- A body that is wrapped twice fails where its rule has no seed: none grows. -/
theorem Doubled.failed (doubled : Doubled rule body) (unseeded : s.seeds.get? (rule, s.pos) = none)
    (run : Run g input (.whole (.leftrec body rule)) s s') : s'.failed = true := by
  have seeded := get?_seeded rule s
  cases run with
  | atom found => contradiction
  | seed found => rw [unseeded] at found; contradiction
  | @once _ _ _ t _ _ inside =>
    show t.failed = true
    exact doubled.adopts seeded inside
  | @grown _ _ _ t _ _ grows =>
    -- The first round fails, and what is adopted is the seed that was there before it.
    have stops : t.seeds.get? (rule, s.pos) = some (.failing s.pos) := by
      cases grows with
      | growStop inside _ =>
        rw [inside.seeds_eq]
        exact seeded
      | growNext inside further _ =>
        have bad := doubled.adopts (by exact seeded) inside
        rw [Comparison.failed_of_outgrows further] at bad
        contradiction
    show ((t.seeds.get? (rule, s.pos)).getD (.failing s.pos)).failed = true
    rw [stops]
    rfl

/-- A match that comes to a body that is wrapped twice finds a seed. -/
theorem Doubled.not_reached (doubled : Doubled rule body)
    (unassoc : ∀ name, g.isLeftAssoc name = false) (seedless : g.Seedless input) :
    ¬ Reaches g input (.whole (.apply g.start)) .initial (.whole (.leftrec body rule)) s := by
  intro reached
  have unseeded : s.seeds.get? (rule, s.pos) = none := seedless _ _ _ reached
  have unblocked : s.blocked.contains rule = false := reached.unblocked (unassoc rule)
  obtain ⟨inner, t, meets, hpos, seeds⟩ := doubled.meets g input
    { growing g rule s with pos := s.pos }
  have found := seedless _ _ _
    (reached.trans (.step (.grown unseeded unblocked) (.step .growHead meets)))
  rw [hpos, seeds] at found
  exact absurd (found.symm.trans (get?_seeded rule s)) nofun

/-! ## Wrappers that make no difference -/

theorem steady_notBodyOf : Pattern.Steady (NotBodyOf rule) where
  parts f p h inner same := by
    cases p with
    | leftrec q name =>
      cases same
      exact h q rfl
    | _ => contradiction
  choice _ _ := nofun
  seq _ _ := nofun
  scope _ _ _ := nofun
  label _ _ _ := nofun
  empty _ := nofun

/-- Where no body is wrapped for a rule, its seeds are not looked up, and a run is followed from any
state that has other seeds of the rule. -/
theorem corresponds_apart (own : ∀ b ∈ h.bodies, b.2.Everywhere (NotBodyOf rule)) :
    onSuccess.Corresponds h h input fun ok task _ =>
      (∀ key, key.1 ≠ rule → ok key) ∧ All (NotBodyOf rule) task.patterns where
  assoc _ := rfl
  unknown _ := id
  part {ok task part s t} fits call := by
    refine ⟨fits.1, ?_⟩
    rcases call.rule_or_all with ⟨name, body, rfl, found, rfl, -⟩ | keeps
    · exact all_body own found
    · exact keeps _ fits.2
  sees {ok inner name s} fits := fits.1 _ fun same => fits.2.here inner (by rw [← same])
  reads _ _ _ := trivial
  rule found raises fits akin follow :=
    .apply found akin (follow _ _ ⟨fits.1, all_body own found⟩ (akin.entering _))

/-- Of two runs that have ended as a third one has, one has ended as the other. -/
theorem Comparison.Ended.instead {v w : MatchState} (ended : onSuccess.Ended ok s v)
    (ended' : onSuccess.Ended (fun _ => True) w v) : onSuccess.Ended ok s w where
  failed := ended'.failed.symm.trans ended.failed
  result fine := by
    have failed : w.failed = s.failed := ended'.failed.symm.trans ended.failed
    obtain ⟨value, pos⟩ := ended.result fine
    obtain ⟨value', pos'⟩ := ended'.result fun bad => fine (failed.symm.trans bad)
    exact ⟨value'.symm.trans value, pos'.symm.trans pos⟩
  around :=
    ⟨ended'.around.blocked.symm.trans ended.around.blocked,
      fun key hkey => (ended'.around.seeds key trivial).symm.trans (ended.around.seeds key hkey),
      fun name hn => (ended'.around.lookup name hn).symm.trans (ended.around.lookup name hn),
      trivial⟩

/-- A body that grows from no seed is evaluated with a failing one first. -/
theorem Run.round (run : Run h input (.whole (.leftrec body rule)) u s')
    (unseeded : u.seeds.get? (rule, u.pos) = none) (unblocked : u.blocked.contains rule = false)
    (unassoc : h.isLeftAssoc rule = false) : ∃ w, Run h input (.whole body) (u.seeded rule) w := by
  cases run with
  | atom found => contradiction
  | seed found => rw [unseeded] at found; contradiction
  | once _ blocked => rw [unblocked] at blocked; contradiction
  | grown _ _ grows =>
    have start : { growing h rule u with pos := u.pos } = u.seeded rule := by
      rw [growing, unassoc]
      rfl
    cases grows with
    | growStop inside _ => exact ⟨_, start ▸ inside⟩
    | growNext inside _ _ => exact ⟨_, start ▸ inside⟩

/-- If no other body is wrapped for a rule, then its own body does without the wrapper. -/
theorem Comparison.Follows.unwrapped (rules : ∀ b ∈ h.bodies, b.2.Closed)
    (memoless : ∀ b ∈ h.bodies, b.2.Everywhere Pattern.NotMemo)
    (own : ∀ b ∈ h.bodies, b.2.Everywhere (NotBodyOf rule)) (unassoc : h.isLeftAssoc rule = false)
    (found : h.body? rule = some body) (unseeded : u.seeds.get? (rule, u.pos) = none)
    (unblocked : u.blocked.contains rule = false)
    (follows : onSuccess.Follows h input ok (.whole (.leftrec body rule)) log s' u) :
    onSuccess.Follows h input ok (.whole body) log s' u := by
  obtain ⟨v, wrapped, ended, furthest⟩ := follows
  obtain ⟨w, round⟩ := wrapped.round unseeded unblocked unassoc
  -- The body does the same without the seed.
  have all : All (NotBodyOf rule) [body] := all_body own found
  obtain ⟨log₁, raises⟩ := round.raises memoless (all_body memoless found)
  have akin : onSuccess.Akin (·.1 ≠ rule) (u.seeded rule) u :=
    ⟨rfl, rfl, fun key hkey => (Table.get?_insert_of_ne _ _ (by rintro rfl; exact hkey rfl)).symm,
      fun _ _ => rfl, trivial⟩
  obtain ⟨w', run, -, -⟩ := raises.followed (corresponds_apart own) ⟨fun _ => id, all⟩ akin trivial
  -- So the wrapper makes no difference, and what is known of the run with it holds without it.
  obtain ⟨log₂, raises'⟩ := run.raises memoless (all_body memoless found)
  have same := sameContext_of_closed rules run (rules _ (Bodies.mem_of_body? found))
  obtain ⟨v', wrapped', ended', furthest'⟩ : onSuccess.Follows h input (fun _ => True)
      (.whole (.leftrec body rule)) log₂ w' u :=
    follows_leftrec same unseeded unblocked unassoc trivial
      (akin_refl _ u) fun _ akin =>
        raises'.followed (corresponds_apart own)
          ⟨fun key hkey => ⟨trivial, by rintro rfl; exact hkey rfl⟩, all⟩ akin trivial
  obtain rfl := wrapped.unique wrapped'
  refine ⟨w', run, ended.instead ended', ?_⟩
  rw [raises'.furthest, ← furthest', furthest]

/-- A grammar that is another one with more wrappers: around bodies of rules that no body is wrapped
for in the other one, and around bodies that are wrapped for their rule already. -/
structure Rewrapped (g h : Grammar) : Prop where
  start : h.start = g.start
  unassoc : ∀ name, g.isLeftAssoc name = false ∧ h.isLeftAssoc name = false
  undefined : ∀ name, g.body? name = none → h.body? name = none
  bodies : ∀ name body, g.body? name = some body → h.body? name = some body ∨
    ∃ inner, body = .leftrec inner name ∧ h.body? name = some inner ∧
      ((∀ b ∈ h.bodies, b.2.Everywhere (NotBodyOf name)) ∨ Doubled name inner)
  closed : ∀ b ∈ h.bodies, b.2.Closed
  memoless : ∀ b ∈ g.bodies ++ h.bodies, b.2.Everywhere Pattern.NotMemo

theorem Rewrapped.corresponds (rewrapped : Rewrapped g h) (seedless : g.Seedless input) :
    onSuccess.Corresponds g h input fun ok task s =>
      (∀ key, ok key) ∧ Reaches g input (.whole (.apply g.start)) .initial task s where
  assoc name := (rewrapped.unassoc name).2.trans (rewrapped.unassoc name).1.symm
  unknown := rewrapped.undefined
  part fits call := ⟨fits.1, fits.2.trans (.step call .refl)⟩
  sees fits := fits.1 _
  reads _ _ _ := trivial
  rule {ok name body s log s' u} found _ fits akin follow := by
    have reached := fits.2.trans (.step (.rule found) .refl)
    have inside := akin.entering name
    have follows := follow ok _ ⟨fits.1, reached⟩ inside
    rcases rewrapped.bodies name body found with found' | ⟨inner, rfl, found', own | doubled⟩
    · exact .apply found' akin follows
    · refine .apply found' akin (follows.unwrapped rewrapped.closed
        (fun b hb => rewrapped.memoless b (List.mem_append_right _ hb)) own
        (rewrapped.unassoc name).2 found' ?_ ?_)
      · rw [inside.seed (fits.1 _)]
        exact seedless _ _ _ reached
      · rw [inside.around.blocked]
        exact reached.unblocked (rewrapped.unassoc name).1
    · exact absurd reached (doubled.not_reached (fun name => (rewrapped.unassoc name).1) seedless)

/-- Where no seeds are found, a grammar with more wrappers gives the results of the other one. -/
theorem Rewrapped.run (rewrapped : Rewrapped g h) (seedless : g.Seedless input) {n : Nat}
    {source : String} {r : MatchResult} (hr : g.run n source input = some r) :
    ∃ m, h.run m source input = some r := by
  obtain ⟨s, hs, rfl⟩ := Option.map_eq_some_iff.1 hr
  obtain ⟨log, raises⟩ := raises_of_final?
    (fun b hb => rewrapped.memoless b (List.mem_append_left _ hb)) hs
  obtain ⟨u, run, ended, hu⟩ := raises.followed (rewrapped.corresponds seedless)
    ⟨fun _ => trivial, .refl⟩ (akin_refl (fun _ => True) .initial) trivial
  rw [← rewrapped.start] at run
  obtain ⟨m, hm⟩ := run_start_iff.1 run
  have same : finish source input u = finish source input s := by
    have furthest : u.furthest = s.furthest := hu.trans raises.furthest.symm
    unfold finish
    rw [ended.failed, furthest]
    split
    · next bad =>
      -- The offset where the match fails does not count, for a failure was raised.
      obtain ⟨failure, hlast, -⟩ :=
        Failure.last_none_of_ne_nil (raises.ne_nil seedless .refl trivial bad)
      rw [raises.furthest.trans hlast]
      rfl
    · next good =>
      obtain ⟨value, pos⟩ := ended.good (Bool.eq_false_iff.2 good)
      rw [value, pos]
  exact ⟨m, by rw [Grammar.run, hm]; exact congrArg some same⟩

end Match

end Pegboard
