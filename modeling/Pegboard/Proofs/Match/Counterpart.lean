import Pegboard.Proofs.Match.Failures
import Pegboard.Proofs.Match.Mirror

/-!
# Runs in two grammars

Two grammars whose rules do the same give the same results.  Here a run in the first grammar is
followed, with the failures that it raises, by a run in the second one.  How the rules of the second
grammar come to do the same is left open: it is what is asked of the grammars, for an application of
a rule whose body has been followed already.

The states of the two runs need not be equal.  They agree on the offset, on the blocked rules, on the
seeds that are looked up and on the names that are known, and the second run may keep outcomes of its
own.  Where a run fails, the offset need not be the same either, for whoever goes on goes back first.

## Main Definitions

* `Comparison`: what is compared of the states of two runs.
* `Comparison.Akin`, `Comparison.Ended`: states before two runs and after them.
* `Comparison.Follows`: the second run.
* `Comparison.Corresponds`: what is asked of two grammars.

## Main Results

* `Raises.followed`: a run in the first grammar is followed by a run in the second one.
-/

namespace Pegboard.Match

/-- How the states of a run and of the run that follows it are compared. -/
structure Comparison where
  /-- The names that are looked up. -/
  known : String → Prop
  /-- What is asked of the outcomes that the second run keeps. -/
  keeps : Table MemoEntry → Prop
  /-- Whether runs that fail have to end at one offset. -/
  exact : Prop

namespace Comparison

variable {c : Comparison} {g g' : Grammar} {input : Array Char} {ok : RuleAt → Prop}
variable {s u s' u' : MatchState}

/-- Two states agree on what a run finds around it: the blocked rules, the seeds of the keys in `ok`
and the names that are known.  The second one keeps outcomes as it should. -/
structure Around (c : Comparison) (ok : RuleAt → Prop) (s u : MatchState) : Prop where
  blocked : u.blocked = s.blocked
  seeds : ∀ key, ok key → u.seeds.get? key = s.seeds.get? key
  lookup : ∀ name, c.known name → u.scopes.lookup? name = s.scopes.lookup? name
  memo : c.keeps u.memo

/-- Two states from which the same task is to run in the same way. -/
structure Akin (c : Comparison) (ok : RuleAt → Prop) (s u : MatchState) : Prop where
  pos : u.pos = s.pos
  around : c.Around ok s u

/-- Two states in which runs of the same task have ended. -/
structure Ended (c : Comparison) (ok : RuleAt → Prop) (s u : MatchState) : Prop where
  failed : u.failed = s.failed
  result : (s.failed = true → c.exact) → u.value = s.value ∧ u.pos = s.pos
  around : c.Around ok s u

/-- The second grammar follows a run that has ended in `s'` with the failures of a record: its own
run of the task ends as that run did, and raises failures of the same kind. -/
def Follows (c : Comparison) (g' : Grammar) (input : Array Char) (ok : RuleAt → Prop) (task : Task)
    (log : List Failure) (s' u : MatchState) : Prop :=
  ∃ u', Run g' input task u u' ∧ c.Ended ok s' u' ∧ u'.furthest = Failure.last u.furthest log

/-- What is asked of two grammars for runs of the first to be followed by runs of the second.  Which
tasks are followed is told by `fits`, along with the keys of the seeds that they look up. -/
structure Corresponds (c : Comparison) (g g' : Grammar) (input : Array Char)
    (fits : (RuleAt → Prop) → Task → MatchState → Prop) : Prop where
  assoc : ∀ rule, g'.isLeftAssoc rule = g.isLeftAssoc rule
  unknown : ∀ name, g.body? name = none → g'.body? name = none
  part : ∀ {ok task part s t}, fits ok task s → Calls g input task s part t → fits ok part t
  sees : ∀ {ok inner rule s}, fits ok (.whole (.leftrec inner rule)) s → ok (rule, s.pos)
  reads : ∀ {ok p s}, fits ok (.whole p) s → ∀ name ∈ p.reads, c.known name
  rule : ∀ {ok name body s log s' u}, g.body? name = some body →
    Raises g input (.whole body) (s.entering name) log s' →
    fits ok (.whole (.apply name)) s → c.Akin ok s u →
    (∀ ok' v, fits ok' (.whole body) (s.entering name) → c.Akin ok' (s.entering name) v →
      c.Follows g' input ok' (.whole body) log s' v) →
    c.Follows g' input ok (.whole (.apply name)) log (s.leaving name s') u

/-! ## States -/

theorem Ended.good (h : c.Ended ok s u) (good : s.failed = false) :
    u.value = s.value ∧ u.pos = s.pos :=
  h.result fun bad => absurd bad (ne_true_of_eq_false good)

/-- A run that succeeds may be gone on from. -/
theorem Ended.akin (h : c.Ended ok s u) (good : s.failed = false) : c.Akin ok s u :=
  ⟨(h.good good).2, h.around⟩

/-- Whoever goes back after a run finds two states alike. -/
theorem Ended.back (h : c.Ended ok s u) (pos : Nat) :
    c.Akin ok { s with pos := pos } { u with pos := pos } :=
  ⟨rfl, h.around.blocked, h.around.seeds, h.around.lookup, h.around.memo⟩

theorem Akin.move (h : c.Akin ok s u) (pos : Nat) :
    c.Akin ok { s with pos := pos } { u with pos := pos } :=
  ⟨rfl, h.around.blocked, h.around.seeds, h.around.lookup, h.around.memo⟩

/-- The failures met so far make no difference. -/
theorem Akin.clean (h : c.Akin ok s u) :
    c.Akin ok { s with furthest := none } { u with furthest := none } :=
  ⟨h.pos, h.around.blocked, h.around.seeds, h.around.lookup, h.around.memo⟩

theorem Akin.succeed (h : c.Akin ok s u) (value : Value) :
    c.Akin ok (s.succeed value) (u.succeed value) :=
  ⟨h.pos, h.around.blocked, h.around.seeds, h.around.lookup, h.around.memo⟩

theorem Akin.pushed (h : c.Akin ok s u) :
    c.Akin ok ({ s with scopes := s.scopes.push }.succeed .null)
      ({ u with scopes := u.scopes.push }.succeed .null) := by
  refine ⟨h.pos, h.around.blocked, h.around.seeds, fun name hn => ?_, h.around.memo⟩
  show u.scopes.push.lookup? name = s.scopes.push.lookup? name
  rw [Scopes.lookup?_push, Scopes.lookup?_push, h.around.lookup name hn]

/-- The seed of a rule at the current offset is the same in both states. -/
theorem Akin.seed {rule : String} (h : c.Akin ok s u) (hkey : ok (rule, s.pos)) :
    u.seeds.get? (rule, u.pos) = s.seeds.get? (rule, s.pos) := by
  rw [h.pos, h.around.seeds _ hkey]

theorem Akin.seeded (h : c.Akin ok s u) (rule : String) :
    c.Akin ok (s.seeded rule) (u.seeded rule) := by
  refine ⟨h.pos, h.around.blocked, fun key hkey => ?_, h.around.lookup, h.around.memo⟩
  rw [MatchState.seeded, MatchState.seeded, h.pos]
  exact Table.get?_insert_congr (h.around.seeds key hkey) _ _

theorem Akin.growing (h : c.Akin ok s u) (rule : String)
    (assoc : g'.isLeftAssoc rule = g.isLeftAssoc rule) :
    c.Akin ok (growing g rule s) (Match.growing g' rule u) := by
  obtain ⟨pos, -, seeds, lookup, memo⟩ := h.seeded rule
  refine ⟨pos, ?_, seeds, lookup, memo⟩
  show (if _ then rule :: u.blocked else u.blocked) = if _ then rule :: s.blocked else s.blocked
  rw [assoc, h.around.blocked]

theorem Akin.entering (h : c.Akin ok s u) (rule : String) :
    c.Akin ok (s.entering rule) (u.entering rule) := by
  unfold MatchState.entering
  rw [h.around.blocked]
  split
  · exact h
  · exact ⟨h.pos, rfl, h.around.seeds, h.around.lookup, h.around.memo⟩

theorem Ended.outgrows {key : RuleAt} (h : c.Ended ok s u) (hkey : ok key) :
    u.outgrows key = s.outgrows key := by
  rw [MatchState.outgrows, MatchState.outgrows, h.around.seeds key hkey, h.failed]
  cases hs : s.failed with
  | true => rfl
  | false => rw [(h.good hs).2]

/-- What outgrows its seed has succeeded. -/
theorem failed_of_outgrows {key : RuleAt} (h : s.outgrows key = true) : s.failed = false := by
  unfold MatchState.outgrows at h
  split at h
  · rw [Bool.and_eq_true, Bool.not_eq_true'] at h
    exact h.1
  · contradiction

theorem Ended.reseeded {key : RuleAt} (h : c.Ended ok s u) (good : s.failed = false) :
    c.Akin ok (s.reseeded key) (u.reseeded key) := by
  obtain ⟨value, pos⟩ := h.good good
  have same : u.outcome = s.outcome := by
    rw [MatchState.outcome, MatchState.outcome, value, h.failed, pos]
  refine ⟨pos, h.around.blocked, fun k hk => ?_, h.around.lookup, h.around.memo⟩
  rw [MatchState.reseeded, MatchState.reseeded, same]
  exact Table.get?_insert_congr (h.around.seeds k hk) _ _

/-- Two states that come to one outcome. -/
theorem Around.after (h : c.Around ok s u) (outcome : Outcome) (failure failure' : Option Failure) :
    c.Ended ok (s.after outcome failure) (u.after outcome failure') :=
  ⟨rfl, fun _ => ⟨rfl, rfl⟩, h.blocked, h.seeds, h.lookup, h.memo⟩

theorem Ended.succeed (h : c.Ended ok s u) (pos : Nat) (value : Value) :
    c.Ended ok ({ s with pos := pos }.succeed value) ({ u with pos := pos }.succeed value) :=
  ⟨rfl, fun _ => ⟨rfl, rfl⟩, h.around.blocked, h.around.seeds, h.around.lookup, h.around.memo⟩

/-- What has succeeded may be given with another value. -/
theorem Ended.given (h : c.Ended ok s u) (good : s.failed = false) (value : Value) :
    c.Ended ok (s.succeed value) (u.succeed value) :=
  ⟨rfl, fun _ => ⟨rfl, (h.good good).2⟩, h.around.blocked, h.around.seeds, h.around.lookup,
    h.around.memo⟩

theorem Ended.unseeded (h : c.Ended ok s u) (key : RuleAt) :
    c.Ended ok { s with seeds := s.seeds.erase key } { u with seeds := u.seeds.erase key } :=
  ⟨h.failed, h.result, h.around.blocked, fun k hk =>
    Table.get?_erase_congr (h.around.seeds k hk) key, h.around.lookup, h.around.memo⟩

/-- If a seed is looked up alike, then so it is after growth. -/
theorem Ended.grown {rule : String} (h : c.Ended ok s' u') (akin : c.Akin ok s u)
    (hkey : ok (rule, s.pos)) (assoc : g'.isLeftAssoc rule = g.isLeftAssoc rule) :
    c.Ended ok (grown g rule s s') (Match.grown g' rule u u') := by
  have houtcome : (u'.seeds.get? (rule, u.pos)).getD (.failing u.pos)
      = (s'.seeds.get? (rule, s.pos)).getD (.failing s.pos) := by
    rw [akin.pos, h.around.seeds _ hkey]
  refine ⟨congrArg Outcome.failed houtcome, fun _ => ⟨congrArg Outcome.value houtcome,
    congrArg Outcome.pos houtcome⟩, ?_, fun k hk => ?_, h.around.lookup, h.around.memo⟩
  · show (if _ then u'.blocked.erase rule else u'.blocked)
      = if _ then s'.blocked.erase rule else s'.blocked
    rw [assoc, h.around.blocked]
  · show (u'.seeds.erase (rule, u.pos)).get? k = (s'.seeds.erase (rule, s.pos)).get? k
    rw [akin.pos]
    exact Table.get?_erase_congr (h.around.seeds k hk) _

theorem Ended.labelled (h : c.Ended ok s u) (name : String) :
    c.Ended ok (s.labelled name) (u.labelled name) := by
  unfold MatchState.labelled
  rw [h.failed]
  cases hf : s.failed with
  | true =>
    rw [if_pos rfl, if_pos rfl]
    exact h
  | false =>
    obtain ⟨value, pos⟩ := h.good hf
    rw [if_neg Bool.false_ne_true, if_neg Bool.false_ne_true]
    refine ⟨rfl, fun _ => ⟨value, pos⟩, h.around.blocked, h.around.seeds, fun other hn => ?_,
      h.around.memo⟩
    -- The name itself is bound to one value in both states; any other is bound as before.
    show (u.scopes.bind name u.value).lookup? other = (s.scopes.bind name s.value).lookup? other
    by_cases hname : other = name
    · rw [hname, Scopes.lookup?_bind_self, Scopes.lookup?_bind_self, value]
    · rw [Scopes.lookup?_bind_of_ne _ _ hname, Scopes.lookup?_bind_of_ne _ _ hname,
        h.around.lookup other hn]

theorem Ended.looked (h : c.Ended ok s' u') (hpos : u.pos = s.pos) :
    c.Ended ok (looked s s') (Match.looked u u') := by
  unfold Match.looked
  rw [h.failed, hpos]
  split <;>
    exact ⟨rfl, fun _ => ⟨rfl, rfl⟩, h.around.blocked, h.around.seeds, h.around.lookup,
      h.around.memo⟩

theorem Ended.optional (h : c.Ended ok s' u') (hpos : u.pos = s.pos) :
    c.Ended ok (optional s s') (Match.optional u u') := by
  unfold Match.optional
  rw [h.failed, hpos]
  split
  · exact h.succeed s.pos .null
  · exact h

theorem Ended.captured (h : c.Ended ok s' u') (hpos : u.pos = s.pos) :
    c.Ended ok (captured input s s') (Match.captured input u u') := by
  unfold Match.captured
  rw [h.failed]
  cases hf : s'.failed with
  | true =>
    rw [if_pos rfl, if_pos rfl]
    exact h
  | false =>
    rw [if_neg Bool.false_ne_true, if_neg Bool.false_ne_true, hpos, (h.good hf).2]
    exact ⟨rfl, fun _ => ⟨rfl, (h.good hf).2⟩, h.around.blocked, h.around.seeds, h.around.lookup,
      h.around.memo⟩

theorem Ended.leaving (h : c.Ended ok s' u') (akin : c.Akin ok s u) (rule : String) :
    c.Ended ok (s.leaving rule s') (u.leaving rule u') := by
  unfold MatchState.leaving
  rw [akin.around.blocked]
  split
  · exact h
  · exact ⟨h.failed, h.result, rfl, h.around.seeds, h.around.lookup, h.around.memo⟩

/-- To apply a rule is to follow its body. -/
theorem Follows.apply {name : String} {body : Pattern} {log : List Failure}
    (found : g'.body? name = some body) (akin : c.Akin ok s u)
    (follows : c.Follows g' input ok (.whole body) log s' (u.entering name)) :
    c.Follows g' input ok (.whole (.apply name)) log (s.leaving name s') u := by
  obtain ⟨u', run, ended, furthest⟩ := follows
  refine ⟨_, .rule found run, ended.leaving akin name, ?_⟩
  rw [leaving_furthest, furthest, MatchState.entering_furthest]

end Comparison

/-! ## Patterns without parts -/

section Atom

variable {g g' : Grammar} {input : Array Char} {p : Pattern} {s s' u : MatchState}

/-- Where a grammar has no rule of a name, and another has none either, a pattern without parts does
the same in both. -/
theorem atom?_of_unknown (h : atom? g input p s = some s')
    (unknown : ∀ name, g.body? name = none → g'.body? name = none) (t : MatchState) :
    atom? g' input p t = atom? g input p t := by
  cases p with
  | apply name =>
    cases hb : g.body? name with
    | some body => simp [atom?, hb] at h
    | none => simp only [atom?, hb, unknown name hb]
  | lit | range | pred | eq | action | pos | empty => rfl
  | _ => contradiction

/-- What a pattern without parts does, and the failure that it raises, depend on the offset and on
the variables that it looks up. -/
theorem atom?_failure (h : atom? g input p s = some s') : ∃ outcome,
    ∀ t : MatchState, t.pos = s.pos → Scopes.AlikeOn p.reads s.scopes t.scopes →
      atom? g input p t = some (t.after outcome (failure? input p s)) := by
  obtain ⟨outcome, failure, effect, -, -⟩ := atom?_effect h
  -- In a state without failures so far, the failure raised is the one that is remembered.
  have raised := (raised_of_atom? (effect { s with furthest := none } rfl fun _ _ => rfl)).1
  have same : failure? input p { s with furthest := none } = failure? input p s := by
    cases p <;> rfl
  rw [same] at raised
  obtain rfl : failure = failure? input p s := by
    simpa [MatchState.after, MatchState.mergeFailure, MatchState.adopt] using raised
  exact ⟨outcome, effect⟩

end Atom

/-! ## Runs -/

section Runs

variable {c : Comparison} {g g' : Grammar} {input : Array Char}
variable {fits : (RuleAt → Prop) → Task → MatchState → Prop} {ok : RuleAt → Prop}
variable {s s' u : MatchState}

open Comparison

/-- **A run is followed.**  What a task does in the first grammar, it does in the second one, from
every state that agrees as it should: it ends in the same way and raises the same failures. -/
theorem Raises.followed (h : c.Corresponds g g' input fits) {task : Task} {log : List Failure}
    (raises : Raises g input task s log s') (fit : fits ok task s) (akin : c.Akin ok s u)
    (agrees : task.Agrees ok s u) : c.Follows g' input ok task log s' u := by
  induction raises generalizing ok u with
  | @altsNil start s =>
    refine ⟨_, .altsNil, ?_, ?_⟩
    · rw [MatchState.fail_eq_after, MatchState.fail_eq_after, akin.pos]
      exact akin.around.after _ _ _
    · rw [MatchState.fail_eq_after, akin.pos]
      rfl
  | altsLast _ ih =>
    obtain ⟨u', run, ended, furthest⟩ := ih (h.part fit .altsHead) akin trivial
    exact ⟨u', .altsLast run, ended, furthest⟩
  | altsTaken _ good ih =>
    obtain ⟨u', run, ended, furthest⟩ := ih (h.part fit .altsHead) akin trivial
    exact ⟨u', .altsTaken run (ended.failed.trans good), ended, furthest⟩
  | @altsNext start p q ps s log s' log' s'' raises bad _ ih ihRest =>
    obtain ⟨t, run, first, furthest⟩ := ih (h.part fit .altsHead) akin trivial
    obtain ⟨u', runRest, ended, furthest'⟩ :=
      ihRest (h.part fit (.altsTail raises.run bad)) (first.back start) trivial
    refine ⟨u', .altsNext run (first.failed.trans bad) runRest, ended, ?_⟩
    rw [furthest', Failure.last_append, ← furthest]
  | termsNil => exact ⟨u, .termsNil, ⟨agrees.2, fun _ => ⟨agrees.1, akin.pos⟩, akin.around⟩, rfl⟩
  | termsStop _ bad ih =>
    obtain ⟨u', run, ended, furthest⟩ := ih (h.part fit .termsHead) akin trivial
    exact ⟨u', .termsStop run (ended.failed.trans bad), ended, furthest⟩
  | termsNext raises good _ ih ihRest =>
    obtain ⟨t, run, first, furthest⟩ := ih (h.part fit .termsHead) akin trivial
    obtain ⟨u', runRest, ended, furthest'⟩ := ihRest (h.part fit (.termsTail raises.run good))
      (first.akin good) ⟨(first.good good).1, first.failed⟩
    refine ⟨u', .termsNext run (first.failed.trans good) runRest, ended, ?_⟩
    rw [furthest', Failure.last_append, ← furthest]
  | repeatedStop _ bad ih =>
    obtain ⟨u', run, ended, furthest⟩ := ih (h.part fit .repeatedHead) akin trivial
    refine ⟨_, .repeatedStop run (ended.failed.trans bad), ?_, furthest⟩
    rw [akin.pos]
    exact ended.succeed _ _
  | repeatedStill _ good still ih =>
    obtain ⟨u', run, ended, furthest⟩ := ih (h.part fit .repeatedHead) akin trivial
    obtain ⟨value, hpos⟩ := ended.good good
    have still' : u'.pos = u.pos := by rw [hpos, akin.pos, still]
    refine ⟨_, .repeatedStill run (ended.failed.trans good) still', ?_, furthest⟩
    rw [value]
    exact ended.given good _
  | repeatedNext raises good moved _ ih ihRest =>
    obtain ⟨t, run, first, furthest⟩ := ih (h.part fit .repeatedHead) akin trivial
    obtain ⟨value, hpos⟩ := first.good good
    have moved' : t.pos ≠ u.pos := by rwa [hpos, akin.pos]
    obtain ⟨u', runRest, ended, furthest'⟩ :=
      ihRest (h.part fit (.repeatedTail raises.run good moved)) (first.akin good) trivial
    refine ⟨u', .repeatedNext run (first.failed.trans good) moved' (value ▸ runRest), ended, ?_⟩
    rw [furthest', Failure.last_append, ← furthest]
  | @growStop inner key s log s' _ stop ih =>
    obtain ⟨u', run, ended, furthest⟩ := ih (h.part fit .growHead) (akin.move key.2) trivial
    exact ⟨u', .growStop run (by rw [ended.outgrows agrees, stop]), ended, furthest⟩
  | @growNext inner key s log s' log' s'' raises further _ ih ihRest =>
    obtain ⟨t, run, first, furthest⟩ := ih (h.part fit .growHead) (akin.move key.2) trivial
    obtain ⟨u', runRest, ended, furthest'⟩ := ihRest (h.part fit (.growTail raises.run further))
      (first.reseeded (failed_of_outgrows further)) agrees
    refine ⟨u', .growNext run (by rw [first.outgrows agrees, further]) runRest, ended, ?_⟩
    rw [furthest', Failure.last_append, ← furthest]
    rfl
  | @atom p s s' hatom =>
    obtain ⟨outcome, effect⟩ := atom?_failure hatom
    have there := (atom?_of_unknown hatom h.unknown u).trans
      (effect u akin.pos fun name hn => (akin.around.lookup name (h.reads fit name hn)).symm)
    rw [effect _ rfl fun _ _ => rfl, Option.some.injEq] at hatom
    subst hatom
    exact ⟨_, .atom there, akin.around.after _ _ _, (Failure.last_toList _ _).symm⟩
  | choice _ ih =>
    obtain ⟨u', run, ended, furthest⟩ := ih (h.part fit .choice) akin trivial
    rw [← akin.pos] at run
    exact ⟨u', .choice run, ended, furthest⟩
  | seq _ ih =>
    obtain ⟨u', run, ended, furthest⟩ := ih (h.part fit .seq) (akin.succeed .null) ⟨rfl, rfl⟩
    exact ⟨u', .seq run, ended, furthest⟩
  | @scope rule ps s log s' raises ih =>
    obtain ⟨u', run, ended, furthest⟩ := ih (h.part fit .scope) akin.pushed ⟨rfl, rfl⟩
    have hs : s'.scopes.pop = s.scopes := (popped_frame (s := s) raises.run.framed).2
    have hu : u'.scopes.pop = u.scopes := (popped_frame (s := u) run.framed).2
    refine ⟨_, .scope run, ⟨ended.failed, ended.result, ended.around.blocked, ended.around.seeds,
      fun name hn => ?_, ended.around.memo⟩, furthest⟩
    show u'.scopes.pop.lookup? name = s'.scopes.pop.lookup? name
    rw [hs, hu, akin.around.lookup name hn]
  | label _ ih =>
    obtain ⟨u', run, ended, furthest⟩ := ih (h.part fit .label) akin trivial
    exact ⟨_, .label run, ended.labelled _, (labelled_furthest _ _).trans furthest⟩
  | @seed inner rule s seed found =>
    have found' : u.seeds.get? (rule, u.pos) = some seed := by rw [akin.seed (h.sees fit), found]
    exact ⟨_, .seed found', ⟨rfl, fun _ => ⟨rfl, rfl⟩, akin.around.blocked, akin.around.seeds,
      akin.around.lookup, akin.around.memo⟩, rfl⟩
  | @once inner rule s log s' unseeded blocked _ ih =>
    have unseeded' : u.seeds.get? (rule, u.pos) = none := by
      rw [akin.seed (h.sees fit), unseeded]
    have blocked' : u.blocked.contains rule = true := by rw [akin.around.blocked, blocked]
    obtain ⟨u', run, ended, furthest⟩ :=
      ih (h.part fit (.once unseeded blocked)) (akin.seeded rule) trivial
    refine ⟨_, .once unseeded' blocked' run, ?_, furthest⟩
    rw [akin.pos]
    exact ended.unseeded _
  | @grown inner rule s log s' unseeded unblocked _ ih =>
    have hkey : ok (rule, s.pos) := h.sees fit
    have unseeded' : u.seeds.get? (rule, u.pos) = none := by rw [akin.seed hkey, unseeded]
    have unblocked' : u.blocked.contains rule = false := by rw [akin.around.blocked, unblocked]
    obtain ⟨u', run, ended, furthest⟩ := ih (h.part fit (.grown unseeded unblocked))
      (akin.growing rule (h.assoc rule)) hkey
    rw [← akin.pos] at run
    exact ⟨_, .grown unseeded' unblocked' run, ended.grown akin hkey (h.assoc rule), furthest⟩
  | @rule name body s log s' found raises ih =>
    exact h.rule found raises fit akin fun ok' v fit' akin' => ih fit' akin' trivial
  | notRefuted _ bad ih =>
    obtain ⟨u', run, ended, -⟩ := ih (h.part fit .not) akin.clean trivial
    refine ⟨_, .not run, ended.looked akin.pos, ?_⟩
    rw [looked, if_pos (ended.failed.trans bad)]
    rfl
  | notMatched _ good ih =>
    obtain ⟨u', run, ended, -⟩ := ih (h.part fit .not) akin.clean trivial
    refine ⟨_, .not run, ended.looked akin.pos, ?_⟩
    rw [looked, if_neg (ne_true_of_eq_false (ended.failed.trans good)), akin.pos]
    rfl
  | opt _ ih =>
    obtain ⟨u', run, ended, furthest⟩ := ih (h.part fit .opt) akin trivial
    exact ⟨_, .opt run, ended.optional akin.pos, (optional_furthest _ _).trans furthest⟩
  | star _ ih =>
    obtain ⟨u', run, ended, furthest⟩ := ih (h.part fit .star) akin trivial
    exact ⟨u', .star run, ended, furthest⟩
  | plusStop _ bad ih =>
    obtain ⟨u', run, ended, furthest⟩ := ih (h.part fit .plusHead) akin trivial
    exact ⟨u', .plusStop run (ended.failed.trans bad), ended, furthest⟩
  | plusStill _ good still ih =>
    obtain ⟨u', run, ended, furthest⟩ := ih (h.part fit .plusHead) akin trivial
    obtain ⟨value, hpos⟩ := ended.good good
    have still' : u'.pos = u.pos := by rw [hpos, akin.pos, still]
    refine ⟨_, .plusStill run (ended.failed.trans good) still', ?_, furthest⟩
    rw [value]
    exact ended.given good _
  | plusNext raises good moved _ ih ihRest =>
    obtain ⟨t, run, first, furthest⟩ := ih (h.part fit .plusHead) akin trivial
    obtain ⟨value, hpos⟩ := first.good good
    have moved' : t.pos ≠ u.pos := by rwa [hpos, akin.pos]
    obtain ⟨u', runRest, ended, furthest'⟩ :=
      ihRest (h.part fit (.plusTail raises.run good moved)) (first.akin good) trivial
    refine ⟨u', .plusNext run (first.failed.trans good) moved' (value ▸ runRest), ended, ?_⟩
    rw [furthest', Failure.last_append, ← furthest]
  | paren _ ih =>
    obtain ⟨u', run, ended, furthest⟩ := ih (h.part fit .paren) akin trivial
    exact ⟨u', .paren run, ended, furthest⟩
  | capture _ ih =>
    obtain ⟨u', run, ended, furthest⟩ := ih (h.part fit .capture) akin trivial
    exact ⟨_, .capture run, ended.captured akin.pos, (captured_furthest _ _ _).trans furthest⟩

end Runs

end Pegboard.Match
