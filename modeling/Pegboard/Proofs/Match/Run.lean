import Pegboard.Match.Result

/-!
# Runs

`eval` bounds its descent by fuel, which says nothing about a match: an answer does not depend on
how much fuel was left.  This module gives the same semantics without fuel, as a relation between
the states before and after.  What holds of all matches is proved by induction on it.

A `Task` is a pattern, or a piece of the work that a pattern with several parts has left: the
alternatives that are still to try, the terms that follow, the repetitions of a star, the growth of
a seed.  With tasks a run is a single relation, and an induction on runs has one case for each way
in which a piece of work proceeds.

## Main Definitions

* `Task`: what is to be carried out.
* `Run`: carrying out a task takes one state to another.
* `Calls`: carrying out a task in a state comes to carrying out another one in another state.
* `Reaches`: the same in any number of steps.

## Main Results

* `run_iff_eval`: a pattern runs from one state to another exactly if `eval` says so with some fuel.
* `Run.unique`: a task and a state determine where the run ends.
* `run_start_iff`: a whole match is a run of the starting rule.
-/

namespace Pegboard

namespace MatchState

/-- The state after a labelled pattern, which is bound unless it failed. -/
def labelled (s : MatchState) (name : String) : MatchState :=
  if s.failed then s else { s with scopes := s.scopes.bind name s.value }

/-- The state in which the body of a rule is evaluated. -/
def entering (s : MatchState) (rule : String) : MatchState :=
  if s.blocked.isEmpty || s.blocked.contains rule then s else { s with blocked := [] }

/-- The state `s'` after the body of a rule that was applied in `s`. -/
def leaving (s : MatchState) (rule : String) (s' : MatchState) : MatchState :=
  if s.blocked.isEmpty || s.blocked.contains rule then s' else { s' with blocked := s.blocked }

/-- The state with a failing seed for a rule at the current offset. -/
def seeded (s : MatchState) (rule : String) : MatchState :=
  { s with seeds := s.seeds.insert (rule, s.pos) (.failing s.pos) }

/-- Whether the last evaluation reached further than the seed of `key`. -/
def outgrows (s : MatchState) (key : RuleAt) : Bool :=
  match s.seeds.get? key with
  | some seed => !s.failed && (seed.failed || decide (seed.pos < s.pos))
  | none => false

/-- The state with the last outcome recorded as the seed of `key`. -/
def reseeded (s : MatchState) (key : RuleAt) : MatchState :=
  { s with seeds := s.seeds.insert key s.outcome }

end MatchState

namespace Match

/-- The state in which a left-recursive rule starts to grow. -/
def growing (g : Grammar) (rule : String) (s : MatchState) : MatchState :=
  { s.seeded rule with blocked := if g.isLeftAssoc rule then rule :: s.blocked else s.blocked }

/-- The state after the growth of a rule that started in `s` and ended in `s'`. -/
def grown (g : Grammar) (rule : String) (s s' : MatchState) : MatchState :=
  { s' with
    seeds := s'.seeds.erase (rule, s.pos)
    blocked := if g.isLeftAssoc rule then s'.blocked.erase rule else s'.blocked }.adopt
      ((s'.seeds.get? (rule, s.pos)).getD (.failing s.pos))

/-- The state after the inner pattern of a lookahead, which was evaluated from `s`. -/
def looked (s s' : MatchState) : MatchState :=
  let back := { s' with furthest := s.furthest, pos := s.pos }
  if s'.failed then back.succeed .null else back.fail none

/-- The state after an optional pattern, which was evaluated from `s`. -/
def optional (s s' : MatchState) : MatchState :=
  if s'.failed then { s' with pos := s.pos }.succeed .null else s'

/-- The state after a captured pattern, which was evaluated from `s`. -/
def captured (input : Array Char) (s s' : MatchState) : MatchState :=
  if s'.failed then s'
  else s'.succeed (.str (String.ofList (input.extract s.pos s'.pos).toList))

/-- The state after the body of a memoized rule, evaluated from `s` without the furthest failure. -/
def kept (rule : String) (s s' : MatchState) : MatchState :=
  { s' with
    furthest := s.furthest
    memo := s'.memo.insert (rule, s.pos) ⟨s'.outcome, s'.furthest⟩ }.mergeFailure s'.furthest

/-- What a pattern without parts does; `none` if the pattern has parts. -/
def atom? (g : Grammar) (input : Array Char) : Pattern → MatchState → Option MatchState
  | .apply name, s =>
    match g.body? name with
    | some _ => none
    | none =>
      match BuiltinRule.ofName? name with
      | some rule => some (builtin input rule s)
      | none => some (s.fail (some (.unknownRule name)))
  | .lit text, s => some (literal input text s)
  | .range lo hi, s => some (character input (fun c => lo ≤ c && c ≤ hi) s)
  | .pred expr, s => some (predicate expr s)
  | .eq expr, s => some (equality input expr s)
  | .action expr, s => some (action expr s)
  | .pos, s => some (s.succeed (.int s.pos))
  | .empty, s => some (s.succeed .null)
  | .choice _, _ => none
  | .seq _, _ => none
  | .scope _ _, _ => none
  | .label _ _, _ => none
  | .leftrec _ _, _ => none
  | .memo _ _, _ => none
  | .not _, _ => none
  | .opt _, _ => none
  | .star _, _ => none
  | .plus _, _ => none
  | .paren _, _ => none
  | .capture _, _ => none

/-! ## Runs -/

/-- What is to be carried out. -/
inductive Task where
  /-- A whole pattern. -/
  | whole (p : Pattern)
  /-- Alternatives to try from the offset `start`. -/
  | alts (start : Nat) (ps : List Pattern)
  /-- The terms of a sequence. -/
  | terms (ps : List Pattern)
  /-- Repetitions of a pattern, with the values so far, the latest first. -/
  | repeated (inner : Pattern) (items : List Value)
  /-- The growth of the seed of a left-recursive rule. -/
  | grow (inner : Pattern) (key : RuleAt)

/-- Carrying out a task takes the first state to the second. -/
inductive Run (g : Grammar) (input : Array Char) : Task → MatchState → MatchState → Prop where
  | altsNil {start s} : Run g input (.alts start []) s (s.fail none)
  | altsLast {start p s s'} (h : Run g input (.whole p) s s') :
      Run g input (.alts start [p]) s s'
  | altsTaken {start p q ps s s'} (h : Run g input (.whole p) s s') (ok : s'.failed = false) :
      Run g input (.alts start (p :: q :: ps)) s s'
  | altsNext {start p q ps s s' s''} (h : Run g input (.whole p) s s') (bad : s'.failed = true)
      (rest : Run g input (.alts start (q :: ps)) { s' with pos := start } s'') :
      Run g input (.alts start (p :: q :: ps)) s s''
  | termsNil {s} : Run g input (.terms []) s s
  | termsStop {p ps s s'} (h : Run g input (.whole p) s s') (bad : s'.failed = true) :
      Run g input (.terms (p :: ps)) s s'
  | termsNext {p ps s s' s''} (h : Run g input (.whole p) s s') (ok : s'.failed = false)
      (rest : Run g input (.terms ps) s' s'') : Run g input (.terms (p :: ps)) s s''
  | repeatedStop {inner items s s'} (h : Run g input (.whole inner) s s')
      (bad : s'.failed = true) :
      Run g input (.repeated inner items) s
        ({ s' with pos := s.pos }.succeed (.seq items.reverse))
  | repeatedStill {inner items s s'} (h : Run g input (.whole inner) s s')
      (ok : s'.failed = false) (still : s'.pos = s.pos) :
      Run g input (.repeated inner items) s (s'.succeed (.seq (s'.value :: items).reverse))
  | repeatedNext {inner items s s' s''} (h : Run g input (.whole inner) s s')
      (ok : s'.failed = false) (moved : s'.pos ≠ s.pos)
      (rest : Run g input (.repeated inner (s'.value :: items)) s' s'') :
      Run g input (.repeated inner items) s s''
  | growStop {inner key s s'} (h : Run g input (.whole inner) { s with pos := key.2 } s')
      (stop : s'.outgrows key = false) : Run g input (.grow inner key) s s'
  | growNext {inner key s s' s''} (h : Run g input (.whole inner) { s with pos := key.2 } s')
      (further : s'.outgrows key = true)
      (rest : Run g input (.grow inner key) (s'.reseeded key) s'') :
      Run g input (.grow inner key) s s''
  | atom {p s s'} (h : atom? g input p s = some s') : Run g input (.whole p) s s'
  | choice {alts s s'} (h : Run g input (.alts s.pos alts) s s') :
      Run g input (.whole (.choice alts)) s s'
  | seq {ps s s'} (h : Run g input (.terms ps) (s.succeed .null) s') :
      Run g input (.whole (.seq ps)) s s'
  | scope {rule ps s s'}
      (h : Run g input (.terms ps) ({ s with scopes := s.scopes.push }.succeed .null) s') :
      Run g input (.whole (.scope rule ps)) s { s' with scopes := s'.scopes.pop }
  | label {inner name s s'} (h : Run g input (.whole inner) s s') :
      Run g input (.whole (.label inner name)) s (s'.labelled name)
  | seed {inner rule s seed} (found : s.seeds.get? (rule, s.pos) = some seed) :
      Run g input (.whole (.leftrec inner rule)) s (s.adopt seed)
  | once {inner rule s s'} (unseeded : s.seeds.get? (rule, s.pos) = none)
      (blocked : s.blocked.contains rule = true)
      (h : Run g input (.whole inner) (s.seeded rule) s') :
      Run g input (.whole (.leftrec inner rule)) s
        { s' with seeds := s'.seeds.erase (rule, s.pos) }
  | grown {inner rule s s'} (unseeded : s.seeds.get? (rule, s.pos) = none)
      (unblocked : s.blocked.contains rule = false)
      (h : Run g input (.grow inner (rule, s.pos)) (growing g rule s) s') :
      Run g input (.whole (.leftrec inner rule)) s (Match.grown g rule s s')
  | hit {inner rule s entry} (found : s.memo.get? (rule, s.pos) = some entry) :
      Run g input (.whole (.memo inner rule)) s
        ((s.adopt entry.outcome).mergeFailure entry.furthest)
  | miss {inner rule s s'} (unknown : s.memo.get? (rule, s.pos) = none)
      (h : Run g input (.whole inner) { s with furthest := none } s') :
      Run g input (.whole (.memo inner rule)) s (kept rule s s')
  | rule {name body s s'} (found : g.body? name = some body)
      (h : Run g input (.whole body) (s.entering name) s') :
      Run g input (.whole (.apply name)) s (s.leaving name s')
  | not {inner s s'} (h : Run g input (.whole inner) { s with furthest := none } s') :
      Run g input (.whole (.not inner)) s (looked s s')
  | opt {inner s s'} (h : Run g input (.whole inner) s s') :
      Run g input (.whole (.opt inner)) s (optional s s')
  | star {inner s s'} (h : Run g input (.repeated inner []) s s') :
      Run g input (.whole (.star inner)) s s'
  | plusStop {inner s s'} (h : Run g input (.whole inner) s s') (bad : s'.failed = true) :
      Run g input (.whole (.plus inner)) s s'
  | plusStill {inner s s'} (h : Run g input (.whole inner) s s') (ok : s'.failed = false)
      (still : s'.pos = s.pos) :
      Run g input (.whole (.plus inner)) s (s'.succeed (.seq [s'.value]))
  | plusNext {inner s s' s''} (h : Run g input (.whole inner) s s') (ok : s'.failed = false)
      (moved : s'.pos ≠ s.pos) (rest : Run g input (.repeated inner [s'.value]) s' s'') :
      Run g input (.whole (.plus inner)) s s''
  | paren {inner s s'} (h : Run g input (.whole inner) s s') :
      Run g input (.whole (.paren inner)) s s'
  | capture {inner s s'} (h : Run g input (.whole inner) s s') :
      Run g input (.whole (.capture inner)) s (captured input s s')

/-- An alternative that matches is taken, whether or not there are others. -/
theorem Run.taken {g : Grammar} {input : Array Char} {start : Nat} {p : Pattern}
    {ps : List Pattern} {s s' : MatchState} (h : Run g input (.whole p) s s')
    (ok : s'.failed = false) : Run g input (.alts start (p :: ps)) s s' := by
  cases ps with
  | nil => exact .altsLast h
  | cons q ps => exact .altsTaken h ok

/-! ## Runs and fuel -/

/-- Carrying out a task with fuel `n` for patterns and at most `k` rounds of a loop. -/
def perform (g : Grammar) (input : Array Char) (n k : Nat) :
    Task → MatchState → Option MatchState
  | .whole p => eval g input n p
  | .alts start ps => Match.choice (eval g input n) start ps
  | .terms ps => Match.terms (eval g input n) ps
  | .repeated inner items => Match.repeated (eval g input n) inner k items
  | .grow inner key => Match.grow (eval g input n) inner key k

variable {g : Grammar} {input : Array Char}

/-- One round of growth: the seed is recorded anew as long as the rounds reach further. -/
theorem grow_succ (ev : Evaluator) (inner : Pattern) (key : RuleAt) (k : Nat) (s : MatchState) :
    Match.grow ev inner key (k + 1) s = (ev inner { s with pos := key.2 }).bind fun t =>
      if t.outgrows key then Match.grow ev inner key k (t.reseeded key) else some t := by
  rw [Match.grow]
  refine congrArg _ (funext fun t => ?_)
  unfold MatchState.outgrows MatchState.reseeded
  cases t.seeds.get? key <;> rfl

section OfEval

variable {ev : Evaluator}
variable (sound : ∀ {p s s'}, ev p s = some s' → Run g input (.whole p) s s')

include sound

/-- Alternatives run as they are tried, if patterns run as they are evaluated. -/
theorem run_of_choice {start : Nat} : ∀ {ps : List Pattern} {s s' : MatchState},
    Match.choice ev start ps s = some s' → Run g input (.alts start ps) s s'
  | [], s, s', h => by
    rw [Match.choice, Option.some.injEq] at h
    exact h ▸ .altsNil
  | [p], s, s', h => .altsLast (sound h)
  | p :: q :: ps, s, s', h => by
    rw [Match.choice] at h
    · obtain ⟨t, ht, h⟩ := Option.bind_eq_some_iff.1 h
      cases hf : t.failed with
      | true =>
        rw [if_pos hf] at h
        exact .altsNext (sound ht) hf (run_of_choice h)
      | false =>
        rw [if_neg (by simp [hf]), Option.some.injEq] at h
        exact h ▸ .altsTaken (sound ht) hf
    · simp

/-- Terms run as they are evaluated in order, if patterns run as they are evaluated. -/
theorem run_of_terms : ∀ {ps : List Pattern} {s s' : MatchState},
    Match.terms ev ps s = some s' → Run g input (.terms ps) s s'
  | [], s, s', h => by
    rw [Match.terms, Option.some.injEq] at h
    exact h ▸ .termsNil
  | p :: ps, s, s', h => by
    rw [Match.terms] at h
    obtain ⟨t, ht, h⟩ := Option.bind_eq_some_iff.1 h
    cases hf : t.failed with
    | true =>
      rw [if_pos hf, Option.some.injEq] at h
      exact h ▸ .termsStop (sound ht) hf
    | false =>
      rw [if_neg (by simp [hf])] at h
      exact .termsNext (sound ht) hf (run_of_terms h)

/-- Repetitions run as they are evaluated, if patterns do. -/
theorem run_of_repeated {inner : Pattern} : ∀ {k : Nat} {items : List Value} {s s' : MatchState},
    Match.repeated ev inner k items s = some s' → Run g input (.repeated inner items) s s'
  | 0, _, _, _, h => by simp [Match.repeated] at h
  | k + 1, items, s, s', h => by
    rw [Match.repeated] at h
    obtain ⟨t, ht, h⟩ := Option.bind_eq_some_iff.1 h
    cases hf : t.failed with
    | true =>
      rw [if_pos hf, Option.some.injEq] at h
      exact h ▸ .repeatedStop (sound ht) hf
    | false =>
      rw [if_neg (by simp [hf])] at h
      by_cases hp : t.pos = s.pos
      · rw [if_pos hp, Option.some.injEq] at h
        exact h ▸ .repeatedStill (sound ht) hf hp
      · rw [if_neg hp] at h
        exact .repeatedNext (sound ht) hf hp (run_of_repeated h)

/-- Seeds grow as `grow` says, if patterns run as they are evaluated. -/
theorem run_of_grow {inner : Pattern} {key : RuleAt} : ∀ {k : Nat} {s s' : MatchState},
    Match.grow ev inner key k s = some s' → Run g input (.grow inner key) s s'
  | 0, _, _, h => by simp [Match.grow] at h
  | k + 1, s, s', h => by
    rw [grow_succ] at h
    obtain ⟨t, ht, h⟩ := Option.bind_eq_some_iff.1 h
    cases further : t.outgrows key with
    | true =>
      rw [if_pos further] at h
      exact .growNext (sound ht) further (run_of_grow h)
    | false =>
      rw [if_neg (by simp [further]), Option.some.injEq] at h
      exact h ▸ .growStop (sound ht) further

/-- A form of pattern runs as `step` says, if its parts run as they are evaluated. -/
theorem run_of_step {n : Nat} {p : Pattern} {s s' : MatchState}
    (h : step g input n ev p s = some s') : Run g input (.whole p) s s' := by
  cases p with
  | choice alts => exact .choice (run_of_choice sound h)
  | seq ps => exact .seq (run_of_terms sound h)
  | scope rule ps =>
    obtain ⟨t, ht, h⟩ := Option.bind_eq_some_iff.1 h
    rw [Option.some.injEq] at h
    exact h ▸ .scope (run_of_terms sound ht)
  | label inner name =>
    obtain ⟨t, ht, h⟩ := Option.bind_eq_some_iff.1 h
    rw [Option.some.injEq] at h
    exact h ▸ .label (sound ht)
  | leftrec inner rule =>
    rw [step, leftrec] at h
    cases hs : s.seeds.get? (rule, s.pos) with
    | some seed =>
      simp only [hs, Option.some.injEq] at h
      exact h ▸ .seed hs
    | none =>
      simp only [hs] at h
      cases hb : s.blocked.contains rule with
      | true =>
        rw [if_pos hb] at h
        obtain ⟨t, ht, h⟩ := Option.bind_eq_some_iff.1 h
        rw [Option.some.injEq] at h
        exact h ▸ .once hs hb (sound ht)
      | false =>
        rw [if_neg (by rw [hb]; simp)] at h
        obtain ⟨t, ht, h⟩ := Option.bind_eq_some_iff.1 h
        rw [Option.some.injEq] at h
        exact h ▸ .grown hs hb (run_of_grow sound ht)
  | memo inner rule =>
    rw [step, memoized] at h
    cases hm : s.memo.get? (rule, s.pos) with
    | some entry =>
      simp only [hm, Option.some.injEq] at h
      exact h ▸ .hit hm
    | none =>
      simp only [hm] at h
      obtain ⟨t, ht, h⟩ := Option.bind_eq_some_iff.1 h
      rw [Option.some.injEq] at h
      exact h ▸ .miss hm (sound ht)
  | apply name =>
    cases hb : g.body? name with
    | none =>
      refine .atom ?_
      simp only [step, hb] at h
      simp only [atom?, hb]
      cases hr : BuiltinRule.ofName? name <;> simpa only [hr] using h
    | some body =>
      simp only [step, hb, applyRule] at h
      cases hc : (s.blocked.isEmpty || s.blocked.contains name) with
      | true =>
        rw [if_pos hc] at h
        have hrun := Run.rule (s := s) hb (by rw [MatchState.entering, if_pos hc]; exact sound h)
        rwa [MatchState.leaving, if_pos hc] at hrun
      | false =>
        have hc' := ne_true_of_eq_false hc
        rw [if_neg hc'] at h
        obtain ⟨t, ht, h⟩ := Option.bind_eq_some_iff.1 h
        have hrun := Run.rule (s := s) hb
          (by rw [MatchState.entering, if_neg hc']; exact sound ht)
        rw [MatchState.leaving, if_neg hc'] at hrun
        rw [Option.some.injEq] at h
        exact h ▸ hrun
  | not inner =>
    obtain ⟨t, ht, h⟩ := Option.bind_eq_some_iff.1 h
    rw [Option.some.injEq] at h
    exact h ▸ .not (sound ht)
  | opt inner =>
    obtain ⟨t, ht, h⟩ := Option.bind_eq_some_iff.1 h
    rw [Option.some.injEq] at h
    exact h ▸ .opt (sound ht)
  | star inner => exact .star (run_of_repeated sound h)
  | plus inner =>
    obtain ⟨t, ht, h⟩ := Option.bind_eq_some_iff.1 h
    cases hf : t.failed with
    | true =>
      rw [if_pos hf, Option.some.injEq] at h
      exact h ▸ .plusStop (sound ht) hf
    | false =>
      rw [if_neg (by simp [hf])] at h
      by_cases hp : t.pos = s.pos
      · rw [if_pos hp, Option.some.injEq] at h
        exact h ▸ .plusStill (sound ht) hf hp
      · rw [if_neg hp] at h
        exact .plusNext (sound ht) hf hp (run_of_repeated sound h)
  | paren inner => exact .paren (sound h)
  | capture inner =>
    obtain ⟨t, ht, h⟩ := Option.bind_eq_some_iff.1 h
    rw [Option.some.injEq] at h
    exact h ▸ .capture (sound ht)
  | lit | range | pred | eq | action | pos | empty => exact .atom h

end OfEval

/-- What `eval` answers is a run. -/
theorem run_of_eval {n : Nat} : ∀ {p : Pattern} {s s' : MatchState},
    eval g input n p s = some s' → Run g input (.whole p) s s' := by
  induction n with
  | zero =>
    intro p s s' h
    rw [eval_zero] at h
    contradiction
  | succ n ih =>
    intro p s s' h
    rw [eval_succ] at h
    exact run_of_step ih h

section ToEval

/-- A run is what every large enough amount of fuel makes of a task. -/
def Settles (g : Grammar) (input : Array Char) (task : Task) (s s' : MatchState) : Prop :=
  ∃ least, ∀ n k, least ≤ n → least ≤ k → perform g input n k task s = some s'

/-- A pattern settles if `step` does, given enough fuel for its parts. -/
theorem Settles.of_step {p : Pattern} {s s' : MatchState}
    (h : ∃ least, ∀ n, least ≤ n → step g input n (eval g input n) p s = some s') :
    Settles g input (.whole p) s s' := by
  obtain ⟨least, h⟩ := h
  refine ⟨least + 1, fun n _ hn _ => ?_⟩
  obtain ⟨m, rfl⟩ : ∃ m, n = m + 1 := ⟨n - 1, by omega⟩
  rw [perform, eval_succ]
  exact h m (by omega)

/-- A pattern that is evaluated through one task settles if the task does. -/
theorem Settles.via {p : Pattern} {task : Task} {s s' t t' : MatchState}
    (h : Settles g input task s s')
    (out : ∀ n, perform g input n n task s = some s' →
      step g input n (eval g input n) p t = some t') :
    Settles g input (.whole p) t t' := by
  obtain ⟨least, h⟩ := h
  exact .of_step ⟨least, fun n hn => out n (h n n hn hn)⟩

/-- A task settles if it does one round with a pattern that settles, and goes on with a task that
does.  Where there is no loop, the rounds do not count. -/
theorem Settles.rounds {p : Pattern} {rest task : Task} {s s' t t' u u' : MatchState}
    (h : Settles g input (.whole p) t t') (hrest : Settles g input rest u u')
    (out : ∀ n k, eval g input n p t = some t' → perform g input n k rest u = some u' →
      perform g input n (k + 1) task s = some s') :
    Settles g input task s s' := by
  obtain ⟨a, h⟩ := h
  obtain ⟨b, hrest⟩ := hrest
  refine ⟨max a b + 1, fun n k hn hk => ?_⟩
  obtain ⟨j, rfl⟩ : ∃ j, k = j + 1 := ⟨k - 1, by omega⟩
  exact out n j (h n j (by omega) (by omega)) (hrest n j (by omega) (by omega))

/-- A task settles if it does one round only. -/
theorem Settles.round {p : Pattern} {task : Task} {s s' t t' : MatchState}
    (h : Settles g input (.whole p) t t')
    (out : ∀ n k, eval g input n p t = some t' → perform g input n (k + 1) task s = some s') :
    Settles g input task s s' :=
  h.rounds h fun n k ht _ => out n k ht

/-- Every run settles. -/
theorem settles_of_run {task : Task} {s s' : MatchState} (h : Run g input task s s') :
    Settles g input task s s' := by
  induction h with
  | altsNil => exact ⟨0, fun _ _ _ _ => rfl⟩
  | altsLast _ ih => exact ih.round fun n k h => h
  | altsTaken _ ok ih => exact ih.round fun n k h => by simp [perform, Match.choice, h, ok]
  | altsNext _ bad _ ih ihRest =>
    refine ih.rounds ihRest fun n k h hrest => ?_
    simp only [perform, Match.choice, h, Option.bind_eq_bind, Option.bind_some, if_pos bad]
    exact hrest
  | termsNil => exact ⟨0, fun _ _ _ _ => rfl⟩
  | termsStop _ bad ih => exact ih.round fun n k h => by simp [perform, Match.terms, h, bad]
  | termsNext _ ok _ ih ihRest =>
    refine ih.rounds ihRest fun n k h hrest => ?_
    simp only [perform] at hrest
    simp [perform, Match.terms, h, ok, hrest]
  | repeatedStop _ bad ih =>
    exact ih.round fun n k h => by simp [perform, Match.repeated, h, bad]
  | repeatedStill _ ok still ih =>
    exact ih.round fun n k h => by simp [perform, Match.repeated, h, ok, still]
  | repeatedNext _ ok moved _ ih ihRest =>
    refine ih.rounds ihRest fun n k h hrest => ?_
    simp only [perform] at hrest
    simp [perform, Match.repeated, h, ok, moved, hrest]
  | growStop _ stop ih => exact ih.round fun n k h => by simp [perform, grow_succ, h, stop]
  | growNext _ further _ ih ihRest =>
    refine ih.rounds ihRest fun n k h hrest => ?_
    simp only [perform] at hrest
    simp [perform, grow_succ, h, further, hrest]
  | @atom p s s' h =>
    refine .of_step ⟨0, fun n _ => ?_⟩
    cases p with
    | apply name =>
      cases hb : g.body? name with
      | some body => simp [atom?, hb] at h
      | none =>
        simp only [atom?, hb] at h
        simp only [step, hb]
        cases hr : BuiltinRule.ofName? name <;> simpa only [hr] using h
    | lit | range | pred | eq | action | pos | empty => exact h
    | _ => contradiction
  | choice _ ih => exact ih.via fun n h => h
  | seq _ ih => exact ih.via fun n h => h
  | scope _ ih =>
    refine ih.via fun n h => ?_
    simp only [perform] at h
    simp only [step, sequence]
    rw [h]
    rfl
  | label _ ih =>
    refine ih.via fun n h => ?_
    simp only [perform] at h
    simp [step, h, MatchState.labelled]
  | seed found => exact .of_step ⟨0, fun n _ => by simp [step, leftrec, found]⟩
  | once unseeded blocked _ ih =>
    refine ih.via fun n h => ?_
    simp only [perform, MatchState.seeded] at h
    simp [step, leftrec, unseeded, List.contains_iff_mem.1 blocked, h]
  | grown unseeded unblocked _ ih =>
    refine ih.via fun n h => ?_
    simp only [perform, growing, MatchState.seeded] at h
    have hb := ne_true_of_eq_false unblocked
    rw [step, leftrec]
    simp only [unseeded, if_neg hb, h]
    rfl
  | hit found => exact .of_step ⟨0, fun n _ => by simp [step, memoized, found]⟩
  | miss unknown _ ih =>
    refine ih.via fun n h => ?_
    simp only [perform] at h
    simp [step, memoized, unknown, h, kept]
  | @rule name body s s' found _ ih =>
    refine ih.via fun n h => ?_
    simp only [perform, MatchState.entering] at h
    simp only [step, found, applyRule, MatchState.leaving]
    split at h
    · next hc => rw [if_pos hc, if_pos hc, h]
    · next hc =>
      rw [if_neg hc, if_neg hc, h]
      rfl
  | not _ ih =>
    refine ih.via fun n h => ?_
    simp only [perform] at h
    simp [step, h, looked]
  | opt _ ih =>
    refine ih.via fun n h => ?_
    simp only [perform] at h
    simp [step, h, optional]
  | star _ ih => exact ih.via fun n h => h
  | plusStop _ bad ih =>
    refine ih.via fun n h => ?_
    simp only [perform] at h
    simp [step, repeatedOnce, h, bad]
  | plusStill _ ok still ih =>
    refine ih.via fun n h => ?_
    simp only [perform] at h
    simp [step, repeatedOnce, h, ok, still]
  | plusNext _ ok moved _ ih ihRest =>
    obtain ⟨a, ih⟩ := ih
    obtain ⟨b, ihRest⟩ := ihRest
    refine .of_step ⟨max a b, fun n hn => ?_⟩
    have ht := ih n n (by omega) (by omega)
    have hrest := ihRest n n (by omega) (by omega)
    simp only [perform] at ht hrest
    simp [step, repeatedOnce, ht, ok, moved, hrest]
  | paren _ ih => exact ih.via fun n h => h
  | capture _ ih =>
    refine ih.via fun n h => ?_
    simp only [perform] at h
    simp [step, h, captured]

end ToEval

/-- A pattern runs from one state to another exactly if `eval` answers so with some fuel. -/
theorem run_iff_eval {p : Pattern} {s s' : MatchState} :
    Run g input (.whole p) s s' ↔ ∃ n, eval g input n p s = some s' := by
  constructor
  · intro h
    obtain ⟨least, h⟩ := settles_of_run h
    exact ⟨least, h least least (Nat.le_refl _) (Nat.le_refl _)⟩
  · rintro ⟨n, h⟩
    exact run_of_eval h

/-- A task and a state determine where the run ends. -/
theorem Run.unique {task : Task} {s a b : MatchState} (ha : Run g input task s a)
    (hb : Run g input task s b) : a = b := by
  obtain ⟨m, ha⟩ := settles_of_run ha
  obtain ⟨n, hb⟩ := settles_of_run hb
  have ha' := ha (max m n) (max m n) (by omega) (by omega)
  have hb' := hb (max m n) (max m n) (by omega) (by omega)
  exact Option.some.inj (ha'.symm.trans hb')

/-- The name of a rule that no grammar starts with is no builtin rule. -/
theorem ofName?_start (unknown : g.body? g.start = none) : BuiltinRule.ofName? g.start = none := by
  cases hbodies : g.bodies with
  | nil =>
    rw [Grammar.start, hbodies]
    decide
  | cons b bodies => simp [Grammar.body?, Bodies.body?, Grammar.start, hbodies] at unknown

/-- A whole match is a run of the starting rule, whatever the grammar. -/
theorem run_start_iff {s : MatchState} :
    Run g input (.whole (.apply g.start)) .initial s ↔ ∃ n, final? g input n = some s := by
  have level (n : Nat) :
      step g input n (eval g input n) (.apply g.start) .initial = final? g input n := by
    rw [step, final?]
    cases found : g.body? g.start with
    | some body => rfl
    | none => rw [ofName?_start found]
  rw [run_iff_eval]
  constructor
  · rintro ⟨n, h⟩
    cases n with
    | zero => contradiction
    | succ n => exact ⟨n, by rw [← level, ← eval_succ, h]⟩
  · rintro ⟨n, h⟩
    exact ⟨n + 1, by rw [eval_succ, level, h]⟩

/-! ## What a run comes to -/

/-- Carrying out the first task in the first state comes to carrying out the second one in the
second state, as a part of it.  What is carried out before has come to its end; whether the part or
the whole does is left open. -/
inductive Calls (g : Grammar) (input : Array Char) :
    Task → MatchState → Task → MatchState → Prop where
  | altsHead {start p ps s} : Calls g input (.alts start (p :: ps)) s (.whole p) s
  | altsTail {start p q ps s s'} (h : Run g input (.whole p) s s') (bad : s'.failed = true) :
      Calls g input (.alts start (p :: q :: ps)) s (.alts start (q :: ps)) { s' with pos := start }
  | termsHead {p ps s} : Calls g input (.terms (p :: ps)) s (.whole p) s
  | termsTail {p ps s s'} (h : Run g input (.whole p) s s') (ok : s'.failed = false) :
      Calls g input (.terms (p :: ps)) s (.terms ps) s'
  | repeatedHead {inner items s} : Calls g input (.repeated inner items) s (.whole inner) s
  | repeatedTail {inner items s s'} (h : Run g input (.whole inner) s s') (ok : s'.failed = false)
      (moved : s'.pos ≠ s.pos) :
      Calls g input (.repeated inner items) s (.repeated inner (s'.value :: items)) s'
  | growHead {inner key s} :
      Calls g input (.grow inner key) s (.whole inner) { s with pos := key.2 }
  | growTail {inner key s s'} (h : Run g input (.whole inner) { s with pos := key.2 } s')
      (further : s'.outgrows key = true) :
      Calls g input (.grow inner key) s (.grow inner key) (s'.reseeded key)
  | choice {alts s} : Calls g input (.whole (.choice alts)) s (.alts s.pos alts) s
  | seq {ps s} : Calls g input (.whole (.seq ps)) s (.terms ps) (s.succeed .null)
  | scope {rule ps s} :
      Calls g input (.whole (.scope rule ps)) s (.terms ps)
        ({ s with scopes := s.scopes.push }.succeed .null)
  | label {inner name s} : Calls g input (.whole (.label inner name)) s (.whole inner) s
  | once {inner rule s} (unseeded : s.seeds.get? (rule, s.pos) = none)
      (blocked : s.blocked.contains rule = true) :
      Calls g input (.whole (.leftrec inner rule)) s (.whole inner) (s.seeded rule)
  | grown {inner rule s} (unseeded : s.seeds.get? (rule, s.pos) = none)
      (unblocked : s.blocked.contains rule = false) :
      Calls g input (.whole (.leftrec inner rule)) s (.grow inner (rule, s.pos)) (growing g rule s)
  | miss {inner rule s} (unknown : s.memo.get? (rule, s.pos) = none) :
      Calls g input (.whole (.memo inner rule)) s (.whole inner) { s with furthest := none }
  | rule {name body s} (found : g.body? name = some body) :
      Calls g input (.whole (.apply name)) s (.whole body) (s.entering name)
  | not {inner s} :
      Calls g input (.whole (.not inner)) s (.whole inner) { s with furthest := none }
  | opt {inner s} : Calls g input (.whole (.opt inner)) s (.whole inner) s
  | star {inner s} : Calls g input (.whole (.star inner)) s (.repeated inner []) s
  | plusHead {inner s} : Calls g input (.whole (.plus inner)) s (.whole inner) s
  | plusTail {inner s s'} (h : Run g input (.whole inner) s s') (ok : s'.failed = false)
      (moved : s'.pos ≠ s.pos) :
      Calls g input (.whole (.plus inner)) s (.repeated inner [s'.value]) s'
  | paren {inner s} : Calls g input (.whole (.paren inner)) s (.whole inner) s
  | capture {inner s} : Calls g input (.whole (.capture inner)) s (.whole inner) s

/-- Carrying out a task comes to another one through any number of parts. -/
inductive Reaches (g : Grammar) (input : Array Char) :
    Task → MatchState → Task → MatchState → Prop where
  | refl {task s} : Reaches g input task s task s
  | step {task s task' s' task'' s''} (call : Calls g input task s task' s')
      (rest : Reaches g input task' s' task'' s'') : Reaches g input task s task'' s''

end Match

end Pegboard
