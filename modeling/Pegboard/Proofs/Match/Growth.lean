import Pegboard.Proofs.Match.LeftFold

/-!
# Growth, told by what its rounds come to

A left-recursive rule grows in rounds.  What a round comes to depends on the seed, and the next seed
is what the round came to, so the growth as a whole is told by a relation between seeds and answers:
if every round comes to what the relation says, the rule comes to the end of the climb.

Answers are looked at through a `View`, which says what of a value matters and whether it matters
how far the failures on the way have reached.

## Main Definitions

* `View`: how outcomes are looked at.
* `Comes`: a task runs from a state to an answer.
* `Climb`: the rounds from a seed to the last.

## Main Results

* `apply_of_climb`: a rule that grows comes to the end of the climb.
* `apply_of_seed`, `apply_of_blocked`: a rule with a seed adopts it, and one that is blocked matches
  once.
-/

namespace Pegboard

variable {β : Type}

/-! ## Views -/

/-- How far a failure reaches: behind the offset where it is, or nowhere if there is none. -/
def Failure.reach (failure : Option Failure) : Nat := failure.elim 0 (·.pos + 1)

theorem Failure.reach_merge (f g : Option Failure) :
    reach (merge f g) = max (reach f) (reach g) := by
  cases f with
  | none => simp [reach]
  | some f =>
    cases g with
    | none => simp [reach]
    | some g =>
      simp only [merge]
      split <;> simp only [reach, Option.elim_some] <;> omega

/-- How far the failures of a match have reached. -/
def MatchState.reach (s : MatchState) : Nat := Failure.reach s.furthest

/-- How outcomes are looked at. -/
structure View (β : Type) where
  /-- Whether a value counts as one. -/
  Is : β → Value → Prop
  /-- Whether it is told how far failures have reached. -/
  told : Prop

namespace View

/-- Values count as they are, and failures are not told. -/
def plain : View Value := ⟨fun b v => v = b, False⟩

/-- Whether an outcome counts as an answer. -/
def Shows (V : View β) (o : Outcome) : Option (β × Nat) → Prop
  | none => o.failed = true
  | some (b, pos) => o.failed = false ∧ o.pos = pos ∧ V.Is b o.value

/-- Between two states the failures have reached `c`, if that is told. -/
def Gains (V : View β) (c : Nat) (s s' : MatchState) : Prop :=
  V.told → s'.reach = max s.reach c

variable {V : View β} {s t s' : MatchState} {c c' : Nat}

theorem Gains.trans (h : V.Gains c s t) (h' : V.Gains c' t s') : V.Gains (max c c') s s' :=
  fun told => by rw [h' told, h told, Nat.max_assoc]

theorem gains_mergeFailure (V : View β) (s : MatchState) (failure : Option Failure) :
    V.Gains (Failure.reach failure) s (s.mergeFailure failure) :=
  fun _ => Failure.reach_merge s.furthest failure

/-- A plain view shows the answer of an outcome. -/
theorem plain_shows {o : Outcome} {a : Option (Value × Nat)} : plain.Shows o a ↔ o.answer = a := by
  obtain ⟨value, failed, pos⟩ := o
  cases a with
  | none => cases failed <;> simp [Shows, Outcome.answer]
  | some a =>
    obtain ⟨b, p⟩ := a
    cases failed <;> simp [Shows, Outcome.answer, plain, and_comm]

end View

namespace Match

/-- From a state, a task runs to an answer, and the failures on the way reach `c`. -/
def Comes (V : View β) (g : Grammar) (input : Array Char) (task : Task) (s : MatchState)
    (a : Option (β × Nat)) (c : Nat) : Prop :=
  ∃ w, Run g input task s w ∧ V.Shows w.outcome a ∧ V.Gains c s w

/-! ## Rounds -/

/-- Whether an answer reaches further than a seed. -/
def Further : Option (β × Nat) → Option (β × Nat) → Prop
  | _, none => False
  | none, some _ => True
  | some seed, some a => seed.2 < a.2

/-- The rounds of growth from a seed to the last, if `Round` says what each comes to. -/
inductive Climb (Round : Option (β × Nat) → Option (β × Nat) → Nat → Prop) :
    Option (β × Nat) → Option (β × Nat) → Nat → Prop where
  | stop {seed a c} (h : Round seed a c) (still : ¬ Further seed a) : Climb Round seed seed c
  | next {seed a last c c'} (h : Round seed a c) (further : Further seed a)
      (rest : Climb Round a last c') : Climb Round seed last (max c c')

variable {V : View β} {g : Grammar} {input : Array Char} {r : String} {inner : Pattern}
variable {s u : MatchState} {Round : Option (β × Nat) → Option (β × Nat) → Nat → Prop}
variable {seed last : Option (β × Nat)} {c : Nat}

/-- Whether a round reaches further than its seed is decided by what both count as. -/
theorem Growing.outgrows_iff {o : Outcome} {w : MatchState} {a : Option (β × Nat)}
    (h : Growing r s o w) (seeds : V.Shows o seed) (shows : V.Shows w.outcome a) :
    w.outgrows (r, s.pos) = true ↔ Further seed a := by
  rw [h.outgrows]
  cases a with
  | none =>
    have hanswer : w.answer = none := answer_eq_none.2 shows
    simp [hanswer, Further]
  | some a =>
    obtain ⟨good, hpos, -⟩ := shows
    have hanswer : w.answer = some (w.value, a.2) :=
      answer_eq_some.2 (by rw [MatchState.outcome, ← hpos, ← good]; rfl)
    cases seed with
    | none =>
      have bad : o.failed = true := seeds
      simp [hanswer, Further, bad]
    | some b =>
      obtain ⟨good', hpos', -⟩ := seeds
      simp only [hanswer, Further, good', hpos', Bool.false_eq_true, false_or, Option.some.injEq,
        Prod.mk.injEq]
      constructor
      · rintro ⟨_, _, ⟨_, rfl⟩, h⟩
        exact h
      · intro h
        exact ⟨_, _, ⟨rfl, rfl⟩, h⟩

/-- After a round the rule grows from what the round came to. -/
theorem Growing.next {o : Outcome} (h : Growing r s o u) :
    Growing r s u.outcome (u.reseeded (r, s.pos)) :=
  ⟨by rw [MatchState.reseeded, h.seeds, Table.insert_insert], h.blocked, h.scopes, h.memo⟩

/-- A seed grows to the end of the climb, if every round comes to what it should. -/
theorem Climb.run (rules : ∀ b ∈ g.bodies, b.2.Closed)
    (memoless : ∀ b ∈ g.bodies, b.2.Everywhere Pattern.NotMemo) (closed : inner.Closed)
    (all : All Pattern.NotMemo [inner])
    (rounds : ∀ {seed a c o u}, Round seed a c → V.Shows o seed → Growing r s o u →
      u.pos = s.pos → Comes V g input (.whole inner) u a c)
    (climb : Climb Round seed last c) {o : Outcome} (h : Growing r s o u)
    (seeds : V.Shows o seed) :
    ∃ u' o', Run g input (.grow inner (r, s.pos)) u u' ∧ Growing r s o' u' ∧ V.Shows o' last ∧
      V.Gains c u u' ∧ (last.isSome ∨ o' = o) := by
  -- A round starts where the rule was applied, and leaves the growing seed alone.
  have round {seed : Option (β × Nat)} {a : Option (β × Nat)} {c : Nat} {u : MatchState}
      {o : Outcome} (does : Round seed a c) (seeds : V.Shows o seed) (h : Growing r s o u) :
      ∃ w, Run g input (.whole inner) { u with pos := s.pos } w ∧ V.Shows w.outcome a ∧
        V.Gains c { u with pos := s.pos } w ∧ Growing r s o w := by
    have back : Growing r s o { u with pos := s.pos } := ⟨h.seeds, h.blocked, h.scopes, h.memo⟩
    obtain ⟨w, run, shows, gains⟩ := rounds does seeds back rfl
    exact ⟨w, run, shows, gains, Growing.run rules memoless back run closed all⟩
  induction climb generalizing u o with
  | stop does still =>
    obtain ⟨w, run, shows, gains, hw⟩ := round does seeds h
    refine ⟨w, o, .growStop run ?_, hw, seeds, gains, .inr rfl⟩
    rwa [Bool.eq_false_iff, Ne, hw.outgrows_iff seeds shows]
  | @next seed a last c c' does further _ ih =>
    obtain ⟨w, run, shows, gains, hw⟩ := round does seeds h
    obtain ⟨u', o', rest, hu', shows', gains', hlast⟩ := ih hw.next shows
    refine ⟨u', o', .growNext run ((hw.outgrows_iff seeds shows).2 further) rest, hu', shows',
      gains.trans gains', ?_⟩
    -- The outcome of a round that reached further is no failure, so neither is the last.
    rcases hlast with hlast | rfl
    · exact .inl hlast
    · cases a with
      | none => exact further.elim
      | some a =>
        cases last with
        | none => exact absurd shows.1 (ne_false_of_eq_true shows')
        | some _ => exact .inl rfl

/-! ## Applying a left-recursive rule -/

/-- Where its own blocking does not matter, a rule is entered in the state as it is. -/
theorem entering_eq_self (open' : (u.blocked.isEmpty || u.blocked.contains r) = true) :
    u.entering r = u := if_pos open'

theorem leaving_eq_self (open' : (u.blocked.isEmpty || u.blocked.contains r) = true)
    (w : MatchState) : u.leaving r w = w := if_pos open'

/-- Where its own blocking does not matter, a rule does what its body does. -/
theorem apply_of_body {body : Pattern} (found : g.body? r = some body)
    (open' : (u.blocked.isEmpty || u.blocked.contains r) = true) {w : MatchState}
    (run : Run g input (.whole body) u w) : Run g input (.whole (.apply r)) u w := by
  rw [← entering_eq_self open'] at run
  have outer := Run.rule found run
  rwa [leaving_eq_self open'] at outer

/-- A rule with a seed at the current offset adopts it. -/
theorem apply_of_seed (found : g.body? r = some (.leftrec inner r)) {o : Outcome}
    (hseed : u.seeds.get? (r, u.pos) = some o)
    (open' : (u.blocked.isEmpty || u.blocked.contains r) = true) :
    Run g input (.whole (.apply r)) u (u.adopt o) :=
  apply_of_body found open' (.seed hseed)

/-- A rule that is blocked, and has no seed, matches once. -/
theorem apply_of_blocked (found : g.body? r = some (.leftrec inner r))
    (unseeded : u.seeds.get? (r, u.pos) = none) (blocked : u.blocked.contains r = true)
    {w : MatchState} (run : Run g input (.whole inner) (u.seeded r) w) :
    Run g input (.whole (.apply r)) u { w with seeds := w.seeds.erase (r, u.pos) } :=
  apply_of_body found (by rw [blocked, Bool.or_true]) (.once unseeded blocked run)

/-- The state in which the rounds of a rule that grows take place, without its seed. -/
def rounding (g : Grammar) (r : String) (u : MatchState) : MatchState :=
  { u with blocked := if g.isLeftAssoc r then [r] else [] }

/-- **Growth comes to the end of the climb.**  Where no rule is blocked, and there is no seed yet, a
rule grows from the failing seed to the last one.  If it fails, it does so where it started. -/
theorem apply_of_climb (found : g.body? r = some (.leftrec inner r))
    (rules : ∀ b ∈ g.bodies, b.2.Closed)
    (memoless : ∀ b ∈ g.bodies, b.2.Everywhere Pattern.NotMemo)
    (unblocked : u.blocked = []) (unseeded : u.seeds.get? (r, u.pos) = none)
    (rounds : ∀ {seed a c o v}, Round seed a c → V.Shows o seed →
      Growing r (rounding g r u) o v → v.pos = u.pos → Comes V g input (.whole inner) v a c)
    (climb : Climb Round none last c) :
    ∃ w, Run g input (.whole (.apply r)) u w ∧ V.Shows w.outcome last ∧ V.Gains c u w ∧
      (last = none → w.pos = u.pos) := by
  have open' : (u.blocked.isEmpty || u.blocked.contains r) = true := by rw [unblocked]; rfl
  have free : u.blocked.contains r = false := by rw [unblocked]; rfl
  have closed : inner.Closed := rules _ (Bodies.mem_of_body? found)
  have all : All Pattern.NotMemo [inner] := (all_body memoless found).parts
  have start : Growing r (rounding g r u) (.failing u.pos) (growing g r u) := by
    refine ⟨rfl, ?_, rfl, rfl⟩
    rw [rounding, growing, unblocked]
  obtain ⟨u', o', run, hu', shows, gains, hlast⟩ :=
    climb.run rules memoless closed all rounds start (show V.Shows _ none from rfl)
  have hseed : u'.seeds.get? (r, u.pos) = some o' := by
    rw [hu'.seeds]
    exact Table.get?_insert_self _ _ _
  have houtcome : (grown g r u u').outcome = o' := by
    show (u'.seeds.get? (r, u.pos)).getD _ = o'
    rw [hseed, Option.getD_some]
  refine ⟨_, apply_of_body found open' (.grown unseeded free run), houtcome ▸ shows, gains, ?_⟩
  rintro rfl
  obtain rfl := hlast.resolve_left (by simp)
  exact congrArg Outcome.pos houtcome

end Match

end Pegboard
