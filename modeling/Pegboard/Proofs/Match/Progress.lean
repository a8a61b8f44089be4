import Pegboard.Proofs.Match.Frame

/-!
# Progress through the input

A match never goes back behind the offset where it started, and it stays there, without failing,
only if its pattern may be empty.  Growing seeds and kept outcomes could spoil that, for they give
what was recorded in place of what is matched; so it is proved along with the fact that whatever is
recorded for a rule at an offset keeps to the same two laws.

As long as no input is consumed, what a task comes to apply is also among what its form says that it
may apply first.

## Main Definitions

* `Placed`: what is recorded in a state keeps to the laws of progress.
* `Task.origin`: the offset where a task starts.
* `Ready`: what a task and a state must be for progress.
* `Coherent`: what is so of the states that a match comes to.

## Main Results

* `Run.advances`: a run makes progress.
* `Reaches.coherent`: a match comes to coherent states only.
* `Calls.descends`: a part of a task starts no earlier than the task, and if it starts where the task
  does, then the task opens what the part opens.
-/

namespace Pegboard.Match

open Pattern

variable {g : Grammar} {input : Array Char} {empty : String → Prop}

/-! ## Recorded outcomes -/

/-- An outcome at or after the offset of a rule, and a success at that offset only of a rule that
may be empty. -/
def PlacedAt (empty : String → Prop) (key : RuleAt) (outcome : Outcome) : Prop :=
  key.2 ≤ outcome.pos ∧ (outcome.failed = false → outcome.pos = key.2 → empty key.1)

/-- Every outcome that is recorded in a state is where it may be. -/
structure Placed (empty : String → Prop) (s : MatchState) : Prop where
  seeds : ∀ e ∈ s.seeds, PlacedAt empty e.1 e.2
  memo : ∀ e ∈ s.memo, PlacedAt empty e.1 e.2.outcome

theorem placedAt_failing (empty : String → Prop) (key : RuleAt) :
    PlacedAt empty key (.failing key.2) :=
  ⟨Nat.le_refl _, fun h => by contradiction⟩

theorem placed_initial (empty : String → Prop) : Placed empty .initial :=
  ⟨fun e he => by contradiction, fun e he => by contradiction⟩

section Tables

variable {α : Type} {P : RuleAt × α → Prop} {table : Table α} {key : RuleAt} {a : α}

theorem mem_of_get? (h : table.get? key = some a) : (key, a) ∈ table := by
  obtain ⟨e, he, rfl⟩ := Option.map_eq_some_iff.1 h
  have hkey : e.1 = key := by simpa using List.find?_some he
  exact hkey ▸ List.mem_of_find?_eq_some he

theorem forall_erase (h : ∀ e ∈ table, P e) : ∀ e ∈ table.erase key, P e :=
  fun e he => h e (List.mem_filter.1 he).1

theorem forall_insert (h : ∀ e ∈ table, P e) (ha : P (key, a)) : ∀ e ∈ table.insert key a, P e := by
  intro e he
  rcases List.mem_cons.1 he with rfl | he
  · exact ha
  · exact forall_erase h e he

end Tables

/-! ## Where a task starts -/

/-- The offset where a task starts. -/
def Task.origin : Task → MatchState → Nat
  | .alts start _, _ => start
  | .grow _ key, _ => key.2
  | _, s => s.pos

/-- Whether a task may succeed without consuming input, if that is so of the rules in `empty`. -/
def Task.nullable (empty : String → Prop) : Task → Prop
  | .whole p => p.nullable empty
  | .alts _ ps => nullableAny empty ps
  | .terms ps => nullableAll empty ps
  | .repeated _ _ => True
  | .grow inner _ => inner.nullable empty

/-- Whether a task may apply a rule where it starts, if the rules in `empty` may be empty. -/
def Task.opens (empty : String → Prop) (name : String) : Task → Prop
  | .whole p => p.opens (Pattern.nullable empty) name
  | .alts _ ps => opensAny (Pattern.nullable empty) name ps
  | .terms ps => opensTerms (Pattern.nullable empty) name ps
  | .repeated inner _ => inner.opens (Pattern.nullable empty) name
  | .grow inner _ => inner.opens (Pattern.nullable empty) name

/-- Whether a task is one that a match comes to: alternatives start where they are tried from, and
the rule that grows may be empty if its body may. -/
def Task.Fits (empty : String → Prop) : Task → MatchState → Prop
  | .alts start _, s => s.pos = start
  | .grow inner key, _ => inner.nullable empty → empty key.1
  | _, _ => True

/-- What a task and a state must be for progress. -/
structure Ready (empty : String → Prop) (task : Task) (s : MatchState) : Prop where
  placed : Placed empty s
  wrapped : All (WrapClosed empty) task.patterns
  fits : task.Fits empty s

/-- Progress of a task from one state to another. -/
structure Advanced (empty : String → Prop) (task : Task) (s s' : MatchState) : Prop where
  placed : Placed empty s'
  ahead : task.origin s ≤ s'.pos
  still : s'.failed = false → s'.pos = task.origin s → task.nullable empty

/-! ## Progress of runs -/

theorem Placed.of_tables {s s' : MatchState} (h : Placed empty s) (seeds : s'.seeds = s.seeds)
    (memo : s'.memo = s.memo) : Placed empty s' :=
  ⟨seeds ▸ h.seeds, memo ▸ h.memo⟩

theorem Placed.mono {a b : String → Prop} {s : MatchState} (h : Placed a s)
    (hab : ∀ name, a name → b name) : Placed b s := by
  refine ⟨fun e he => ?_, fun e he => ?_⟩
  · exact ⟨(h.seeds e he).1, fun ok hp => hab _ ((h.seeds e he).2 ok hp)⟩
  · exact ⟨(h.memo e he).1, fun ok hp => hab _ ((h.memo e he).2 ok hp)⟩

theorem Placed.seeded {s : MatchState} (h : Placed empty s) (rule : String) :
    Placed empty (s.seeded rule) :=
  ⟨forall_insert h.seeds (placedAt_failing empty (rule, s.pos)), h.memo⟩

theorem Placed.growing {s : MatchState} (h : Placed empty s) (g : Grammar) (rule : String) :
    Placed empty (growing g rule s) :=
  (h.seeded rule).of_tables rfl rfl

/-- What a rule adopts after it has grown is where it may be, and so is what stays recorded. -/
theorem Placed.grown {s s' : MatchState} (h : Placed empty s') (g : Grammar) (rule : String) :
    Placed empty (Match.grown g rule s s') ∧
      PlacedAt empty (rule, s.pos) (Match.grown g rule s s').outcome := by
  refine ⟨⟨forall_erase h.seeds, h.memo⟩, ?_⟩
  have houtcome : (Match.grown g rule s s').outcome
      = (s'.seeds.get? (rule, s.pos)).getD (.failing s.pos) := rfl
  rw [houtcome]
  cases hseed : s'.seeds.get? (rule, s.pos) with
  | none => exact placedAt_failing empty (rule, s.pos)
  | some seed => exact h.seeds _ (mem_of_get? hseed)

/-- Every run makes progress, if the rules in `empty` are all that may be empty. -/
theorem Run.advances (closed : g.bodies.EmptyClosed empty) {task : Task} {s s' : MatchState}
    (h : Run g input task s s') (ready : Ready empty task s) : Advanced empty task s s' := by
  induction h with
  | altsNil =>
    refine ⟨ready.placed.of_tables rfl rfl, ?_, fun h => by contradiction⟩
    exact Nat.le_of_eq ready.fits.symm
  | altsLast _ ih =>
    obtain ⟨placed, ahead, still⟩ := ih ⟨ready.placed, ready.wrapped, trivial⟩
    have hstart := ready.fits
    exact ⟨placed, hstart ▸ ahead, fun ok hp => .inl (still ok (hp.trans hstart.symm))⟩
  | altsTaken _ _ ih =>
    obtain ⟨placed, ahead, still⟩ := ih ⟨ready.placed, ready.wrapped.head, trivial⟩
    have hstart := ready.fits
    exact ⟨placed, hstart ▸ ahead, fun ok hp => .inl (still ok (hp.trans hstart.symm))⟩
  | altsNext _ _ _ ih ihRest =>
    have first := ih ⟨ready.placed, ready.wrapped.head, trivial⟩
    obtain ⟨placed, ahead, still⟩ :=
      ihRest ⟨first.placed.of_tables rfl rfl, ready.wrapped.tail, rfl⟩
    exact ⟨placed, ahead, fun ok hp => .inr (still ok hp)⟩
  | termsNil => exact ⟨ready.placed, Nat.le_refl _, fun _ _ => trivial⟩
  | termsStop _ bad ih =>
    obtain ⟨placed, ahead, -⟩ := ih ⟨ready.placed, ready.wrapped.head, trivial⟩
    exact ⟨placed, ahead, fun ok => by rw [bad] at ok; contradiction⟩
  | @termsNext p ps s s' s'' _ ok _ ih ihRest =>
    have first := ih ⟨ready.placed, ready.wrapped.head, trivial⟩
    have rest := ihRest ⟨first.placed, ready.wrapped.tail, trivial⟩
    have hfirst : s.pos ≤ s'.pos := first.ahead
    have hrest : s'.pos ≤ s''.pos := rest.ahead
    refine ⟨rest.placed, Nat.le_trans hfirst hrest, fun ok' hp => ?_⟩
    have hp : s''.pos = s.pos := hp
    have hs' : s'.pos = s.pos := by omega
    exact ⟨first.still ok hs', rest.still ok' (hp.trans hs'.symm)⟩
  | repeatedStop _ _ ih =>
    obtain ⟨placed, -, -⟩ := ih ⟨ready.placed, ready.wrapped, trivial⟩
    exact ⟨placed.of_tables rfl rfl, Nat.le_refl _, fun _ _ => trivial⟩
  | repeatedStill _ _ _ ih =>
    obtain ⟨placed, ahead, -⟩ := ih ⟨ready.placed, ready.wrapped, trivial⟩
    exact ⟨placed.of_tables rfl rfl, ahead, fun _ _ => trivial⟩
  | repeatedNext _ _ _ _ ih ihRest =>
    have first := ih ⟨ready.placed, ready.wrapped, trivial⟩
    have rest := ihRest ⟨first.placed, ready.wrapped, trivial⟩
    exact ⟨rest.placed, Nat.le_trans first.ahead rest.ahead, fun _ _ => trivial⟩
  | growStop _ _ ih =>
    obtain ⟨placed, ahead, still⟩ :=
      ih ⟨ready.placed.of_tables rfl rfl, ready.wrapped, trivial⟩
    exact ⟨placed, ahead, still⟩
  | @growNext inner key s s' s'' _ _ _ ih ihRest =>
    obtain ⟨placed, ahead, still⟩ :=
      ih ⟨ready.placed.of_tables rfl rfl, ready.wrapped, trivial⟩
    have hseed : PlacedAt empty key s'.outcome :=
      ⟨ahead, fun ok hp => ready.fits (still ok hp)⟩
    obtain ⟨placed, ahead, still⟩ :=
      ihRest ⟨⟨forall_insert placed.seeds hseed, placed.memo⟩, ready.wrapped, ready.fits⟩
    exact ⟨placed, ahead, still⟩
  | atom h =>
    obtain ⟨outcome, failure, effect, ahead, still⟩ := atom?_effect h
    rw [effect _ rfl fun _ _ => rfl, Option.some.injEq] at h
    subst h
    exact ⟨ready.placed.of_tables rfl rfl, ahead, fun ok hp => still ok hp empty closed⟩
  | choice _ ih =>
    obtain ⟨placed, ahead, still⟩ := ih ⟨ready.placed, ready.wrapped.parts, rfl⟩
    exact ⟨placed, ahead, still⟩
  | seq _ ih =>
    obtain ⟨placed, ahead, still⟩ :=
      ih ⟨ready.placed.of_tables rfl rfl, ready.wrapped.parts, trivial⟩
    exact ⟨placed, ahead, still⟩
  | scope _ ih =>
    obtain ⟨placed, ahead, still⟩ :=
      ih ⟨ready.placed.of_tables rfl rfl, ready.wrapped.parts, trivial⟩
    exact ⟨placed.of_tables rfl rfl, ahead, still⟩
  | @label inner name s s' _ ih =>
    obtain ⟨placed, ahead, still⟩ := ih ⟨ready.placed, ready.wrapped.parts, trivial⟩
    obtain ⟨frame, h⟩ := s'.labelled_eq name
    rw [h]
    exact ⟨placed.of_tables rfl rfl, ahead, still⟩
  | seed found =>
    obtain ⟨ahead, still⟩ := ready.placed.seeds _ (mem_of_get? found)
    exact ⟨ready.placed.of_tables rfl rfl, ahead, fun ok hp => .inr (still ok hp)⟩
  | @once inner rule s s' _ _ _ ih =>
    obtain ⟨placed, ahead, still⟩ :=
      ih ⟨ready.placed.seeded rule, ready.wrapped.parts, trivial⟩
    exact ⟨⟨forall_erase placed.seeds, placed.memo⟩, ahead, fun ok hp => .inl (still ok hp)⟩
  | @grown inner rule s s' _ _ _ ih =>
    obtain ⟨placed, -, -⟩ :=
      ih ⟨ready.placed.growing g rule, ready.wrapped.parts, ready.wrapped.here⟩
    obtain ⟨placed, ahead, still⟩ := placed.grown (s := s) g rule
    exact ⟨placed, ahead, fun ok hp => .inr (still ok hp)⟩
  | hit found =>
    obtain ⟨ahead, still⟩ := ready.placed.memo _ (mem_of_get? found)
    exact ⟨ready.placed.of_tables rfl rfl, ahead, fun ok hp => .inr (still ok hp)⟩
  | miss _ _ ih =>
    obtain ⟨placed, ahead, still⟩ :=
      ih ⟨ready.placed.of_tables rfl rfl, ready.wrapped.parts, trivial⟩
    refine ⟨⟨placed.seeds, forall_insert placed.memo ⟨ahead, fun ok hp => ?_⟩⟩, ahead,
      fun ok hp => .inl (still ok hp)⟩
    exact ready.wrapped.here (still ok hp)
  | @rule name body s s' found _ ih =>
    obtain ⟨placed, ahead, still⟩ := ih ⟨ready.placed.of_tables (s.entering_seeds name)
      (s.entering_memo name), all_body closed.wrapper found, trivial⟩
    obtain ⟨blocked, h⟩ := s.leaving_eq name s'
    have hpos : (s.entering name).pos = s.pos := s.entering_pos name
    rw [h]
    refine ⟨placed.of_tables rfl rfl, Nat.le_trans (Nat.le_of_eq hpos.symm) ahead, fun ok hp => ?_⟩
    exact closed.rule name body found (still ok (hp.trans hpos.symm))
  | @not inner s s' _ ih =>
    obtain ⟨placed, -, -⟩ := ih ⟨ready.placed.of_tables rfl rfl, ready.wrapped.parts, trivial⟩
    have hpos : (looked s s').pos = s.pos := by
      unfold looked
      split <;> rfl
    obtain ⟨outcome, furthest, h⟩ := looked_eq s s'
    refine ⟨?_, Nat.le_of_eq hpos.symm, fun _ _ => trivial⟩
    rw [h]
    exact placed.of_tables rfl rfl
  | @opt inner s s' _ ih =>
    obtain ⟨placed, ahead, -⟩ := ih ⟨ready.placed, ready.wrapped.parts, trivial⟩
    refine ⟨?_, ?_, fun _ _ => trivial⟩
    · obtain ⟨outcome, h⟩ := optional_eq s s'
      rw [h]
      exact placed.of_tables rfl rfl
    · unfold optional
      split
      · exact Nat.le_refl _
      · exact ahead
  | star _ ih =>
    obtain ⟨placed, ahead, still⟩ := ih ⟨ready.placed, ready.wrapped.parts, trivial⟩
    exact ⟨placed, ahead, still⟩
  | plusStop _ bad ih =>
    obtain ⟨placed, ahead, -⟩ := ih ⟨ready.placed, ready.wrapped.parts, trivial⟩
    exact ⟨placed, ahead, fun ok => by rw [bad] at ok; contradiction⟩
  | plusStill _ ok _ ih =>
    obtain ⟨placed, ahead, still⟩ := ih ⟨ready.placed, ready.wrapped.parts, trivial⟩
    exact ⟨placed.of_tables rfl rfl, ahead, fun _ hp => still ok hp⟩
  | @plusNext inner s s' s'' _ _ moved _ ih ihRest =>
    have first := ih ⟨ready.placed, ready.wrapped.parts, trivial⟩
    have rest := ihRest ⟨first.placed, ready.wrapped.parts, trivial⟩
    have hfirst : s.pos ≤ s'.pos := first.ahead
    have hrest : s'.pos ≤ s''.pos := rest.ahead
    refine ⟨rest.placed, Nat.le_trans hfirst hrest, fun _ hp => ?_⟩
    have hp : s''.pos = s.pos := hp
    omega
  | paren _ ih =>
    obtain ⟨placed, ahead, still⟩ := ih ⟨ready.placed, ready.wrapped.parts, trivial⟩
    exact ⟨placed, ahead, still⟩
  | @capture inner s s' _ ih =>
    obtain ⟨placed, ahead, still⟩ := ih ⟨ready.placed, ready.wrapped.parts, trivial⟩
    unfold captured
    split
    · exact ⟨placed, ahead, still⟩
    · next hf => exact ⟨placed.of_tables rfl rfl, ahead, fun _ hp => still (by simpa using hf) hp⟩

/-! ## Progress of parts -/

/-- A task opens what a part of it opens that starts where the task does, unless the task is to apply
a rule, and the part is its body. -/
def Opened (g : Grammar) (empty : String → Prop) (task part : Task) : Prop :=
  (∀ name, part.opens empty name → task.opens empty name) ∨
    ∃ rule body, task = .whole (.apply rule) ∧ g.body? rule = some body ∧ part = .whole body

/-- What a task in a state passes on to a part of it in another state. -/
structure Descends (g : Grammar) (empty : String → Prop) (task : Task) (s : MatchState)
    (part : Task) (t : MatchState) : Prop where
  ready : Ready empty part t
  ahead : task.origin s ≤ part.origin t
  opened : part.origin t = task.origin s → Opened g empty task part

/-- A part of a task is ready for progress, starts no earlier than the task, and opens nothing that
the task does not open, as long as nothing was consumed. -/
theorem Calls.descends (closed : g.bodies.EmptyClosed empty) {task part : Task}
    {s t : MatchState} (h : Calls g input task s part t) (ready : Ready empty task s) :
    Descends g empty task s part t := by
  cases h with
  | altsHead =>
    exact ⟨⟨ready.placed, ready.wrapped.head, trivial⟩, Nat.le_of_eq ready.fits.symm,
      fun _ => .inl fun _ h => .inl h⟩
  | altsTail h bad =>
    have first := h.advances closed ⟨ready.placed, ready.wrapped.head, trivial⟩
    exact ⟨⟨first.placed.of_tables rfl rfl, ready.wrapped.tail, rfl⟩, Nat.le_refl _,
      fun _ => .inl fun _ h => .inr h⟩
  | termsHead =>
    exact ⟨⟨ready.placed, ready.wrapped.head, trivial⟩, Nat.le_refl _,
      fun _ => .inl fun _ h => .inl h⟩
  | termsTail h ok =>
    have first := h.advances closed ⟨ready.placed, ready.wrapped.head, trivial⟩
    exact ⟨⟨first.placed, ready.wrapped.tail, trivial⟩, first.ahead,
      fun hp => .inl fun _ h => .inr ⟨first.still ok hp, h⟩⟩
  | repeatedHead =>
    exact ⟨⟨ready.placed, ready.wrapped, trivial⟩, Nat.le_refl _, fun _ => .inl fun _ h => h⟩
  | repeatedTail h ok moved =>
    have first := h.advances closed ⟨ready.placed, ready.wrapped, trivial⟩
    exact ⟨⟨first.placed, ready.wrapped, trivial⟩, first.ahead, fun hp => absurd hp moved⟩
  | growHead =>
    exact ⟨⟨ready.placed.of_tables rfl rfl, ready.wrapped, trivial⟩, Nat.le_refl _,
      fun _ => .inl fun _ h => h⟩
  | @growTail inner key s s' h _ =>
    have first := h.advances closed ⟨ready.placed.of_tables rfl rfl, ready.wrapped, trivial⟩
    have hseed : PlacedAt empty key s'.outcome :=
      ⟨first.ahead, fun ok hp => ready.fits (first.still ok hp)⟩
    exact ⟨⟨⟨forall_insert first.placed.seeds hseed, first.placed.memo⟩, ready.wrapped,
      ready.fits⟩, Nat.le_refl _, fun _ => .inl fun _ h => h⟩
  | choice =>
    exact ⟨⟨ready.placed, ready.wrapped.parts, rfl⟩, Nat.le_refl _, fun _ => .inl fun _ h => h⟩
  | seq =>
    exact ⟨⟨ready.placed.of_tables rfl rfl, ready.wrapped.parts, trivial⟩, Nat.le_refl _,
      fun _ => .inl fun _ h => h⟩
  | scope =>
    exact ⟨⟨ready.placed.of_tables rfl rfl, ready.wrapped.parts, trivial⟩, Nat.le_refl _,
      fun _ => .inl fun _ h => h⟩
  | @once inner rule =>
    exact ⟨⟨ready.placed.seeded rule, ready.wrapped.parts, trivial⟩, Nat.le_refl _,
      fun _ => .inl fun _ h => .inr h⟩
  | @grown inner rule =>
    exact ⟨⟨ready.placed.growing g rule, ready.wrapped.parts, ready.wrapped.here⟩, Nat.le_refl _,
      fun _ => .inl fun _ h => .inr h⟩
  | @rule name body _ found =>
    refine ⟨⟨ready.placed.of_tables (s.entering_seeds name) (s.entering_memo name),
      all_body closed.wrapper found, trivial⟩, ?_, fun _ => .inr ⟨name, body, rfl, found, rfl⟩⟩
    exact Nat.le_of_eq (s.entering_pos name).symm
  | plusTail h ok moved =>
    have first := h.advances closed ⟨ready.placed, ready.wrapped.parts, trivial⟩
    exact ⟨⟨first.placed, ready.wrapped.parts, trivial⟩, first.ahead, fun hp => absurd hp moved⟩
  | miss | not =>
    exact ⟨⟨ready.placed.of_tables rfl rfl, ready.wrapped.parts, trivial⟩, Nat.le_refl _,
      fun _ => .inl fun _ h => h⟩
  | label | opt | star | plusHead | paren | capture =>
    exact ⟨⟨ready.placed, ready.wrapped.parts, trivial⟩, Nat.le_refl _,
      fun _ => .inl fun _ h => h⟩

/-- A part of a task is the body of a rule that the task is to apply, or it has only nodes of the
task. -/
theorem Calls.rule_or_all {task part : Task} {s t : MatchState}
    (h : Calls g input task s part t) :
    (∃ name body, task = .whole (.apply name) ∧ g.body? name = some body ∧ part = .whole body ∧
      t = s.entering name) ∨ ∀ P, All P task.patterns → All P part.patterns := by
  cases h with
  | altsHead | termsHead => exact .inr fun _ all => all.head
  | altsTail | termsTail => exact .inr fun _ all => all.tail
  | repeatedHead | repeatedTail | growHead | growTail => exact .inr fun _ all => all
  | @rule name body _ found => exact .inl ⟨name, body, rfl, found, rfl, rfl⟩
  | _ => exact .inr fun _ all => all.parts

theorem Reaches.trans {a b c : Task} {s t u : MatchState} (h : Reaches g input a s b t)
    (h' : Reaches g input b t c u) : Reaches g input a s c u := by
  induction h with
  | refl => exact h'
  | step call _ ih => exact .step call (ih h')

/-- What is so of all nodes of a task is so of all that it comes to, if the bodies of the rules that
it may apply keep to it. -/
theorem Reaches.all {P : Pattern → Prop} {task part : Task} {s t : MatchState}
    (h : Reaches g input task s part t)
    (rules : ∀ name body, P (.apply name) → g.body? name = some body → body.Everywhere P)
    (all : All P task.patterns) : All P part.patterns := by
  induction h with
  | refl => exact all
  | step call _ ih =>
    refine ih ?_
    rcases call.rule_or_all with ⟨name, body, rfl, found, rfl, -⟩ | keeps
    · intro q hq
      rw [List.mem_singleton.1 hq]
      exact rules name body all.here found
    · exact keeps P all

/-- Whatever a task comes to is ready for progress and starts no earlier than the task. -/
theorem Reaches.ready (closed : g.bodies.EmptyClosed empty) {task part : Task} {s t : MatchState}
    (h : Reaches g input task s part t) (ready : Ready empty task s) :
    Ready empty part t ∧ task.origin s ≤ part.origin t := by
  induction h with
  | refl => exact ⟨ready, Nat.le_refl _⟩
  | step call _ ih =>
    have next := call.descends closed ready
    obtain ⟨hready, hahead⟩ := ih next.ready
    exact ⟨hready, Nat.le_trans next.ahead hahead⟩

/-! ## The states that a match comes to -/

/-- What holds of every state that a match comes to: recorded outcomes are where they may be, and only
rules that associate to the left are blocked. -/
structure Coherent (g : Grammar) (s : MatchState) : Prop where
  placed : Placed g.bodies.mayBeEmpty s
  blocked : ∀ name ∈ s.blocked, g.isLeftAssoc name = true

/-- Nothing is recorded before a match, wherever it starts. -/
theorem coherent_start (g : Grammar) (pos : Nat) : Coherent g { MatchState.initial with pos := pos } :=
  ⟨(placed_initial _).of_tables rfl rfl, fun _ hn => by contradiction⟩

theorem Run.blocked_eq {p : Pattern} {s s' : MatchState} (h : Run g input (.whole p) s s') :
    s'.blocked = s.blocked :=
  congrArg (·.2.1) h.frame

/-- A part of a task starts with the same rules blocked, or with none, or with one more that
associates to the left. -/
theorem Calls.blocked {task part : Task} {s t : MatchState} (h : Calls g input task s part t) :
    ∀ name ∈ t.blocked, name ∈ s.blocked ∨ g.isLeftAssoc name = true := by
  intro name hn
  cases h with
  | altsTail h | termsTail h | repeatedTail h | growTail h | plusTail h =>
    exact .inl (h.blocked_eq ▸ hn)
  | @grown inner rule =>
    by_cases hassoc : g.isLeftAssoc rule = true
    · rw [growing, if_pos hassoc] at hn
      rcases List.mem_cons.1 hn with rfl | hn
      · exact .inr hassoc
      · exact .inl hn
    · rw [growing, if_neg hassoc] at hn
      exact .inl hn
  | @rule rule =>
    unfold MatchState.entering at hn
    split at hn
    · exact .inl hn
    · contradiction
  | _ => exact .inl hn

theorem Reaches.blocked {task part : Task} {s t : MatchState}
    (h : Reaches g input task s part t) (blocked : ∀ name ∈ s.blocked, g.isLeftAssoc name = true) :
    ∀ name ∈ t.blocked, g.isLeftAssoc name = true := by
  induction h with
  | refl => exact blocked
  | step call _ ih => exact ih fun name hn => (call.blocked name hn).elim (blocked name) id

/-- Applying a rule in a coherent state comes to coherent states only. -/
theorem Reaches.coherent {name : String} {task : Task} {s t : MatchState}
    (h : Reaches g input (.whole (.apply name)) s task t) (coherent : Coherent g s) :
    Coherent g t := by
  have wrapped : All (WrapClosed g.bodies.mayBeEmpty) [.apply name] := by
    simp [All, Everywhere, nodes, WrapClosed]
  exact ⟨(h.ready g.bodies.mayBeEmpty_closed ⟨coherent.placed, wrapped, trivial⟩).1.placed,
    h.blocked coherent.blocked⟩

/-- Nothing is asked of a pattern if every rule may be empty. -/
theorem all_wrapClosed (ps : List Pattern) : All (WrapClosed fun _ => True) ps :=
  fun _ _ q _ => by cases q <;> simp [WrapClosed]

end Pegboard.Match
