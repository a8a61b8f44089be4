import Mathlib.Data.List.Permutation
import Pegboard.Proofs.Match.Bounds
import Pegboard.Proofs.Match.Failures
import Pegboard.Proofs.Match.Literal

/-!
# Offsets of a match

The offset is put back for another alternative, taken over from seeds and from kept outcomes, and put
back again for every round of growth.  Even so no evaluation ends before the offset where it started,
and none gets past the end of the input, whatever the grammar.  That rests on what is recorded: a
seed, or an outcome that was kept, is at or behind the offset that it was recorded for, and at an
offset of the input.  The failures that are recorded are inside the input as well.

So the text between the two ends of a captured pattern is always there to be taken.

## Main Definitions

* `Noted`: the failures that are recorded in a state are at offsets of the input.
* `Bounded`: all offsets in a state are where they may be.

## Main Results

* `Run.noted`: a run records failures inside the input only.
* `offsets_bounded`: the offsets of everything that a match comes to.
-/

namespace Pegboard

/-- The offset where a match ended, or where it is reported to have failed. -/
def MatchResult.pos : MatchResult → Nat
  | .accepted _ pos => pos
  | .rejected _ pos => pos

namespace Match

variable {g : Grammar} {input : Array Char}

/-! ## Failures inside the input -/

/-- A failure, if there is one, is at an offset of the input. -/
def FailsInside (input : Array Char) (failure : Option Failure) : Prop :=
  ∀ f ∈ failure, f.pos ≤ input.size

theorem failsInside_none (input : Array Char) : FailsInside input none :=
  fun _ hf => by contradiction

theorem failsInside_some {pos : Nat} (h : pos ≤ input.size) (cause : Option FailureCause) :
    FailsInside input (some ⟨pos, cause⟩) := by
  intro f hf
  obtain rfl := Option.some.inj hf
  exact h

theorem FailsInside.merge {failure later : Option Failure} (h : FailsInside input failure)
    (h' : FailsInside input later) : FailsInside input (Failure.merge failure later) := by
  intro f hf
  rcases failure with _ | a <;> rcases later with _ | b
  · contradiction
  · exact h' f hf
  · exact h f hf
  · rw [Failure.merge] at hf
    split at hf
    · exact h' f hf
    · exact h f hf

theorem mismatch?_inside {cs : List Char} {offset : Nat} (h : offset ≤ input.size) :
    FailsInside input (mismatch? input offset cs) := by
  induction cs generalizing offset with
  | nil => exact failsInside_none input
  | cons c cs ih =>
    rw [mismatch?]
    split
    · next hc => exact ih (Array.getElem?_eq_some_iff.1 hc).1
    · exact failsInside_some h none

theorem refusal?_inside (accepts : Char → Bool) {pos : Nat} (h : pos ≤ input.size) :
    FailsInside input (refusal? input accepts pos) := by
  unfold refusal?
  split
  · exact failsInside_none input
  · exact failsInside_some h none

theorem exprFailure?_inside (e : Expr) {s : MatchState} {judge : Value → Option Failure}
    (hs : s.pos ≤ input.size) (h : ∀ v, FailsInside input (judge v)) :
    FailsInside input (exprFailure? e s judge) := by
  unfold exprFailure?
  split
  · exact h _
  · exact failsInside_some hs _

/-- A pattern without parts fails inside the input. -/
theorem failure?_inside (p : Pattern) {s : MatchState} (hs : s.pos ≤ input.size) :
    FailsInside input (failure? input p s) := by
  cases p with
  | apply name =>
    rw [failure?]
    cases BuiltinRule.ofName? name with
    | none => exact failsInside_some hs _
    | some rule =>
      cases rule with
      | anything | digit | letter => exact refusal?_inside _ hs
      | «end» =>
        show FailsInside input (if _ then none else _)
        split
        · exact failsInside_none input
        · exact failsInside_some hs none
  | lit text => exact mismatch?_inside hs
  | range lo hi => exact refusal?_inside _ hs
  | pred e =>
    refine exprFailure?_inside e hs fun v => ?_
    split
    · exact failsInside_none input
    · exact failsInside_some hs none
    · exact failsInside_some hs _
  | eq e =>
    refine exprFailure?_inside e hs fun v => ?_
    split
    · exact mismatch?_inside hs
    · exact failsInside_some hs _
  | action e => exact exprFailure?_inside e hs fun _ => failsInside_none input
  | _ => exact failsInside_none input

/-! ## Recorded failures -/

/-- The furthest failure of a state, and those that were kept with outcomes, are at offsets of the
input. -/
structure Noted (input : Array Char) (s : MatchState) : Prop where
  furthest : FailsInside input s.furthest
  memo : ∀ e ∈ s.memo, FailsInside input e.2.furthest

theorem noted_initial (input : Array Char) : Noted input .initial :=
  ⟨failsInside_none input, fun e he => by contradiction⟩

namespace Noted

variable {s s' : MatchState}

theorem of_eq (h : Noted input s) (furthest : s'.furthest = s.furthest) (memo : s'.memo = s.memo) :
    Noted input s' :=
  ⟨furthest ▸ h.furthest, memo ▸ h.memo⟩

/-- The state before a part whose failures are recorded apart. -/
theorem clean (h : Noted input s) : Noted input { s with furthest := none } :=
  ⟨failsInside_none input, h.memo⟩

theorem entering (h : Noted input s) (rule : String) : Noted input (s.entering rule) :=
  h.of_eq (s.entering_furthest rule) (s.entering_memo rule)

theorem leaving (h : Noted input s') (s : MatchState) (rule : String) :
    Noted input (s.leaving rule s') := by
  obtain ⟨blocked, eq⟩ := s.leaving_eq rule s'
  exact eq ▸ h.of_eq rfl rfl

theorem fail (h : Noted input s) (pos : s.pos ≤ input.size) : Noted input (s.fail none) :=
  ⟨h.furthest.merge (failsInside_some pos none), h.memo⟩

theorem looked (h : Noted input s') (start : Noted input s) (pos : s.pos ≤ input.size) :
    Noted input (looked s s') := by
  have back : Noted input { s' with furthest := s.furthest, pos := s.pos } :=
    ⟨start.furthest, h.memo⟩
  unfold Match.looked
  split
  · exact back.of_eq rfl rfl
  · exact back.fail pos

theorem kept (h : Noted input s') (start : Noted input s) (rule : String) :
    Noted input (kept rule s s') :=
  ⟨start.furthest.merge h.furthest, forall_insert h.memo h.furthest⟩

theorem optional (h : Noted input s') (s : MatchState) : Noted input (optional s s') := by
  obtain ⟨outcome, eq⟩ := optional_eq s s'
  exact eq ▸ h.of_eq rfl rfl

theorem captured (h : Noted input s') (s : MatchState) : Noted input (captured input s s') := by
  obtain ⟨value, eq⟩ := captured_eq input s s'
  exact eq ▸ h.of_eq rfl rfl

theorem labelled (h : Noted input s) (name : String) : Noted input (s.labelled name) := by
  obtain ⟨frame, eq⟩ := s.labelled_eq name
  exact eq ▸ h.of_eq rfl rfl

end Noted

/-- A run that starts inside the input records failures inside the input only. -/
theorem Run.noted {task : Task} {s s' : MatchState} (h : Run g input task s s')
    (place : task.Inside input) (inside : Inside input s) (noted : Noted input s) :
    Noted input s' := by
  induction h with
  | altsNil => exact noted.fail inside.pos
  | termsNil => exact noted
  | altsLast _ ih | altsTaken _ _ ih | termsStop _ _ ih => exact ih trivial inside noted
  | altsNext run _ _ ih ihRest =>
    exact ihRest place ((run.inside trivial inside).move place rfl rfl)
      ((ih trivial inside noted).of_eq rfl rfl)
  | termsNext run _ _ ih ihRest | repeatedNext run _ _ _ ih ihRest =>
    exact ihRest trivial (run.inside trivial inside) (ih trivial inside noted)
  | repeatedStop _ _ ih | repeatedStill _ _ _ ih | plusStill _ _ _ ih =>
    exact (ih trivial inside noted).of_eq rfl rfl
  | growStop _ _ ih => exact ih trivial (inside.move place rfl rfl) (noted.of_eq rfl rfl)
  | growNext run _ _ ih ihRest =>
    exact ihRest place ((run.inside trivial (inside.move place rfl rfl)).reseeded _)
      ((ih trivial (inside.move place rfl rfl) (noted.of_eq rfl rfl)).of_eq rfl rfl)
  | @atom p s s' h =>
    have raised := (raised_of_atom? h).1
    obtain ⟨outcome, failure, effect, -, -⟩ := atom?_effect h
    rw [effect _ rfl fun _ _ => rfl, Option.some.injEq] at h
    refine ⟨?_, h ▸ noted.memo⟩
    rw [raised]
    exact noted.furthest.merge (failure?_inside p inside.pos)
  | choice _ ih => exact ih inside.pos inside noted
  | seq _ ih => exact ih trivial (inside.move inside.pos rfl rfl) (noted.of_eq rfl rfl)
  | scope _ ih =>
    exact (ih trivial (inside.move inside.pos rfl rfl) (noted.of_eq rfl rfl)).of_eq rfl rfl
  | label _ ih => exact (ih trivial inside noted).labelled _
  | seed => exact noted.of_eq rfl rfl
  | once _ _ _ ih =>
    exact (ih trivial (inside.seeded _) (noted.of_eq rfl rfl)).of_eq rfl rfl
  | grown _ _ _ ih =>
    exact (ih inside.pos (inside.growing g _) (noted.of_eq rfl rfl)).of_eq rfl rfl
  | hit found => exact ⟨noted.furthest.merge (noted.memo _ (mem_of_get? found)), noted.memo⟩
  | miss _ _ ih =>
    exact (ih trivial (inside.move inside.pos rfl rfl) noted.clean).kept noted _
  | @rule name body s s' _ _ ih =>
    exact (ih trivial (inside.entering name) (noted.entering name)).leaving s name
  | not _ ih =>
    exact (ih trivial (inside.move inside.pos rfl rfl) noted.clean).looked noted inside.pos
  | opt _ ih => exact (ih trivial inside noted).optional _
  | star _ ih | plusStop _ _ ih | paren _ ih => exact ih trivial inside noted
  | plusNext run _ _ _ ih ihRest =>
    exact ihRest trivial (run.inside trivial inside) (ih trivial inside noted)
  | capture _ ih => exact (ih trivial inside noted).captured _

/-! ## All offsets -/

/-- All offsets in a state are offsets of the input, and what is recorded for a rule at an offset does
not lie before it. -/
structure Bounded (input : Array Char) (s : MatchState) : Prop where
  pos : s.pos ≤ input.size
  furthest : ∀ f ∈ s.furthest, f.pos ≤ input.size
  seeds : ∀ e ∈ s.seeds, e.1.2 ≤ e.2.pos ∧ e.2.pos ≤ input.size
  memo : ∀ e ∈ s.memo, e.1.2 ≤ e.2.outcome.pos ∧ e.2.outcome.pos ≤ input.size ∧
    ∀ f ∈ e.2.furthest, f.pos ≤ input.size

theorem bounded_of {s : MatchState} {empty : String → Prop} (placed : Placed empty s)
    (inside : Inside input s) (noted : Noted input s) : Bounded input s :=
  ⟨inside.pos, noted.furthest, fun e he => ⟨(placed.seeds e he).1, inside.seeds e he⟩,
    fun e he => ⟨(placed.memo e he).1, inside.memo e he, noted.memo e he⟩⟩

/-- What a match has to keep to at a task and a state, so that all offsets are bounded from there. -/
structure Steady (input : Array Char) (task : Task) (s : MatchState) : Prop where
  ready : Ready (fun _ => True) task s
  place : task.Inside input
  inside : Inside input s
  noted : Noted input s

theorem Steady.bounded {task : Task} {s : MatchState} (h : Steady input task s) :
    Bounded input s :=
  bounded_of h.ready.placed h.inside h.noted

/-- A run ends at or behind the offset where it started, and leaves all offsets bounded. -/
theorem Steady.run {p : Pattern} {s s' : MatchState} (h : Steady input (.whole p) s)
    (run : Run g input (.whole p) s s') : Bounded input s' ∧ s.pos ≤ s'.pos := by
  have advanced := run.advances g.bodies.emptyClosed_univ h.ready
  exact ⟨bounded_of advanced.placed (run.inside h.place h.inside)
    (run.noted h.place h.inside h.noted), advanced.ahead⟩

/-- What a part of a task starts with is noted inside the input. -/
theorem Calls.noted {task part : Task} {s t : MatchState} (h : Calls g input task s part t)
    (place : task.Inside input) (inside : Inside input s) (noted : Noted input s) :
    Noted input t := by
  cases h with
  | altsTail h => exact (h.noted trivial inside noted).of_eq rfl rfl
  | termsTail h | repeatedTail h | plusTail h => exact h.noted trivial inside noted
  | growTail h =>
    exact (h.noted trivial (inside.move place rfl rfl) (noted.of_eq rfl rfl)).of_eq rfl rfl
  | growHead | seq | scope | once | grown => exact noted.of_eq rfl rfl
  | miss | not => exact noted.clean
  | rule => exact noted.entering _
  | _ => exact noted

theorem Calls.steady {task part : Task} {s t : MatchState} (call : Calls g input task s part t)
    (h : Steady input task s) : Steady input part t := by
  obtain ⟨place, inside⟩ := call.inside h.place h.inside
  exact ⟨(call.descends g.bodies.emptyClosed_univ h.ready).ready, place, inside,
    call.noted h.place h.inside h.noted⟩

theorem Reaches.steady {task part : Task} {s t : MatchState} (h : Reaches g input task s part t)
    (steady : Steady input task s) : Steady input part t := by
  induction h with
  | refl => exact steady
  | step call _ ih => exact ih (call.steady steady)

theorem steady_start (g : Grammar) (input : Array Char) :
    Steady input (.whole (.apply g.start)) .initial :=
  ⟨⟨placed_initial _, all_wrapClosed _, trivial⟩, trivial, inside_initial input,
    noted_initial input⟩

/-- The result of a match whose offsets are bounded is at an offset of the input. -/
theorem Bounded.finish {s : MatchState} (h : Bounded input s) (source : String) :
    (finish source input s).pos ≤ input.size := by
  unfold Match.finish
  split
  · show (s.furthest.getD ⟨s.pos, none⟩).pos ≤ input.size
    cases hf : s.furthest with
    | none => exact h.pos
    | some f => exact h.furthest f hf
  · exact h.pos

/-! ## Captured text -/

/-- The input between two of its offsets stands at the first and ends at the second. -/
theorem stands_extract {lo hi : Nat} (order : lo ≤ hi) (within : hi ≤ input.size) :
    Stands input (String.ofList (input.extract lo hi).toList) lo ∧
      lo + (String.ofList (input.extract lo hi).toList).length = hi := by
  constructor
  · rw [Stands, String.toList_ofList, Array.toList_extract, List.extract_eq_take_drop]
    exact List.take_prefix _ _
  · rw [← String.length_toList, String.toList_ofList, Array.length_toList, Array.size_extract]
    omega

/-- A captured pattern that matched gives the text that stands between the two ends of what is in
it. -/
theorem Steady.captures {inner : Pattern} {s s' : MatchState}
    (h : Steady input (.whole (.capture inner)) s) (run : Run g input (.whole (.capture inner)) s s')
    (ok : s'.failed = false) : ∃ t, Run g input (.whole inner) s t ∧ t.failed = false ∧
      s'.pos = t.pos ∧ ∃ text, s'.value = .str text ∧ Stands input text s.pos ∧
        s.pos + text.length = t.pos := by
  cases run with
  | atom h => contradiction
  | @capture _ _ t run =>
    have good : t.failed = false := by
      unfold captured at ok
      split at ok
      · exact ok
      · next bad => exact Bool.eq_false_iff.2 bad
    rw [captured, if_neg (ne_true_of_eq_false good)]
    obtain ⟨bounded, ahead⟩ := ((Calls.capture (g := g)).steady h).run run
    exact ⟨t, run, good, rfl, _, rfl, stands_extract ahead bounded.pos⟩

/-- **Offsets are monotone and in bounds.**  Whatever the grammar and the input, at every pattern that
a match comes to, all offsets in the state are bounded: the current one, those of the seeds and of the
kept outcomes, which do not lie before the offset that they are recorded for, and those of all recorded
failures.  If its evaluation ends, whether it succeeded or failed, that is so again, and the offset has
not gone back.  A capture that succeeds gives the text that stands in the input from where it started
to where the pattern in it ended.  The result of a match is at an offset of the input. -/
theorem offsets_bounded (g : Grammar) (input : Array Char) :
    (∀ p s, Reaches g input (.whole (.apply g.start)) .initial (.whole p) s →
      Bounded input s ∧ ∀ n s', eval g input n p s = some s' →
        Bounded input s' ∧ s.pos ≤ s'.pos ∧
          ∀ inner, p = .capture inner → s'.failed = false →
            ∃ m t, eval g input m inner s = some t ∧ t.failed = false ∧ s'.pos = t.pos ∧
              ∃ text, s'.value = .str text ∧ Stands input text s.pos ∧
                s.pos + text.length = t.pos) ∧
      ∀ n source result, g.run n source input = some result → result.pos ≤ input.size := by
  have start := steady_start g input
  refine ⟨fun p s reached => ?_, fun n source result h => ?_⟩
  · have steady := reached.steady start
    refine ⟨steady.bounded, fun n s' h => ?_⟩
    have run := run_of_eval h
    obtain ⟨bounded, ahead⟩ := steady.run run
    refine ⟨bounded, ahead, ?_⟩
    rintro inner rfl ok
    obtain ⟨t, inside, good, pos, text, value, stands, length⟩ := steady.captures run ok
    obtain ⟨m, hm⟩ := run_iff_eval.1 inside
    exact ⟨m, t, hm, good, pos, text, value, stands, length⟩
  · obtain ⟨s, hs, rfl⟩ := Option.map_eq_some_iff.1 h
    exact (start.run (run_start_iff.2 ⟨n, hs⟩)).1.finish source

/-! ## A capture behind a seed -/

/-- The body of the rule `a = a {'x'} | 'z' | 'y'`. -/
def capturedBody : Pattern :=
  .choice [.seq [.apply "a", .capture (.lit "x")], .lit "z", .lit "y"]

/-- The grammar of that rule. -/
def capturedGrammar : Grammar := ⟨[("a", .leftrec capturedBody "a")], []⟩

/-- The state in which `yx` comes to the capture: the seed of the rule, which took the `y`, has been
adopted, and `z` has failed before. -/
def behindSeed : MatchState :=
  { MatchState.initial with
    pos := 1
    value := .str "y"
    furthest := some ⟨0, none⟩
    seeds := [(("a", 0), ⟨.str "y", false, 1⟩)] }

/-- The capture takes the `x` that stands behind the seed, and the match ends at the end. -/
theorem offsets_bounded_behindSeed :
    Reaches capturedGrammar #['y', 'x'] (.whole (.apply "a")) .initial
        (.whole (.capture (.lit "x"))) behindSeed ∧
      Bounded #['y', 'x'] behindSeed ∧
      (∃ s', eval capturedGrammar #['y', 'x'] 2 (.capture (.lit "x")) behindSeed = some s' ∧
        s'.failed = false ∧ Bounded #['y', 'x'] s' ∧ 1 ≤ s'.pos ∧
        ∃ text, s'.value = .str text ∧ Stands #['y', 'x'] text 1 ∧ 1 + text.length = s'.pos) ∧
      capturedGrammar.run 6 "<stdin>" #['y', 'x'] = some (.accepted (.str "x") 2) ∧
      2 ≤ #['y', 'x'].size := by
  -- In the first round of growth the last alternative matches, and its outcome becomes the seed.
  have round : Run capturedGrammar #['y', 'x'] (.whole capturedBody)
      (growing capturedGrammar "a" .initial)
      { behindSeed with seeds := [(("a", 0), .failing 0)] } := run_of_eval (n := 5) rfl
  have first : Reaches capturedGrammar #['y', 'x'] (.whole (.apply "a")) .initial
      (.grow capturedBody ("a", 0)) behindSeed :=
    .step (.rule rfl) (.step (.grown rfl rfl) (.step (.growTail round rfl) .refl))
  have seed : Run capturedGrammar #['y', 'x'] (.whole (.apply "a"))
      ({ behindSeed with pos := 0 }.succeed .null) behindSeed := run_of_eval (n := 2) rfl
  have second : Reaches capturedGrammar #['y', 'x'] (.grow capturedBody ("a", 0)) behindSeed
      (.whole (.capture (.lit "x"))) behindSeed :=
    .step .growHead (.step .choice (.step .altsHead (.step .seq
      (.step (.termsTail seed rfl) (.step .termsHead .refl)))))
  have reached := first.trans second
  have ended : capturedGrammar.run 6 "<stdin>" #['y', 'x'] = some (.accepted (.str "x") 2) := by cbv
  obtain ⟨pattern, result⟩ := offsets_bounded capturedGrammar #['y', 'x']
  obtain ⟨bounded, ends⟩ := pattern _ _ reached
  obtain ⟨bounded', ahead, captures⟩ := ends 2 _ rfl
  obtain ⟨m, t, -, -, pos, text, value, stands, length⟩ := captures _ rfl rfl
  have taken : 1 + text.length = _ := length.trans pos.symm
  exact ⟨reached, bounded, ⟨_, rfl, rfl, bounded', ahead, text, value, stands, taken⟩, ended,
    result 6 "<stdin>" _ ended⟩

end Match

end Pegboard
