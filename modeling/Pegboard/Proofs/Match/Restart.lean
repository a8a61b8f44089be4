import Pegboard.Proofs.Match.Simplification

/-!
# Starting from another outcome and another failure

A pattern overwrites the outcome that was there before it, whichever way it ends, and it does not
look at the failures that were met before: it only adds its own.  Lookaheads and kept outcomes,
which put the furthest failure aside for a while, are no exception.  So all that counts of the state
in which a pattern starts is its `Setting`, and what a run adds to the failures is the same for each
furthest failure that it starts with.

## Main Definitions

* `MatchState.Setting`: what counts of a state in which a pattern starts.
* `MatchState.recalling`: a state with another furthest failure so far.
* `Match.Adds`: a run adds a failure, whatever was the furthest one before.

## Main Results

* `Match.Run.adds`: every run adds a failure, or none.
* `Match.eval_restart`: states of one setting have the same runs, up to the failures before them.
-/

namespace Pegboard

namespace MatchState

/-- What counts of a state in which a pattern starts: all but the last value, the word whether that
was a failure, and the furthest failure. -/
structure Setting where
  pos : Nat
  scopes : Scopes
  seeds : Table Outcome
  blocked : List String
  memo : Table MemoEntry

/-- The setting of a state. -/
def setting (s : MatchState) : Setting := ⟨s.pos, s.scopes, s.seeds, s.blocked, s.memo⟩

/-- The state with another furthest failure so far. -/
def recalling (s : MatchState) (furthest : Option Failure) : MatchState :=
  { s with furthest := furthest }

/-- States of one setting differ in an outcome and in a furthest failure only. -/
theorem eq_of_setting_eq {s t : MatchState} (same : t.setting = s.setting) :
    t = (s.recalling t.furthest).following t.value t.failed := by
  obtain ⟨pos, value, failed, furthest, scopes, seeds, blocked, memo⟩ := t
  obtain ⟨rfl, rfl, rfl, rfl, rfl⟩ := Setting.mk.inj same
  rfl

theorem labelled_recalling (s : MatchState) (name : String) (furthest : Option Failure) :
    (s.recalling furthest).labelled name = (s.labelled name).recalling furthest := by
  show (if s.failed then _ else _) = _
  rw [labelled]
  split <;> rfl

theorem entering_recalling (s : MatchState) (rule : String) (furthest : Option Failure) :
    (s.recalling furthest).entering rule = (s.entering rule).recalling furthest := by
  show (if s.blocked.isEmpty || s.blocked.contains rule then _ else _) = _
  rw [entering]
  split <;> rfl

theorem leaving_recalling (s : MatchState) (rule : String) (s' : MatchState)
    (furthest furthest' : Option Failure) :
    (s.recalling furthest).leaving rule (s'.recalling furthest')
      = (s.leaving rule s').recalling furthest' := by
  show (if s.blocked.isEmpty || s.blocked.contains rule then _ else _) = _
  rw [leaving]
  split <;> rfl

end MatchState

namespace Match

variable {g : Grammar} {input : Array Char}

/-! ## The states after patterns with one part -/

theorem optional_recalling (s s' : MatchState) (furthest furthest' : Option Failure) :
    optional (s.recalling furthest) (s'.recalling furthest')
      = (optional s s').recalling furthest' := by
  show (if s'.failed then _ else _) = _
  rw [optional]
  split <;> rfl

theorem captured_recalling (input : Array Char) (s s' : MatchState)
    (furthest furthest' : Option Failure) :
    captured input (s.recalling furthest) (s'.recalling furthest')
      = (captured input s s').recalling furthest' := by
  show (if s'.failed then _ else _) = _
  rw [captured]
  split <;> rfl

/-- A lookahead adds no failure but its own. -/
theorem looked_recalling (s s' : MatchState) (furthest : Option Failure) :
    looked (s.recalling furthest) s' = (looked s s').recalling
      (Failure.merge furthest (if s'.failed then none else some ⟨s.pos, none⟩)) := by
  show (if s'.failed then _ else _) = _
  rw [looked]
  split
  · rw [Failure.merge_none]
    rfl
  · rfl

/-! ## What a run adds -/

/-- Whatever the furthest failure so far is, a task runs between the two states, and adds the
failure `later` to it. -/
def Adds (g : Grammar) (input : Array Char) (task : Task) (s s' : MatchState)
    (later : Option Failure) : Prop :=
  ∀ furthest, Run g input task (s.recalling furthest)
    (s'.recalling (Failure.merge furthest later))

/-- Of two pieces of work, one after the other, each adds its failure. -/
theorem Adds.chain {first second task : Task} {s u t t' s' : MatchState} {d d' : Option Failure}
    (h : Adds g input first u t d) (h' : Adds g input second t' s' d')
    (both : ∀ furthest f f', Run g input first (u.recalling furthest) (t.recalling f) →
      Run g input second (t'.recalling f) (s'.recalling f') →
      Run g input task (s.recalling furthest) (s'.recalling f')) :
    Adds g input task s s' (Failure.merge d d') := by
  intro furthest
  have rest := h' (Failure.merge furthest d)
  rw [Failure.merge_assoc] at rest
  exact both furthest _ _ (h furthest) rest

/-- A pattern without parts adds the failure that it ends with, if any. -/
theorem adds_of_atom? {p : Pattern} {s s' : MatchState} (h : atom? g input p s = some s') :
    ∃ later, Adds g input (.whole p) s s' later := by
  obtain ⟨outcome, failure, effect, -, -⟩ := atom?_effect h
  obtain rfl : s.after outcome failure = s' :=
    Option.some.inj ((effect s rfl fun _ _ => rfl).symm.trans h)
  refine ⟨failure, fun furthest => .atom ?_⟩
  exact effect (s.recalling furthest) rfl fun _ _ => rfl

/-- Every run adds a failure, or none, to the furthest one so far, and goes the same way whatever
that is. -/
theorem Run.adds {task : Task} {s s' : MatchState} (run : Run g input task s s') :
    ∃ later, Adds g input task s s' later := by
  induction run with
  | @altsNil _ s => exact ⟨some ⟨s.pos, none⟩, fun _ => .altsNil⟩
  | altsLast _ ih => exact ih.imp fun _ h f => .altsLast (h f)
  | altsTaken _ good ih => exact ih.imp fun _ h f => .altsTaken (h f) good
  | altsNext _ bad _ ih ihRest =>
    obtain ⟨d, h⟩ := ih
    obtain ⟨d', rest⟩ := ihRest
    exact ⟨_, h.chain rest fun _ _ _ first next => .altsNext first bad next⟩
  | termsNil =>
    refine ⟨none, fun f => ?_⟩
    rw [Failure.merge_none]
    exact .termsNil
  | termsStop _ bad ih => exact ih.imp fun _ h f => .termsStop (h f) bad
  | termsNext _ good _ ih ihRest =>
    obtain ⟨d, h⟩ := ih
    obtain ⟨d', rest⟩ := ihRest
    exact ⟨_, h.chain rest fun _ _ _ first next => .termsNext first good next⟩
  | @repeatedStop inner items _ _ _ bad ih =>
    refine ih.imp fun _ h f => ?_
    have stop : Run g input (.repeated inner items) _ _ := .repeatedStop (h f) bad
    exact stop
  | @repeatedStill inner items _ _ _ good still ih =>
    refine ih.imp fun _ h f => ?_
    have stop : Run g input (.repeated inner items) _ _ := .repeatedStill (h f) good still
    exact stop
  | repeatedNext _ good moved _ ih ihRest =>
    obtain ⟨d, h⟩ := ih
    obtain ⟨d', rest⟩ := ihRest
    exact ⟨_, h.chain rest fun _ _ _ first next => .repeatedNext first good moved next⟩
  | growStop _ stop ih => exact ih.imp fun _ h f => .growStop (h f) stop
  | growNext _ further _ ih ihRest =>
    obtain ⟨d, h⟩ := ih
    obtain ⟨d', rest⟩ := ihRest
    exact ⟨_, h.chain rest fun _ _ _ first next => .growNext first further next⟩
  | atom h => exact adds_of_atom? h
  | choice _ ih => exact ih.imp fun _ h f => .choice (h f)
  | seq _ ih => exact ih.imp fun _ h f => .seq (h f)
  | @scope rule ps s _ _ ih =>
    refine ih.imp fun _ h f => ?_
    have scope : Run g input (.whole (.scope rule ps)) (s.recalling f) _ := .scope (h f)
    exact scope
  | label _ ih =>
    refine ih.imp fun _ h f => ?_
    rw [← MatchState.labelled_recalling]
    exact .label (h f)
  | seed found =>
    refine ⟨none, fun f => ?_⟩
    rw [Failure.merge_none]
    exact .seed found
  | @once inner rule s _ unseeded blocked _ ih =>
    refine ih.imp fun _ h f => ?_
    have once : Run g input (.whole (.leftrec inner rule)) (s.recalling f) _ :=
      .once unseeded blocked (h f)
    exact once
  | @grown inner rule s _ unseeded unblocked _ ih =>
    refine ih.imp fun _ h f => ?_
    have grown : Run g input (.whole (.leftrec inner rule)) (s.recalling f) _ :=
      .grown unseeded unblocked (h f)
    exact grown
  | hit found => exact ⟨_, fun f => .hit found⟩
  -- What is put aside meanwhile is not seen inside, so the inner run is the very same one.
  | @miss inner rule s s' unknown run =>
    refine ⟨s'.furthest, fun f => ?_⟩
    have miss : Run g input (.whole (.memo inner rule)) (s.recalling f) _ := .miss unknown run
    exact miss
  | @not inner s s' run =>
    refine ⟨if s'.failed then none else some ⟨s.pos, none⟩, fun f => ?_⟩
    rw [← looked_recalling]
    exact .not run
  | rule found _ ih =>
    refine ih.imp fun _ h f => ?_
    rw [← MatchState.leaving_recalling]
    refine .rule found ?_
    rw [MatchState.entering_recalling]
    exact h f
  | opt _ ih =>
    refine ih.imp fun _ h f => ?_
    rw [← optional_recalling]
    exact .opt (h f)
  | star _ ih => exact ih.imp fun _ h f => .star (h f)
  | plusStop _ bad ih => exact ih.imp fun _ h f => .plusStop (h f) bad
  | @plusStill inner _ _ _ good still ih =>
    refine ih.imp fun _ h f => ?_
    have stop : Run g input (.whole (.plus inner)) _ _ := .plusStill (h f) good still
    exact stop
  | plusNext _ good moved _ ih ihRest =>
    obtain ⟨d, h⟩ := ih
    obtain ⟨d', rest⟩ := ihRest
    exact ⟨_, h.chain rest fun _ _ _ first next => .plusNext first good moved next⟩
  | paren _ ih => exact ih.imp fun _ h f => .paren (h f)
  | capture _ ih =>
    refine ih.imp fun _ h f => ?_
    rw [← captured_recalling]
    exact .capture (h f)

/-- A run starts from every other state of the setting in which it starts, with the same outcome. -/
theorem Adds.restart {p : Pattern} {s s' t : MatchState} {later : Option Failure}
    (adds : Adds g input (.whole p) s s' later) (same : t.setting = s.setting) :
    Run g input (.whole p) t (s'.recalling (Failure.merge t.furthest later)) := by
  have run := (adds t.furthest).following rfl t.value t.failed
  rwa [← MatchState.eq_of_setting_eq same] at run

/-- **A pattern starts afresh.**  From two states of one setting, whatever their last values and
furthest failures are, evaluation comes to an end from both or from neither.  Where it does, it
comes to the same value, or fails from both, and to the same setting; and one failure, or none, is
merged with the furthest one before, the same for all states of the setting.  Failures may be merged
in any grouping. -/
theorem eval_restart (g : Grammar) (input : Array Char) (p : Pattern)
    (setting : MatchState.Setting) :
    (∃ later, ∀ s t : MatchState, s.setting = setting → t.setting = setting →
      ((∃ n s', eval g input n p s = some s') ↔ ∃ n t', eval g input n p t = some t') ∧
      ∀ n m s' t', eval g input n p s = some s' → eval g input m p t = some t' →
        s'.value = t'.value ∧ s'.failed = t'.failed ∧ s'.setting = t'.setting ∧
          s'.furthest = Failure.merge s.furthest later ∧
          t'.furthest = Failure.merge t.furthest later) ∧
    ∀ a b c : Option Failure,
      Failure.merge (Failure.merge a b) c = Failure.merge a (Failure.merge b c) := by
  refine ⟨?_, Failure.merge_assoc⟩
  by_cases ends : ∃ s s', s.setting = setting ∧ Run g input (.whole p) s s'
  · obtain ⟨u, u', rfl, run⟩ := ends
    obtain ⟨later, adds⟩ := run.adds
    -- Every evaluation in the setting is the one from `u`, with its own furthest failure.
    have ends (s : MatchState) (same : s.setting = u.setting) :
        ∃ n s', eval g input n p s = some s' := by
      obtain ⟨n, hn⟩ := run_iff_eval.1 (adds.restart same)
      exact ⟨n, _, hn⟩
    have result {n : Nat} {s s' : MatchState} (same : s.setting = u.setting)
        (h : eval g input n p s = some s') :
        s' = u'.recalling (Failure.merge s.furthest later) :=
      (run_of_eval h).unique (adds.restart same)
    refine ⟨later, fun s t hs ht => ⟨iff_of_true (ends s hs) (ends t ht), ?_⟩⟩
    intro n m s' t' hs' ht'
    obtain rfl := result hs hs'
    obtain rfl := result ht ht'
    exact ⟨rfl, rfl, rfl, rfl, rfl⟩
  · have never {n : Nat} {s s' : MatchState} (same : s.setting = setting) :
        eval g input n p s ≠ some s' :=
      fun h => ends ⟨s, s', same, run_of_eval h⟩
    refine ⟨none, fun s t hs ht => ⟨iff_of_false ?_ ?_, ?_⟩⟩
    · rintro ⟨n, s', h⟩
      exact never hs h
    · rintro ⟨n, t', h⟩
      exact never ht h
    · intro n m s' t' h
      exact absurd h (never hs)

/-- The rules `e = e '+' d | d` and `d = digit`, where `e` grows and digits are kept. -/
def keptSum : Grammar :=
  ⟨[("e", .leftrec (.choice [.seq [.apply "e", .lit "+", .apply "d"], .apply "d"]) "e"),
    ("d", .memo (.apply "digit") "d")], []⟩

/-- A sum without second addend is a digit, whatever was matched before it.  It takes further than
any failure before it to be remembered instead of the missing addend. -/
theorem eval_restart_keptSum :
    ∃ s t later, eval keptSum #['1', '+'] 12 (.apply "e") .initial = some s ∧
      eval keptSum #['1', '+'] 12 (.apply "e")
        { MatchState.initial with value := .str "x", failed := true, furthest := some ⟨9, none⟩ }
          = some t ∧
      (s.value = t.value ∧ s.failed = t.failed ∧ s.setting = t.setting ∧
        s.furthest = Failure.merge none later ∧
        t.furthest = Failure.merge (some ⟨9, none⟩) later) ∧
      s.value = .str "1" ∧ s.furthest = some ⟨2, none⟩ ∧ t.furthest = some ⟨9, none⟩ := by
  let ended : MatchState :=
    { MatchState.initial with
      pos := 1
      value := .str "1"
      furthest := some ⟨2, none⟩
      memo := [(("d", 2), ⟨.failing 2, some ⟨2, none⟩⟩),
        (("d", 0), ⟨⟨.str "1", false, 1⟩, none⟩)] }
  obtain ⟨⟨later, restart⟩, -⟩ :=
    eval_restart keptSum #['1', '+'] (.apply "e") MatchState.initial.setting
  refine ⟨ended, ended.recalling (some ⟨9, none⟩), later, rfl, rfl, ?_, rfl, rfl, rfl⟩
  exact (restart .initial
    { MatchState.initial with value := .str "x", failed := true, furthest := some ⟨9, none⟩ }
    rfl rfl).2 12 12 _ _ rfl rfl

end Match

end Pegboard
