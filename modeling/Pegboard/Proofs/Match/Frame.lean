import Pegboard.Proofs.Grammar.Opening
import Pegboard.Proofs.Grammar.Reads
import Pegboard.Proofs.Match.Run

/-!
# What a run leaves as it was

A run changes the offset, the last outcome, the furthest failure and the kept outcomes, and it binds
labels in the innermost scope.  The seeds, the blocked rules and the enclosing scopes are after a
run what they were before, whether it succeeded or failed: what is put there for a part of the run
is taken away again at the end of the part.  Growing a seed is the exception, and it touches that
one seed only.

## Main Results

* `Run.frame`: the seeds, the blocked rules and the enclosing scopes of a run.
* `Run.scopes_of_closed`: a pattern whose labels are all in scopes of its own also leaves the
  innermost scope as it was.
* `Run.memo_of_notMemo`: so it is with the kept outcomes, if there is nothing that keeps them.
-/

namespace Pegboard

/-! ## Tables -/

namespace Table

variable {α : Type}

theorem erase_erase (table : Table α) (key : RuleAt) :
    (table.erase key).erase key = table.erase key := by
  simp [erase]

/-- Of two records at one key the later replaces the earlier. -/
theorem insert_insert (table : Table α) (key : RuleAt) (a b : α) :
    (table.insert key a).insert key b = table.insert key b := by
  rw [insert, insert, insert]
  have hself : erase ((key, a) :: erase table key) key = erase (erase table key) key := by
    simp [erase]
  rw [hself, erase_erase]

end Table

/-- Related options are both there or neither is. -/
theorem none_or_some_of_rel {α β : Type} {R : α → β → Prop} {a? : Option α} {b? : Option β}
    (h : Option.Rel R a? b?) :
    (a? = none ∧ b? = none) ∨ ∃ a b, a? = some a ∧ b? = some b ∧ R a b := by
  cases h with
  | none => exact .inl ⟨rfl, rfl⟩
  | some h => exact .inr ⟨_, _, rfl, rfl, h⟩

namespace MatchState

/-- The state with another outcome, and a failure taken into account. -/
def after (s : MatchState) (outcome : Outcome) (failure : Option Failure) : MatchState :=
  (s.adopt outcome).mergeFailure failure

theorem succeed_eq_after (s : MatchState) (value : Value) :
    s.succeed value = s.after ⟨value, false, s.pos⟩ none := by
  simp [succeed, after, adopt, mergeFailure]

theorem failAt_eq_after (s : MatchState) (pos : Nat) (cause : Option FailureCause) :
    s.failAt pos cause = s.after ⟨.null, true, s.pos⟩ (some ⟨pos, cause⟩) := rfl

theorem fail_eq_after (s : MatchState) (cause : Option FailureCause) :
    s.fail cause = s.after ⟨.null, true, s.pos⟩ (some ⟨s.pos, cause⟩) := rfl

@[simp] theorem entering_pos (s : MatchState) (rule : String) : (s.entering rule).pos = s.pos := by
  unfold entering
  split <;> rfl

@[simp] theorem entering_scopes (s : MatchState) (rule : String) :
    (s.entering rule).scopes = s.scopes := by
  unfold entering
  split <;> rfl

@[simp] theorem entering_seeds (s : MatchState) (rule : String) :
    (s.entering rule).seeds = s.seeds := by
  unfold entering
  split <;> rfl

@[simp] theorem entering_memo (s : MatchState) (rule : String) :
    (s.entering rule).memo = s.memo := by
  unfold entering
  split <;> rfl

@[simp] theorem entering_furthest (s : MatchState) (rule : String) :
    (s.entering rule).furthest = s.furthest := by
  unfold entering
  split <;> rfl

/-- Apart from the blocked rules, a rule is left in the state in which its body ends. -/
theorem leaving_eq (s : MatchState) (rule : String) (s' : MatchState) :
    ∃ blocked, s.leaving rule s' = { s' with blocked := blocked } := by
  unfold leaving
  split
  · exact ⟨s'.blocked, rfl⟩
  · exact ⟨s.blocked, rfl⟩

theorem labelled_eq (s : MatchState) (name : String) :
    ∃ frame, s.labelled name = { s with scopes := { s.scopes with innermost := frame } } := by
  unfold labelled
  split
  · exact ⟨s.scopes.innermost, rfl⟩
  · exact ⟨_, rfl⟩

end MatchState

namespace Match

variable {g : Grammar} {input : Array Char}

/-! ## Patterns without parts -/

/-- A literal ends with its text, after all its characters, or fails where it started. -/
theorem literalFrom_effect (input : Array Char) (text : String) (cs : List Char)
    (offset start : Nat) : ∃ outcome failure,
      (∀ s, s.pos = start → literalFrom input text offset cs s = s.after outcome failure) ∧
      (outcome.failed = false → outcome.pos = offset + cs.length) ∧
      (outcome.failed = true → outcome.pos = start) := by
  induction cs generalizing offset with
  | nil =>
    refine ⟨⟨.str text, false, offset⟩, none, fun s _ => ?_, fun _ => rfl, fun h => ?_⟩
    · rw [literalFrom, MatchState.succeed_eq_after]
      rfl
    · contradiction
  | cons c cs ih =>
    by_cases hc : input[offset]? = some c
    · obtain ⟨outcome, failure, effect, good, bad⟩ := ih (offset + 1)
      refine ⟨outcome, failure, fun s hs => ?_, fun h => ?_, bad⟩
      · rw [literalFrom, if_pos hc, effect s hs]
      · rw [good h, List.length_cons]
        omega
    · refine ⟨⟨.null, true, start⟩, some ⟨offset, none⟩, fun s hs => ?_, fun h => ?_, fun _ => rfl⟩
      · rw [literalFrom, if_neg hc, MatchState.failAt_eq_after, hs]
      · contradiction

/-- A class of characters takes one character or fails where it started. -/
theorem character_effect (input : Array Char) (accepts : Char → Bool) (start : Nat) :
    ∃ outcome failure,
      (∀ s, s.pos = start → character input accepts s = s.after outcome failure) ∧
      (outcome.failed = false → outcome.pos = start + 1) ∧
      (outcome.failed = true → outcome.pos = start) := by
  have fails : ∃ outcome failure, (∀ s : MatchState, s.pos = start →
      s.fail none = s.after outcome failure) ∧
      (outcome.failed = false → outcome.pos = start + 1) ∧
      (outcome.failed = true → outcome.pos = start) :=
    ⟨⟨.null, true, start⟩, some ⟨start, none⟩, fun s hs => by rw [s.fail_eq_after, hs],
      fun h => by contradiction, fun _ => rfl⟩
  cases hc : input[start]? with
  | none =>
    obtain ⟨outcome, failure, effect, rest⟩ := fails
    refine ⟨outcome, failure, fun s hs => ?_, rest⟩
    rw [← effect s hs, character, hs, hc]
  | some c =>
    by_cases ha : accepts c = true
    · refine ⟨⟨.ofChar c, false, start + 1⟩, none, fun s hs => ?_, fun _ => rfl, fun h => ?_⟩
      · simp only [character, hs, hc, if_pos ha]
        rw [MatchState.succeed_eq_after]
        rfl
      · contradiction
    · obtain ⟨outcome, failure, effect, rest⟩ := fails
      refine ⟨outcome, failure, fun s hs => ?_, rest⟩
      simp only [character, hs, hc, if_neg ha]
      exact effect s hs

/-- A builtin rule takes one character, or it is the end and takes none, or it fails where it
started. -/
theorem builtin_effect (input : Array Char) (rule : BuiltinRule) (start : Nat) :
    ∃ outcome failure,
      (∀ s, s.pos = start → builtin input rule s = s.after outcome failure) ∧
      start ≤ outcome.pos ∧
      (outcome.failed = false → outcome.pos = start → rule = .end) := by
  have takes (accepts : Char → Bool) : ∃ outcome failure,
      (∀ s, s.pos = start → character input accepts s = s.after outcome failure) ∧
      start ≤ outcome.pos ∧ (outcome.failed = false → outcome.pos = start → rule = .end) := by
    obtain ⟨outcome, failure, effect, good, bad⟩ := character_effect input accepts start
    refine ⟨outcome, failure, effect, ?_, fun h hp => ?_⟩
    · cases hf : outcome.failed with
      | false => rw [good hf]; omega
      | true => exact Nat.le_of_eq (bad hf).symm
    · rw [good h] at hp
      omega
  cases rule with
  | anything => exact takes _
  | digit => exact takes _
  | letter => exact takes _
  | «end» =>
    cases hi : input[start]?.isNone with
    | true =>
      refine ⟨⟨.null, false, start⟩, none, fun s hs => ?_, Nat.le_refl _, fun _ _ => rfl⟩
      rw [builtin, hs, if_pos hi, MatchState.succeed_eq_after, hs]
    | false =>
      refine ⟨⟨.null, true, start⟩, some ⟨start, none⟩, fun s hs => ?_, Nat.le_refl _,
        fun h => by contradiction⟩
      rw [builtin, hs, if_neg (ne_true_of_eq_false hi), MatchState.fail_eq_after, hs]

/-- What a predicate does with the value of its expression. -/
def judged (s : MatchState) : Value → MatchState
  | .bool true => s.succeed (.bool true)
  | .bool false => s.fail none
  | v => s.fail (some (.predicateNotBool v.kind))

/-- What an equality assertion does with the value of its expression. -/
def expected (input : Array Char) (s : MatchState) : Value → MatchState
  | .str text => literal input text s
  | v => s.fail (some (.equalityNotStr v.kind))

/-- What is done with the value of an expression is determined by the offset and by the variables
that the expression looks up, if it is so for each value. -/
theorem evaluated_effect (e : Expr) (s : MatchState) {f : MatchState → Value → MatchState}
    (h : ∀ v, ∃ outcome failure, s.pos ≤ outcome.pos ∧
      ∀ t : MatchState, t.pos = s.pos → f t v = t.after outcome failure) :
    ∃ outcome failure, s.pos ≤ outcome.pos ∧
      ∀ t : MatchState, t.pos = s.pos → Scopes.AlikeOn e.reads s.scopes t.scopes →
        evaluated e t (f t) = t.after outcome failure := by
  cases he : e.eval s.scopes with
  | error error =>
    refine ⟨⟨.null, true, s.pos⟩, some ⟨s.pos, some (.evaluation error)⟩, Nat.le_refl _,
      fun t ht alike => ?_⟩
    rw [evaluated, ← Expr.eval_congr e alike, he]
    show t.fail _ = _
    rw [MatchState.fail_eq_after, ht]
  | ok v =>
    obtain ⟨outcome, failure, ahead, effect⟩ := h v
    refine ⟨outcome, failure, ahead, fun t ht alike => ?_⟩
    rw [evaluated, ← Expr.eval_congr e alike, he]
    exact effect t ht

theorem succeed_effect (s : MatchState) (v : Value) : ∃ outcome failure, s.pos ≤ outcome.pos ∧
    ∀ t : MatchState, t.pos = s.pos → t.succeed v = t.after outcome failure :=
  ⟨⟨v, false, s.pos⟩, none, Nat.le_refl _, fun t ht => by
    rw [MatchState.succeed_eq_after, ht]⟩

theorem fail_effect (s : MatchState) (cause : Option FailureCause) :
    ∃ outcome failure, s.pos ≤ outcome.pos ∧
      ∀ t : MatchState, t.pos = s.pos → t.fail cause = t.after outcome failure :=
  ⟨⟨.null, true, s.pos⟩, some ⟨s.pos, cause⟩, Nat.le_refl _, fun t ht => by
    rw [MatchState.fail_eq_after, ht]⟩

theorem literal_effect (input : Array Char) (text : String) (s : MatchState) :
    ∃ outcome failure, s.pos ≤ outcome.pos ∧
      ∀ t : MatchState, t.pos = s.pos → literal input text t = t.after outcome failure := by
  obtain ⟨outcome, failure, effect, good, bad⟩ :=
    literalFrom_effect input text text.toList s.pos s.pos
  refine ⟨outcome, failure, ?_, fun t ht => by rw [literal, ht, effect t ht]⟩
  cases hf : outcome.failed with
  | false => rw [good hf]; omega
  | true => exact Nat.le_of_eq (bad hf).symm

/-- What a pattern without parts does is determined by the offset and by the variables that it
looks up: an outcome at that offset or a later one, and a failure to take into account.  It succeeds
where it started only if it may be empty. -/
theorem atom?_effect {p : Pattern} {s s' : MatchState} (h : atom? g input p s = some s') :
    ∃ outcome failure,
      (∀ t : MatchState, t.pos = s.pos → Scopes.AlikeOn p.reads s.scopes t.scopes →
        atom? g input p t = some (t.after outcome failure)) ∧
      s.pos ≤ outcome.pos ∧
      (outcome.failed = false → outcome.pos = s.pos →
        ∀ empty, g.bodies.EmptyClosed empty → p.nullable empty) := by
  cases p with
  | apply name =>
    cases hb : g.body? name with
    | some body => simp [atom?, hb] at h
    | none =>
      cases hr : BuiltinRule.ofName? name with
      | none =>
        refine ⟨⟨.null, true, s.pos⟩, some ⟨s.pos, some (.unknownRule name)⟩, fun t ht _ => ?_,
          Nat.le_refl _, fun h => by contradiction⟩
        simp only [atom?, hb, hr, MatchState.fail_eq_after, ht]
      | some rule =>
        obtain ⟨outcome, failure, effect, ahead, still⟩ := builtin_effect input rule s.pos
        refine ⟨outcome, failure, fun t ht _ => ?_, ahead, fun good hp empty closed => ?_⟩
        · simp only [atom?, hb, hr, effect t ht]
        · have named : rule.name = name := by
            simpa using List.find?_some hr
          rw [still good hp] at named
          subst named
          exact closed.builtin hb
  | lit text =>
    obtain ⟨outcome, failure, effect, good, bad⟩ :=
      literalFrom_effect input text text.toList s.pos s.pos
    refine ⟨outcome, failure, fun t ht _ => ?_, ?_, fun ok hp empty _ => ?_⟩
    · rw [atom?, literal, ht, effect t ht]
    · cases hf : outcome.failed with
      | false => rw [good hf]; omega
      | true => exact Nat.le_of_eq (bad hf).symm
    · rw [good ok] at hp
      exact List.length_eq_zero_iff.1 (by omega)
  | range lo hi =>
    obtain ⟨outcome, failure, effect, good, bad⟩ :=
      character_effect input (fun c => lo ≤ c && c ≤ hi) s.pos
    refine ⟨outcome, failure, fun t ht _ => ?_, ?_, fun ok hp => ?_⟩
    · rw [atom?, effect t ht]
    · cases hf : outcome.failed with
      | false => rw [good hf]; omega
      | true => exact Nat.le_of_eq (bad hf).symm
    · rw [good ok] at hp
      omega
  | pred e =>
    have each : ∀ v, ∃ outcome failure, s.pos ≤ outcome.pos ∧
        ∀ t : MatchState, t.pos = s.pos → judged t v = t.after outcome failure := by
      intro v
      unfold judged
      split
      · exact succeed_effect s _
      · exact fail_effect s _
      · exact fail_effect s _
    obtain ⟨outcome, failure, ahead, effect⟩ := evaluated_effect e s each
    exact ⟨outcome, failure, fun t ht alike => congrArg some (effect t ht alike), ahead,
      fun _ _ _ _ => trivial⟩
  | eq e =>
    have each : ∀ v, ∃ outcome failure, s.pos ≤ outcome.pos ∧
        ∀ t : MatchState, t.pos = s.pos → expected input t v = t.after outcome failure := by
      intro v
      unfold expected
      split
      · exact literal_effect input _ s
      · exact fail_effect s _
    obtain ⟨outcome, failure, ahead, effect⟩ := evaluated_effect e s each
    exact ⟨outcome, failure, fun t ht alike => congrArg some (effect t ht alike), ahead,
      fun _ _ _ _ => trivial⟩
  | action e =>
    obtain ⟨outcome, failure, ahead, effect⟩ := evaluated_effect e s
      (f := MatchState.succeed) (succeed_effect s)
    exact ⟨outcome, failure, fun t ht alike => congrArg some (effect t ht alike), ahead,
      fun _ _ _ _ => trivial⟩
  | pos =>
    refine ⟨⟨.int s.pos, false, s.pos⟩, none, fun t ht _ => ?_, Nat.le_refl _,
      fun _ _ _ _ => trivial⟩
    rw [atom?, MatchState.succeed_eq_after, ht]
  | empty =>
    refine ⟨⟨.null, false, s.pos⟩, none, fun t ht _ => ?_, Nat.le_refl _,
      fun _ _ _ _ => trivial⟩
    rw [atom?, MatchState.succeed_eq_after, ht]
  | _ => contradiction

/-! ## Patterns with one part -/

theorem looked_eq (s s' : MatchState) : ∃ outcome furthest,
    looked s s' = { s'.adopt outcome with furthest := furthest } := by
  unfold looked
  split
  · exact ⟨⟨.null, false, s.pos⟩, s.furthest, rfl⟩
  · exact ⟨⟨.null, true, s.pos⟩, Failure.merge s.furthest (some ⟨s.pos, none⟩), rfl⟩

theorem optional_eq (s s' : MatchState) : ∃ outcome, optional s s' = s'.adopt outcome := by
  unfold optional
  split
  · exact ⟨⟨.null, false, s.pos⟩, rfl⟩
  · exact ⟨s'.outcome, rfl⟩

theorem captured_eq (input : Array Char) (s s' : MatchState) :
    ∃ value, captured input s s' = { s' with value := value } := by
  unfold captured
  split
  · exact ⟨s'.value, rfl⟩
  · next hf =>
    refine ⟨.str (String.ofList (input.extract s.pos s'.pos).toList), ?_⟩
    rw [MatchState.succeed, Bool.not_eq_true] at *
    rw [hf]

/-! ## The frame of a run -/

/-- The parts of a state that are put back at the end of a run: the seeds, the blocked rules and the
enclosing scopes. -/
def frame (s : MatchState) : Table Outcome × List String × List Frame :=
  (s.seeds, s.blocked, s.scopes.enclosing)

theorem labelled_frame (s : MatchState) (name : String) : frame (s.labelled name) = frame s := by
  unfold MatchState.labelled
  split <;> rfl

theorem leaving_frame {s s' : MatchState} {rule : String}
    (h : frame s' = frame (s.entering rule)) : frame (s.leaving rule s') = frame s := by
  unfold MatchState.leaving
  unfold MatchState.entering at h
  split
  · next hc => rw [h, if_pos hc]
  · next hc =>
    rw [if_neg hc] at h
    exact congrArg (fun f => (f.1, s.blocked, f.2.2)) h

theorem popped_frame {s s' : MatchState}
    (h : frame s' = frame { s with scopes := s.scopes.push }) :
    frame { s' with scopes := s'.scopes.pop } = frame s ∧ s'.scopes.pop = s.scopes := by
  have hseeds : s'.seeds = s.seeds := congrArg Prod.fst h
  have hblocked : s'.blocked = s.blocked := congrArg (·.2.1) h
  have henclosing : s'.scopes.enclosing = s.scopes.frames := congrArg (·.2.2) h
  have hpop : s'.scopes.pop = s.scopes := by
    rw [Scopes.pop, henclosing]
    rfl
  refine ⟨?_, hpop⟩
  simp only [frame, hseeds, hblocked, hpop]

/-- A seed that is taken away again leaves the seeds as they were. -/
theorem unseeded_frame {s s' : MatchState} {key : RuleAt} {seed : Outcome}
    (fresh : s.seeds.get? key = none)
    (h : frame s' = (s.seeds.insert key seed, s.blocked, s.scopes.enclosing)) :
    frame { s' with seeds := s'.seeds.erase key } = frame s := by
  have hseeds : s'.seeds = s.seeds.insert key seed := congrArg Prod.fst h
  have hblocked : s'.blocked = s.blocked := congrArg (·.2.1) h
  have henclosing : s'.scopes.enclosing = s.scopes.enclosing := congrArg (·.2.2) h
  simp only [frame, hseeds, hblocked, henclosing, Table.erase_insert fresh]

theorem grown_frame {s s' : MatchState} {rule : String} {seed : Outcome}
    (fresh : s.seeds.get? (rule, s.pos) = none)
    (h : frame s' = (s.seeds.insert (rule, s.pos) seed, (growing g rule s).blocked,
      s.scopes.enclosing)) : frame (grown g rule s s') = frame s := by
  have hseeds : s'.seeds = s.seeds.insert (rule, s.pos) seed := congrArg Prod.fst h
  have hblocked : s'.blocked = (growing g rule s).blocked := congrArg (·.2.1) h
  have henclosing : s'.scopes.enclosing = s.scopes.enclosing := congrArg (·.2.2) h
  have hunblocked : (if g.isLeftAssoc rule then s'.blocked.erase rule else s'.blocked)
      = s.blocked := by
    rw [hblocked, growing]
    split
    · exact List.erase_cons_head ..
    · rfl
  have hgrown : frame (grown g rule s s') = (s'.seeds.erase (rule, s.pos),
      if g.isLeftAssoc rule then s'.blocked.erase rule else s'.blocked, s'.scopes.enclosing) := rfl
  rw [hgrown, hunblocked, hseeds, henclosing, Table.erase_insert fresh, frame]

/-- What a task leaves as it was: the frame of the state, apart from the seed that is growing. -/
def Framed : Task → MatchState → MatchState → Prop
  | .grow _ key, s, s' => ∀ (table : Table Outcome) seed f, table.get? key = none →
      frame s = (table.insert key seed, f) → ∃ seed', frame s' = (table.insert key seed', f)
  | _, s, s' => frame s' = frame s

/-- Every run leaves the frame of its state as it was. -/
theorem Run.framed {task : Task} {s s' : MatchState} (h : Run g input task s s') :
    Framed task s s' := by
  induction h with
  | altsNil => rfl
  | altsLast _ ih => exact ih
  | altsTaken _ _ ih => exact ih
  | altsNext _ _ _ ih ihRest => exact ihRest.trans ih
  | termsNil => rfl
  | termsStop _ _ ih => exact ih
  | termsNext _ _ _ ih ihRest => exact ihRest.trans ih
  | repeatedStop _ _ ih => exact ih
  | repeatedStill _ _ _ ih => exact ih
  | repeatedNext _ _ _ _ ih ihRest => exact ihRest.trans ih
  | growStop _ _ ih => exact fun table seed f fresh hf => ⟨seed, ih.trans hf⟩
  | @growNext inner key s s' s'' _ _ _ ih ihRest =>
    intro table seed f fresh hf
    have hs' : frame s' = (table.insert key seed, f) := ih.trans hf
    refine ihRest table s'.outcome f fresh ?_
    have hseeds : s'.seeds = table.insert key seed := congrArg Prod.fst hs'
    have hrest : (s'.blocked, s'.scopes.enclosing) = f := congrArg Prod.snd hs'
    show (s'.seeds.insert key s'.outcome, s'.blocked, s'.scopes.enclosing) = _
    rw [hseeds, Table.insert_insert, hrest]
  | atom h =>
    obtain ⟨outcome, failure, effect, -, -⟩ := atom?_effect h
    rw [effect _ rfl fun _ _ => rfl, Option.some.injEq] at h
    exact h ▸ rfl
  | choice _ ih => exact ih
  | seq _ ih => exact ih
  | @scope rule ps s s' _ ih => exact (popped_frame (s := s) ih).1
  | label _ ih => exact (labelled_frame _ _).trans ih
  | seed => rfl
  | once unseeded _ _ ih => exact unseeded_frame unseeded ih
  | @grown inner rule s s' unseeded _ _ ih =>
    obtain ⟨seed, h⟩ := ih s.seeds (.failing s.pos)
      ((growing g rule s).blocked, s.scopes.enclosing) unseeded rfl
    exact grown_frame unseeded h
  | hit => rfl
  | miss _ _ ih => exact ih
  | rule _ _ ih => exact leaving_frame ih
  | @not inner s s' _ ih =>
    obtain ⟨outcome, furthest, h⟩ := looked_eq s s'
    rw [h]
    exact ih
  | @opt inner s s' _ ih =>
    obtain ⟨outcome, h⟩ := optional_eq s s'
    rw [h]
    exact ih
  | star _ ih => exact ih
  | plusStop _ _ ih => exact ih
  | plusStill _ _ _ ih => exact ih
  | plusNext _ _ _ _ ih ihRest => exact ihRest.trans ih
  | paren _ ih => exact ih
  | @capture inner s s' _ ih =>
    obtain ⟨value, h⟩ := captured_eq input s s'
    rw [h]
    exact ih

/-- Matching a pattern leaves the seeds, the blocked rules and the enclosing scopes as they were. -/
theorem Run.frame {p : Pattern} {s s' : MatchState} (h : Run g input (.whole p) s s') :
    frame s' = frame s := h.framed

theorem Run.seeds_eq {p : Pattern} {s s' : MatchState} (h : Run g input (.whole p) s s') :
    s'.seeds = s.seeds := congrArg Prod.fst h.frame

end Match

/-! ## Closed patterns -/

namespace Pattern

mutual

/-- Whether all labels of a pattern are in scopes of its own. -/
def Closed : Pattern → Prop
  | .choice alts => ClosedAll alts
  | .seq ps => ClosedAll ps
  | .scope _ _ => True
  | .label _ _ => False
  | .leftrec p _ => Closed p
  | .memo p _ => Closed p
  | .not p => Closed p
  | .opt p => Closed p
  | .star p => Closed p
  | .plus p => Closed p
  | .paren p => Closed p
  | .capture p => Closed p
  | .apply _ => True
  | .lit _ => True
  | .range _ _ => True
  | .pred _ => True
  | .eq _ => True
  | .action _ => True
  | .pos => True
  | .empty => True

/-- Whether all patterns of a list have their labels in scopes of their own. -/
def ClosedAll : List Pattern → Prop
  | [] => True
  | p :: ps => Closed p ∧ ClosedAll ps

end

theorem closedAll_iff {ps : List Pattern} : ClosedAll ps ↔ ∀ p ∈ ps, p.Closed := by
  induction ps with
  | nil => simp [ClosedAll]
  | cons p ps ih => rw [ClosedAll, ih, List.forall_mem_cons]

end Pattern

namespace Match

/-- Whether all labels of a task are in scopes of its own. -/
def Task.Closed : Task → Prop
  | .whole p => p.Closed
  | .alts _ ps => Pattern.ClosedAll ps
  | .terms ps => Pattern.ClosedAll ps
  | .repeated inner _ => inner.Closed
  | .grow inner _ => inner.Closed

theorem leaving_scopes (s : MatchState) (rule : String) (s' : MatchState) :
    (s.leaving rule s').scopes = s'.scopes := by
  obtain ⟨blocked, h⟩ := s.leaving_eq rule s'
  rw [h]

/-- A run of closed patterns leaves all scopes as they were. -/
theorem Run.scopes_of_closed (rules : ∀ name body, g.body? name = some body → body.Closed)
    {task : Task} {s s' : MatchState} (h : Run g input task s s') (closed : task.Closed) :
    s'.scopes = s.scopes := by
  induction h with
  | altsNil => rfl
  | altsLast _ ih => exact ih closed.1
  | altsTaken _ _ ih => exact ih closed.1
  | altsNext _ _ _ ih ihRest => exact (ihRest closed.2).trans (ih closed.1)
  | termsNil => rfl
  | termsStop _ _ ih => exact ih closed.1
  | termsNext _ _ _ ih ihRest => exact (ihRest closed.2).trans (ih closed.1)
  | repeatedStop _ _ ih => exact ih closed
  | repeatedStill _ _ _ ih => exact ih closed
  | repeatedNext _ _ _ _ ih ihRest => exact (ihRest closed).trans (ih closed)
  | growStop _ _ ih => exact ih closed
  | growNext _ _ _ ih ihRest => exact (ihRest closed).trans (ih closed)
  | atom h =>
    obtain ⟨outcome, failure, effect, -, -⟩ := atom?_effect h
    rw [effect _ rfl fun _ _ => rfl, Option.some.injEq] at h
    exact h ▸ rfl
  | choice _ ih => exact ih closed
  | seq _ ih => exact ih closed
  | @scope rule ps s s' h _ => exact (popped_frame (s := s) h.framed).2
  | label => exact closed.elim
  | seed => rfl
  | once _ _ _ ih => exact ih closed
  | grown _ _ _ ih => exact ih closed
  | hit => rfl
  | miss _ _ ih => exact ih closed
  | @rule name body s s' found _ ih =>
    rw [leaving_scopes, ih (rules name body found), MatchState.entering_scopes]
  | @not inner s s' _ ih =>
    obtain ⟨outcome, furthest, h⟩ := looked_eq s s'
    rw [h]
    exact ih closed
  | @opt inner s s' _ ih =>
    obtain ⟨outcome, h⟩ := optional_eq s s'
    rw [h]
    exact ih closed
  | star _ ih => exact ih closed
  | plusStop _ _ ih => exact ih closed
  | plusStill _ _ _ ih => exact ih closed
  | plusNext _ _ _ _ ih ihRest => exact (ihRest closed).trans (ih closed)
  | paren _ ih => exact ih closed
  | @capture inner s s' _ ih =>
    obtain ⟨value, h⟩ := captured_eq input s s'
    rw [h]
    exact ih closed

end Match

/-! ## Kept outcomes -/

/-- Whether a pattern is none of those whose outcomes are kept. -/
def Pattern.NotMemo : Pattern → Prop
  | .memo _ _ => False
  | _ => True

namespace Match

variable {g : Grammar} {input : Array Char}

/-- The patterns of a task. -/
def Task.patterns : Task → List Pattern
  | .whole p => [p]
  | .alts _ ps => ps
  | .terms ps => ps
  | .repeated inner _ => [inner]
  | .grow inner _ => [inner]

/-- Whether something is so of all nodes of the patterns of a list. -/
def All (P : Pattern → Prop) (ps : List Pattern) : Prop := ∀ p ∈ ps, p.Everywhere P

section All

variable {P : Pattern → Prop} {p : Pattern} {ps : List Pattern}

theorem All.here (h : All P [p]) : P p := (Pattern.everywhere_iff.1 (h p (.head _))).1

theorem All.parts (h : All P [p]) : All P p.parts := (Pattern.everywhere_iff.1 (h p (.head _))).2

theorem All.head (h : All P (p :: ps)) : All P [p] := fun q hq =>
  h q (List.mem_cons.2 (.inl (List.mem_singleton.1 hq)))

theorem All.tail (h : All P (p :: ps)) : All P ps := fun q hq => h q (.tail _ hq)

/-- What is so of all nodes of all rules is so of the nodes of the body of a rule. -/
theorem all_body (rules : ∀ b ∈ g.bodies, b.2.Everywhere P) {name : String} {body : Pattern}
    (found : g.body? name = some body) : All P [body] := by
  intro q hq
  rw [List.mem_singleton.1 hq]
  exact rules _ (Bodies.mem_of_body? found)

end All

/-- A run of patterns none of which keeps its outcomes leaves the kept outcomes as they were. -/
theorem Run.memo_of_notMemo (rules : ∀ b ∈ g.bodies, b.2.Everywhere Pattern.NotMemo)
    {task : Task} {s s' : MatchState} (h : Run g input task s s')
    (all : All Pattern.NotMemo task.patterns) : s'.memo = s.memo := by
  induction h with
  | altsNil => rfl
  | altsLast _ ih => exact ih all
  | altsTaken _ _ ih => exact ih all.head
  | altsNext _ _ _ ih ihRest => exact (ihRest all.tail).trans (ih all.head)
  | termsNil => rfl
  | termsStop _ _ ih => exact ih all.head
  | termsNext _ _ _ ih ihRest => exact (ihRest all.tail).trans (ih all.head)
  | repeatedStop _ _ ih => exact ih all
  | repeatedStill _ _ _ ih => exact ih all
  | repeatedNext _ _ _ _ ih ihRest => exact (ihRest all).trans (ih all)
  | growStop _ _ ih => exact ih all
  | growNext _ _ _ ih ihRest => exact (ihRest all).trans (ih all)
  | atom h =>
    obtain ⟨outcome, failure, effect, -, -⟩ := atom?_effect h
    rw [effect _ rfl fun _ _ => rfl, Option.some.injEq] at h
    exact h ▸ rfl
  | choice _ ih => exact ih all.parts
  | seq _ ih => exact ih all.parts
  | scope _ ih => exact ih all.parts
  | @label inner name s s' _ ih =>
    obtain ⟨frame, h⟩ := s'.labelled_eq name
    rw [h]
    exact ih all.parts
  | seed => rfl
  | once _ _ _ ih => exact ih all.parts
  | grown _ _ _ ih => exact ih all.parts
  | hit => exact all.here.elim
  | miss => exact all.here.elim
  | @rule name body s s' found _ ih =>
    obtain ⟨blocked, h⟩ := s.leaving_eq name s'
    rw [h, ← s.entering_memo name]
    exact ih (all_body rules found)
  | @not inner s s' _ ih =>
    obtain ⟨outcome, furthest, h⟩ := looked_eq s s'
    rw [h]
    exact ih all.parts
  | @opt inner s s' _ ih =>
    obtain ⟨outcome, h⟩ := optional_eq s s'
    rw [h]
    exact ih all.parts
  | star _ ih => exact ih all.parts
  | plusStop _ _ ih => exact ih all.parts
  | plusStill _ _ _ ih => exact ih all.parts
  | plusNext _ _ _ _ ih ihRest => exact (ihRest all.parts).trans (ih all.parts)
  | paren _ ih => exact ih all.parts
  | @capture inner s s' _ ih =>
    obtain ⟨value, h⟩ := captured_eq input s s'
    rw [h]
    exact ih all.parts

end Match

end Pegboard
