import Pegboard.Proofs.Match.Progress

/-!
# The end of the input

A match never gets past the end of the input: neither the offset nor the offset of anything that is
recorded does.  So what remains of the input is a number that no part of a match can lower for ever.

## Main Definitions

* `Inside`: the offset and all recorded offsets are offsets of the input.

## Main Results

* `Run.inside`, `Calls.inside`: what a match comes to is inside the input.
-/

namespace Pegboard.Match

variable {g : Grammar} {input : Array Char}

/-- The offset of a state, and those of all that is recorded in it, are not past the end. -/
structure Inside (input : Array Char) (s : MatchState) : Prop where
  pos : s.pos ≤ input.size
  seeds : ∀ e ∈ s.seeds, e.2.pos ≤ input.size
  memo : ∀ e ∈ s.memo, e.2.outcome.pos ≤ input.size

theorem inside_initial (input : Array Char) : Inside input .initial :=
  ⟨Nat.zero_le _, fun e he => by contradiction, fun e he => by contradiction⟩

namespace Inside

variable {s s' : MatchState}

/-- The state with another offset of the input. -/
theorem move (h : Inside input s) (pos : s'.pos ≤ input.size) (seeds : s'.seeds = s.seeds)
    (memo : s'.memo = s.memo) : Inside input s' :=
  ⟨pos, seeds ▸ h.seeds, memo ▸ h.memo⟩

/-- The state with another seed for one rule. -/
theorem insert (h : Inside input s) {key : RuleAt} {seed : Outcome}
    (pos : seed.pos ≤ input.size) :
    Inside input { s with seeds := s.seeds.insert key seed } :=
  ⟨h.pos, forall_insert h.seeds pos, h.memo⟩

theorem seeded (h : Inside input s) (rule : String) : Inside input (s.seeded rule) :=
  h.insert h.pos

theorem growing (h : Inside input s) (g : Grammar) (rule : String) :
    Inside input (growing g rule s) :=
  (h.seeded rule).move h.pos rfl rfl

theorem reseeded (h : Inside input s) (key : RuleAt) : Inside input (s.reseeded key) :=
  h.insert h.pos

theorem entering (h : Inside input s) (rule : String) : Inside input (s.entering rule) :=
  h.move (by rw [s.entering_pos]; exact h.pos) (s.entering_seeds rule) (s.entering_memo rule)

end Inside

/-! ## Patterns without parts -/

theorem literalFrom_inside (input : Array Char) (text : String) :
    ∀ (cs : List Char) (offset : Nat) (s : MatchState), offset ≤ input.size →
      s.pos ≤ input.size → (literalFrom input text offset cs s).pos ≤ input.size
  | [], offset, s, within, _ => within
  | c :: cs, offset, s, within, hs => by
    rw [literalFrom]
    split
    · next hc =>
      obtain ⟨bound, -⟩ := Array.getElem?_eq_some_iff.1 hc
      exact literalFrom_inside input text cs (offset + 1) s bound hs
    · exact hs

theorem literal_inside (input : Array Char) (text : String) {s : MatchState}
    (hs : s.pos ≤ input.size) : (literal input text s).pos ≤ input.size :=
  literalFrom_inside input text _ s.pos s hs hs

theorem character_inside (input : Array Char) (accepts : Char → Bool) {s : MatchState}
    (hs : s.pos ≤ input.size) : (character input accepts s).pos ≤ input.size := by
  rw [character]
  split
  · next c hc =>
    obtain ⟨bound, -⟩ := Array.getElem?_eq_some_iff.1 hc
    split
    · exact bound
    · exact hs
  · exact hs

theorem builtin_inside (input : Array Char) (rule : BuiltinRule) {s : MatchState}
    (hs : s.pos ≤ input.size) : (builtin input rule s).pos ≤ input.size := by
  cases rule with
  | anything => exact character_inside input _ hs
  | digit => exact character_inside input _ hs
  | letter => exact character_inside input _ hs
  | «end» =>
    rw [builtin]
    split <;> exact hs

/-- An expression does not move, unless what is done with its value does. -/
theorem evaluated_inside (input : Array Char) (e : Expr) {s : MatchState}
    {next : Value → MatchState} (hs : s.pos ≤ input.size)
    (h : ∀ v, (next v).pos ≤ input.size) : (evaluated e s next).pos ≤ input.size := by
  rw [evaluated]
  split
  · exact h _
  · exact hs

theorem atom?_inside {p : Pattern} {s s' : MatchState} (h : atom? g input p s = some s')
    (hs : s.pos ≤ input.size) : s'.pos ≤ input.size := by
  cases p with
  | apply name =>
    rw [atom?] at h
    cases hb : g.body? name with
    | some body => simp [hb] at h
    | none =>
      cases hr : BuiltinRule.ofName? name with
      | none =>
        simp only [hb, hr, Option.some.injEq] at h
        exact h ▸ hs
      | some rule =>
        simp only [hb, hr, Option.some.injEq] at h
        exact h ▸ builtin_inside input rule hs
  | lit text => exact Option.some.inj h ▸ literal_inside input text hs
  | range lo hi => exact Option.some.inj h ▸ character_inside input _ hs
  | pred e =>
    refine Option.some.inj h ▸ evaluated_inside input e hs fun v => ?_
    split <;> exact hs
  | eq e =>
    refine Option.some.inj h ▸ evaluated_inside input e hs fun v => ?_
    split
    · exact literal_inside input _ hs
    · exact hs
  | action e => exact Option.some.inj h ▸ evaluated_inside input e hs fun _ => hs
  | pos => exact Option.some.inj h ▸ hs
  | empty => exact Option.some.inj h ▸ hs
  | _ => contradiction

/-! ## Runs -/

/-- What a task needs besides its state: alternatives are tried from an offset of the input, and a
seed grows at one. -/
def Task.Inside (input : Array Char) : Task → Prop
  | .alts start _ => start ≤ input.size
  | .grow _ key => key.2 ≤ input.size
  | _ => True

theorem Inside.grown {s s' : MatchState} (h : Inside input s') (hs : s.pos ≤ input.size)
    (g : Grammar) (rule : String) : Inside input (Match.grown g rule s s') := by
  refine ⟨?_, forall_erase h.seeds, h.memo⟩
  have hpos : (Match.grown g rule s s').pos
      = ((s'.seeds.get? (rule, s.pos)).getD (.failing s.pos)).pos := rfl
  rw [hpos]
  cases hseed : s'.seeds.get? (rule, s.pos) with
  | none => exact hs
  | some seed => exact h.seeds _ (mem_of_get? hseed)

/-- A run that starts inside the input ends there. -/
theorem Run.inside {task : Task} {s s' : MatchState} (h : Run g input task s s')
    (place : task.Inside input) (inside : Inside input s) : Inside input s' := by
  induction h with
  | altsNil => exact inside.move inside.pos rfl rfl
  | termsNil => exact inside
  | altsLast _ ih | altsTaken _ _ ih | termsStop _ _ ih => exact ih trivial inside
  | altsNext _ _ _ ih ihRest => exact ihRest place ((ih trivial inside).move place rfl rfl)
  | termsNext _ _ _ ih ihRest | repeatedNext _ _ _ _ ih ihRest =>
    exact ihRest trivial (ih trivial inside)
  | repeatedStop _ _ ih => exact (ih trivial inside).move inside.pos rfl rfl
  | repeatedStill _ _ _ ih =>
    have ended := ih trivial inside
    exact ended.move ended.pos rfl rfl
  | growStop _ _ ih => exact ih trivial (inside.move place rfl rfl)
  | growNext _ _ _ ih ihRest =>
    exact ihRest place ((ih trivial (inside.move place rfl rfl)).reseeded _)
  | atom h =>
    have pos := atom?_inside h inside.pos
    obtain ⟨outcome, failure, effect, -, -⟩ := atom?_effect h
    rw [effect _ rfl fun _ _ => rfl, Option.some.injEq] at h
    subst h
    exact inside.move pos rfl rfl
  | choice _ ih => exact ih inside.pos inside
  | seq _ ih => exact ih trivial (inside.move inside.pos rfl rfl)
  | scope _ ih =>
    have ended := ih trivial (inside.move inside.pos rfl rfl)
    exact ended.move ended.pos rfl rfl
  | @label inner name s s' _ ih =>
    have ended := ih trivial inside
    obtain ⟨frame, h⟩ := s'.labelled_eq name
    rw [h]
    exact ended.move ended.pos rfl rfl
  | seed found => exact inside.move (inside.seeds _ (mem_of_get? found)) rfl rfl
  | @once inner rule s s' _ _ _ ih =>
    have ended := ih trivial (inside.seeded rule)
    exact ⟨ended.pos, forall_erase ended.seeds, ended.memo⟩
  | @grown inner rule s s' _ _ _ ih =>
    exact (ih inside.pos (inside.growing g rule)).grown inside.pos g rule
  | hit found => exact inside.move (inside.memo _ (mem_of_get? found)) rfl rfl
  | miss _ _ ih =>
    have ended := ih trivial (inside.move inside.pos rfl rfl)
    exact ⟨ended.pos, ended.seeds, forall_insert ended.memo ended.pos⟩
  | @rule name body s s' _ _ ih =>
    have ended := ih trivial (inside.entering name)
    obtain ⟨blocked, h⟩ := s.leaving_eq name s'
    rw [h]
    exact ended.move ended.pos rfl rfl
  | @not inner s s' _ ih =>
    have ended := ih trivial (inside.move inside.pos rfl rfl)
    unfold looked
    split <;> exact ended.move inside.pos rfl rfl
  | @opt inner s s' _ ih =>
    have ended := ih trivial inside
    unfold optional
    split
    · exact ended.move inside.pos rfl rfl
    · exact ended
  | star _ ih | plusStop _ _ ih | paren _ ih => exact ih trivial inside
  | plusStill _ _ _ ih =>
    have ended := ih trivial inside
    exact ended.move ended.pos rfl rfl
  | plusNext _ _ _ _ ih ihRest => exact ihRest trivial (ih trivial inside)
  | @capture inner s s' _ ih =>
    have ended := ih trivial inside
    obtain ⟨value, h⟩ := captured_eq input s s'
    rw [h]
    exact ended.move ended.pos rfl rfl

/-- What a task comes to is inside the input, if the task is. -/
theorem Calls.inside {task part : Task} {s t : MatchState} (h : Calls g input task s part t)
    (place : task.Inside input) (inside : Inside input s) :
    part.Inside input ∧ Inside input t := by
  cases h with
  | altsTail h => exact ⟨place, (h.inside trivial inside).move place rfl rfl⟩
  | termsTail h | repeatedTail h | plusTail h => exact ⟨trivial, h.inside trivial inside⟩
  | growHead => exact ⟨trivial, inside.move place rfl rfl⟩
  | growTail h =>
    exact ⟨place, (h.inside trivial (inside.move place rfl rfl)).reseeded _⟩
  | choice => exact ⟨inside.pos, inside⟩
  | seq | scope | miss | not => exact ⟨trivial, inside.move inside.pos rfl rfl⟩
  | once => exact ⟨trivial, inside.seeded _⟩
  | grown => exact ⟨inside.pos, inside.growing g _⟩
  | rule => exact ⟨trivial, inside.entering _⟩
  | _ => exact ⟨trivial, inside⟩

/-- A task that is inside the input starts there. -/
theorem Inside.origin {task : Task} {s : MatchState} (inside : Inside input s)
    (place : task.Inside input) : task.origin s ≤ input.size := by
  cases task with
  | alts => exact place
  | grow => exact place
  | _ => exact inside.pos

end Pegboard.Match
