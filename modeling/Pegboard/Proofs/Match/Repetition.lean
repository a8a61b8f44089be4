import Pegboard.Proofs.Match.Run

/-!
# Repetitions

A star is a loop.  A plus makes its first repetition before the loop: if that one fails, so does the
plus, if it consumes nothing, it stays the only one, and otherwise the loop goes on with its value.
The loop of a star comes to the same three cases in its first round, and from the second one on both
are the same loop.  So the two differ only where there is no repetition at all.

## Main Definitions

* `Match.starred`: the state after a star, where the plus ends in a given one.

## Main Results

* `Match.run_star_iff`: a star runs as the plus does, and makes of its failure an empty sequence.
* `Match.eval_plus_star`: plus and star agree in all of their states, but for that.
-/

namespace Pegboard

namespace Match

/-- The state after a star that was evaluated from `s`, if `s'` is that after the plus: where the
plus fails, there is no repetition, and nothing is consumed. -/
def starred (s s' : MatchState) : MatchState :=
  if s'.failed then { s' with pos := s.pos }.succeed (.seq []) else s'

theorem starred_of_failed (s : MatchState) {s' : MatchState} (bad : s'.failed = true) :
    starred s s' = { s' with pos := s.pos }.succeed (.seq []) := if_pos bad

theorem starred_of_not_failed (s : MatchState) {s' : MatchState} (good : s'.failed = false) :
    starred s s' = s' := if_neg (by simp [good])

theorem failed_starred (s s' : MatchState) : (starred s s').failed = false := by
  cases h : s'.failed with
  | true => rw [starred_of_failed s h]; rfl
  | false => rw [starred_of_not_failed s h, h]

variable {g : Grammar} {input : Array Char} {inner : Pattern} {s s' : MatchState}

/-- Repetitions do not fail, and their values come behind those of earlier ones. -/
theorem Run.repeated_value {items : List Value} (run : Run g input (.repeated inner items) s s') :
    s'.failed = false ∧ ∃ more, s'.value = .seq (items.reverse ++ more) := by
  generalize htask : Task.repeated inner items = task at run
  induction run generalizing items with
  | repeatedStop =>
    cases htask
    exact ⟨rfl, [], by simp [MatchState.succeed]⟩
  | @repeatedStill _ _ _ t =>
    cases htask
    exact ⟨rfl, [t.value], by simp [MatchState.succeed]⟩
  | @repeatedNext _ _ _ t _ _ _ _ _ _ ih =>
    cases htask
    obtain ⟨good, more, hvalue⟩ := ih rfl
    exact ⟨good, t.value :: more, by simp [hvalue]⟩
  | _ => cases htask

/-- A plus that does not fail gives at least one value. -/
theorem Run.plus_value (run : Run g input (.whole (.plus inner)) s s')
    (good : s'.failed = false) : ∃ first more, s'.value = .seq (first :: more) := by
  cases run with
  | atom h => contradiction
  | plusStop _ bad =>
    rw [good] at bad
    contradiction
  | @plusStill _ _ t => exact ⟨t.value, [], rfl⟩
  | @plusNext _ _ t _ _ _ _ rest =>
    obtain ⟨-, more, hvalue⟩ := rest.repeated_value
    exact ⟨t.value, more, hvalue⟩

/-- Where a plus ends, the star of the same pattern ends too. -/
theorem Run.star_of_plus (run : Run g input (.whole (.plus inner)) s s') :
    Run g input (.whole (.star inner)) s (starred s s') := by
  cases run with
  | atom h => contradiction
  | plusStop run bad =>
    rw [starred_of_failed s bad]
    exact .star (.repeatedStop run bad)
  | plusStill run good still => exact .star (.repeatedStill run good still)
  | plusNext run good moved rest =>
    rw [starred_of_not_failed s rest.repeated_value.1]
    exact .star (.repeatedNext run good moved rest)

/-- Where a star ends, the plus of the same pattern ends too: the first round of the loop decides in
which way. -/
theorem Run.plus_of_star (run : Run g input (.whole (.star inner)) s s') :
    ∃ t, Run g input (.whole (.plus inner)) s t := by
  cases run with
  | atom h => contradiction
  | star loop =>
    cases loop with
    | repeatedStop run bad => exact ⟨_, .plusStop run bad⟩
    | repeatedStill run good still => exact ⟨_, .plusStill run good still⟩
    | repeatedNext run good moved rest => exact ⟨_, .plusNext run good moved rest⟩

/-- A star runs as the plus of the same pattern does, and makes of its failure an empty sequence. -/
theorem run_star_iff :
    Run g input (.whole (.star inner)) s s' ↔
      ∃ t, Run g input (.whole (.plus inner)) s t ∧ s' = starred s t := by
  constructor
  · intro run
    obtain ⟨t, plus⟩ := run.plus_of_star
    exact ⟨t, plus, run.unique plus.star_of_plus⟩
  · rintro ⟨t, plus, rfl⟩
    exact plus.star_of_plus

/-- **Plus and star agree.**  From any state, evaluating a plus comes to an end if and only if
evaluating the star does.  The star never fails, and gives no values exactly where the plus fails;
everywhere else both end in the same state: offset, value, bindings, seeds, blocked rules,
remembered outcomes and furthest failure. -/
theorem eval_plus_star (g : Grammar) (input : Array Char) (inner : Pattern) (s : MatchState) :
    ((∃ n plus, eval g input n (.plus inner) s = some plus) ↔
        ∃ n star, eval g input n (.star inner) s = some star) ∧
      ∀ n m plus star, eval g input n (.plus inner) s = some plus →
        eval g input m (.star inner) s = some star →
        star.failed = false ∧ (plus.failed = true ↔ star.value = .seq []) ∧
          (plus.failed = false → plus = star) := by
  refine ⟨⟨?_, ?_⟩, ?_⟩
  · rintro ⟨n, plus, h⟩
    obtain ⟨m, hm⟩ := run_iff_eval.1 (run_star_iff.2 ⟨plus, run_of_eval h, rfl⟩)
    exact ⟨m, _, hm⟩
  · rintro ⟨n, star, h⟩
    obtain ⟨plus, run, -⟩ := run_star_iff.1 (run_of_eval h)
    obtain ⟨m, hm⟩ := run_iff_eval.1 run
    exact ⟨m, plus, hm⟩
  · intro n m plus star hplus hstar
    obtain ⟨t, run, rfl⟩ := run_star_iff.1 (run_of_eval hstar)
    obtain rfl : t = plus := run.unique (run_of_eval hplus)
    refine ⟨failed_starred s t, ?_, fun good => (starred_of_not_failed s good).symm⟩
    constructor
    · intro bad
      rw [starred_of_failed s bad]
      rfl
    · intro empty
      cases good : t.failed with
      | true => rfl
      | false =>
        obtain ⟨first, more, hvalue⟩ := run.plus_value good
        rw [starred_of_not_failed s good, hvalue] at empty
        simp at empty

/-- Both give one value for a pattern that matches the empty string at once, and two for one that
does so the second time.  Where the pattern does not match, the plus fails and the star gives
none. -/
theorem eval_plus_star_lit :
    (∃ plus star, eval ⟨[], []⟩ #[] 3 (.plus (.opt (.lit "a"))) .initial = some plus ∧
      eval ⟨[], []⟩ #[] 3 (.star (.opt (.lit "a"))) .initial = some star ∧
      plus = star ∧ star.value = .seq [.null]) ∧
    (∃ plus star, eval ⟨[], []⟩ #['a'] 3 (.plus (.opt (.lit "a"))) .initial = some plus ∧
      eval ⟨[], []⟩ #['a'] 3 (.star (.opt (.lit "a"))) .initial = some star ∧
      plus = star ∧ star.value = .seq [.str "a", .null]) ∧
    ∃ plus star, eval ⟨[], []⟩ #['b'] 3 (.plus (.lit "a")) .initial = some plus ∧
      eval ⟨[], []⟩ #['b'] 3 (.star (.lit "a")) .initial = some star ∧
      plus.failed = true ∧ star.value = .seq [] := by
  let empty : MatchState :=
    { MatchState.initial with value := .seq [.null], furthest := some ⟨0, none⟩ }
  let second : MatchState :=
    { MatchState.initial with
      pos := 1, value := .seq [.str "a", .null], furthest := some ⟨1, none⟩ }
  let unmatched : MatchState :=
    { MatchState.initial with failed := true, furthest := some ⟨0, none⟩ }
  have agreeEmpty := (eval_plus_star ⟨[], []⟩ #[] (.opt (.lit "a")) .initial).2
    3 3 empty empty rfl rfl
  have agreeSecond := (eval_plus_star ⟨[], []⟩ #['a'] (.opt (.lit "a")) .initial).2
    3 3 second second rfl rfl
  have agreeUnmatched := (eval_plus_star ⟨[], []⟩ #['b'] (.lit "a") .initial).2
    3 3 unmatched (unmatched.succeed (.seq [])) rfl rfl
  exact ⟨⟨empty, empty, rfl, rfl, agreeEmpty.2.2 rfl, rfl⟩,
    ⟨second, second, rfl, rfl, agreeSecond.2.2 rfl, rfl⟩,
    unmatched, unmatched.succeed (.seq []), rfl, rfl, agreeUnmatched.2.1.2 rfl, rfl⟩

end Match

end Pegboard
