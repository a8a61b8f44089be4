import Pegboard.Proofs.Match.Progress
import Pegboard.Proofs.Match.Mirror
import Pegboard.Proofs.Normalize.Memoizable

/-!
# Seeds that grow while a rule is applied

What a rule gives may depend on the seeds that grow around it.  This module says which these can be:
none beyond the offset where the rule is applied, and at that offset only those of rules that may
come to apply this one before anything is consumed.  It also says that only what labels bind is ever
bound.

## Main Definitions

* `Sound`: what holds of every task and every state that a match comes to.

## Main Results

* `Calls.sound`: what a sound task comes to is sound.
* `Reaches.path`: what is applied where a task starts is reached from the task by left calls.
-/

namespace Pegboard

namespace Bodies

/-- A node of a body, or the application of a rule. -/
def Uses (bodies : Bodies) (p : Pattern) : Prop :=
  (∃ b ∈ bodies, p ∈ b.2.nodes) ∨ ∃ name, p = .apply name

theorem uses_everywhere (bodies : Bodies) : ∀ b ∈ bodies, b.2.Everywhere bodies.Uses :=
  fun b hb _ hp => .inl ⟨b, hb, hp⟩

end Bodies

namespace Match

open Pattern

variable {g : Grammar} {input : Array Char}

/-! ## Names that nothing binds -/

/-- The scopes bind names that no label binds as they are bound before a match. -/
def Unbinding (bodies : Bodies) (scopes : Scopes) : Prop :=
  ∀ name, bodies.Unbound name → scopes.lookup? name = Scopes.base.lookup? name

/-- A run binds only what labels bind. -/
theorem Run.unbinding {task : Task} {s s' : MatchState} (h : Run g input task s s')
    (nodes : All g.bodies.Uses task.patterns) (unbinding : Unbinding g.bodies s.scopes) :
    Unbinding g.bodies s'.scopes := by
  induction h with
  | altsNil | termsNil | seed | hit => exact unbinding
  | altsLast _ ih | altsTaken _ _ ih | termsStop _ _ ih => exact ih nodes.head unbinding
  | altsNext _ _ _ ih ihRest => exact ihRest nodes.tail (ih nodes.head unbinding)
  | termsNext _ _ _ ih ihRest => exact ihRest nodes.tail (ih nodes.head unbinding)
  | repeatedStop _ _ ih | repeatedStill _ _ _ ih | growStop _ _ ih => exact ih nodes unbinding
  | repeatedNext _ _ _ _ ih ihRest | growNext _ _ _ ih ihRest =>
    exact ihRest nodes (ih nodes unbinding)
  | atom h =>
    obtain ⟨outcome, failure, effect, -, -⟩ := atom?_effect h
    rw [effect _ rfl fun _ _ => rfl, Option.some.injEq] at h
    subst h
    exact unbinding
  | choice _ ih | seq _ ih | once _ _ _ ih | miss _ _ ih | star _ ih | plusStop _ _ ih
  | plusStill _ _ _ ih | paren _ ih =>
    exact ih nodes.parts unbinding
  | grown _ _ _ ih => exact ih nodes.parts unbinding
  | plusNext _ _ _ _ ih ihRest => exact ihRest nodes.parts (ih nodes.parts unbinding)
  | @scope rule ps s s' h _ =>
    have hpop : s'.scopes.pop = s.scopes := (popped_frame (s := s) h.framed).2
    show Unbinding g.bodies s'.scopes.pop
    rw [hpop]
    exact unbinding
  | @label inner name s s' _ ih =>
    have inside := ih nodes.parts unbinding
    unfold MatchState.labelled
    split
    · exact inside
    · intro other hother
      have hne : other ≠ name := by
        rintro rfl
        rcases nodes.here with ⟨b, hb, hmem⟩ | ⟨rule, h⟩
        · exact Bodies.not_unbound_of_label hb hmem hother
        · contradiction
      show (s'.scopes.bind name s'.value).lookup? other = _
      rw [Scopes.lookup?_bind_of_ne _ _ hne, inside other hother]
  | @rule name body s s' found _ ih =>
    rw [leaving_scopes]
    exact ih (all_body g.bodies.uses_everywhere found) (by rwa [s.entering_scopes name])
  | @not inner s s' _ ih =>
    obtain ⟨outcome, furthest, h⟩ := looked_eq s s'
    rw [h]
    exact ih nodes.parts unbinding
  | @opt inner s s' _ ih =>
    obtain ⟨outcome, h⟩ := optional_eq s s'
    rw [h]
    exact ih nodes.parts unbinding
  | @capture inner s s' _ ih =>
    obtain ⟨value, h⟩ := captured_eq input s s'
    rw [h]
    exact ih nodes.parts unbinding

theorem Calls.unbinding {task part : Task} {s t : MatchState} (h : Calls g input task s part t)
    (nodes : All g.bodies.Uses task.patterns) (unbinding : Unbinding g.bodies s.scopes) :
    Unbinding g.bodies t.scopes := by
  cases h with
  | altsTail h | termsTail h => exact h.unbinding nodes.head unbinding
  | repeatedTail h | growTail h => exact h.unbinding nodes unbinding
  | plusTail h => exact h.unbinding nodes.parts unbinding
  | rule => rwa [MatchState.entering_scopes]
  | _ => exact unbinding

/-! ## What a match comes to -/

/-- A part of a task starts with the seeds of the task, or it is inside a left-recursive body, and
there is a seed of its rule. -/
theorem Calls.seeds {task part : Task} {s t : MatchState} (h : Calls g input task s part t)
    {key : RuleAt} (active : t.seeds.get? key ≠ none) :
    s.seeds.get? key ≠ none ∨ ∃ inner, task = .whole (.leftrec inner key.1) ∧ key.2 = s.pos ∧
      ∀ empty name, part.opens empty name → inner.opens (nullable empty) name := by
  have seeded {inner : Pattern} {rule : String} {s : MatchState} {part : Task} {seed : Outcome}
      (hopens : ∀ empty name, part.opens empty name → inner.opens (nullable empty) name)
      (active : (s.seeds.insert (rule, s.pos) seed).get? key ≠ none) :
      s.seeds.get? key ≠ none ∨ ∃ p, Task.whole (.leftrec inner rule) = .whole (.leftrec p key.1) ∧
        key.2 = s.pos ∧ ∀ empty name, part.opens empty name → p.opens (nullable empty) name := by
    by_cases hkey : key = (rule, s.pos)
    · subst hkey
      exact .inr ⟨inner, rfl, rfl, hopens⟩
    · rw [Table.get?_insert_of_ne _ _ hkey] at active
      exact .inl active
  cases h with
  | altsTail h | termsTail h | repeatedTail h | plusTail h => exact .inl (h.seeds_eq ▸ active)
  | @growTail inner grows s s' h further =>
    -- The seed that is replaced was there before.
    by_cases hkey : key = grows
    · subst hkey
      refine .inl fun hnone => ?_
      have hnone' : s'.seeds.get? key = none := by rw [h.seeds_eq, hnone]
      simp [MatchState.outgrows, hnone'] at further
    · have active : (s'.seeds.insert grows s'.outcome).get? key ≠ none := active
      rw [Table.get?_insert_of_ne _ _ hkey, h.seeds_eq] at active
      exact .inl active
  | once => exact seeded (fun _ _ h => h) active
  | grown => exact seeded (fun _ _ h => h) active
  | rule =>
    rw [MatchState.entering_seeds] at active
    exact .inl active
  | _ => exact .inl active

/-- What holds of every task and every state that a match comes to. -/
structure Sound (g : Grammar) (task : Task) (s : MatchState) : Prop where
  ready : Ready g.bodies.mayBeEmpty task s
  nodes : All g.bodies.Uses task.patterns
  unblocked : ∀ name ∈ s.blocked, g.isLeftAssoc name = true
  unbinding : Unbinding g.bodies s.scopes
  /-- No seed grows beyond the offset where the task starts. -/
  behind : ∀ key, s.seeds.get? key ≠ none → key.2 ≤ task.origin s
  /-- What the task may apply where it starts may be applied in the growth of every seed there. -/
  within : ∀ seed name, s.seeds.get? (seed, task.origin s) ≠ none →
    task.opens g.bodies.mayBeEmpty name → g.bodies.Within seed name

/-- What a sound task comes to is sound. -/
theorem Calls.sound {task part : Task} {s t : MatchState} (h : Calls g input task s part t)
    (sound : Sound g task s) : Sound g part t := by
  have next := h.descends g.bodies.mayBeEmpty_closed sound.ready
  refine ⟨next.ready, ?_, ?_, h.unbinding sound.nodes sound.unbinding, ?_, ?_⟩
  · rcases h.rule_or_all with ⟨name, body, rfl, found, rfl, -⟩ | keeps
    · exact all_body g.bodies.uses_everywhere found
    · exact keeps _ sound.nodes
  · intro name hn
    exact (h.blocked name hn).elim (sound.unblocked name) id
  · intro key active
    rcases h.seeds active with before | ⟨inner, rfl, hkey, -⟩
    · exact Nat.le_trans (sound.behind key before) next.ahead
    · exact Nat.le_trans (Nat.le_of_eq hkey) next.ahead
  · intro seed name active opens
    rcases h.seeds active with before | ⟨inner, rfl, hkey, hopens⟩
    · -- A seed that was there before stands where the task starts.
      have horigin : part.origin t = task.origin s :=
        Nat.le_antisymm (sound.behind _ before) next.ahead
      rw [horigin] at before
      rcases next.opened horigin with keeps | ⟨rule, body, rfl, found, rfl⟩
      · exact sound.within seed name before (keeps name opens)
      · exact (sound.within seed rule before rfl).step ⟨body, found, opens⟩
    · rcases sound.nodes.here with ⟨b, hb, hmem⟩ | ⟨rule, h⟩
      · exact ⟨b, hb, inner, hmem, name, hopens _ name opens, .refl⟩
      · contradiction

theorem Sound.part (input : Array Char) {task part : Task} {s t : MatchState}
    (sound : Sound g task s) (call : Calls g input task s part t) : Sound g part t :=
  call.sound sound

/-- Applying a rule is sound before anything is matched. -/
theorem sound_initial (g : Grammar) (rule : String) : Sound g (.whole (.apply rule)) .initial where
  ready := by
    refine ⟨placed_initial _, ?_, trivial⟩
    simp [All, Everywhere, nodes, WrapClosed, Task.patterns]
  nodes p hp := by
    rw [List.mem_singleton.1 hp]
    intro q hq
    exact .inr ⟨rule, List.mem_singleton.1 hq⟩
  unblocked name hn := by contradiction
  unbinding _ _ := rfl
  behind key active := by contradiction
  within seed name active := by contradiction

/-- What is applied where a task starts is reached by left calls from a rule that the task opens. -/
theorem Reaches.path {task part : Task} {s t : MatchState} (h : Reaches g input task s part t)
    (ready : Ready g.bodies.mayBeEmpty task s) (same : part.origin t = task.origin s)
    {name : String} (opens : part.opens g.bodies.mayBeEmpty name) :
    ∃ first, task.opens g.bodies.mayBeEmpty first ∧ g.bodies.LeftPath first name := by
  induction h with
  | refl => exact ⟨name, opens, .refl⟩
  | @step task s part t target u call rest ih =>
    have next := call.descends g.bodies.mayBeEmpty_closed ready
    have last := (rest.ready g.bodies.mayBeEmpty_closed next.ready).2
    have horigin : part.origin t = task.origin s := Nat.le_antisymm (same ▸ last) next.ahead
    obtain ⟨first, hfirst, path⟩ := ih next.ready (same.trans horigin.symm) opens
    rcases next.opened horigin with keeps | ⟨rule, body, rfl, found, rfl⟩
    · exact ⟨first, keeps first hfirst, path⟩
    · exact ⟨rule, rfl, .step ⟨body, found, hfirst⟩ path⟩

end Match

end Pegboard
