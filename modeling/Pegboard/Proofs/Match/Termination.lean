import Mathlib.Data.List.Chain
import Mathlib.Order.WellFoundedSet
import Pegboard.Proofs.Match.Bounds
import Pegboard.Proofs.Match.Memoization
import Pegboard.Proofs.Normalize.Valid

/-!
# Termination

A rule may apply itself again at the offset where it started, through others, and nothing in a match
stops it, unless a seed does.  If every cycle of left calls has a rule on it whose body is a
left-recursive node, then every match ends, whatever the input.

A part of a task either starts further on in the input, or it starts with a seed more at the same
offset, or it is the body of a rule that is applied where its caller starts, or it is a smaller
piece of the same body.  None of the four goes on for ever.  For the third that is the hypothesis:
left calls out of rules that grow no seed do not lead back.  The growth of a seed repeats a task of
the same size with a better seed, of which there are no more than there are offsets.

## Main Definitions

* `Bodies.Wrapped`, `Bodies.CyclesWrapped`: the rules whose bodies grow seeds, and their being on
  every cycle of left calls.
* `Ends`: a task comes to an end.
* `Fair`: a task in a state that a match comes to.

## Main Results

* `Calls.lowers`: a part of a task is lower than the task.
* `Fair.ends`: every task that a match comes to ends.
* `run_ends`: so does a whole match, with all options.
-/

namespace Pegboard

/-! ## Cycles of left calls -/

namespace Bodies

/-- The body of a rule grows a seed before it does anything else. -/
def Wrapped (bodies : Bodies) (name : String) : Prop :=
  ∃ inner rule, bodies.body? name = some (.leftrec inner rule)

/-- On every cycle of left calls there is a rule whose body grows a seed. -/
def CyclesWrapped (bodies : Bodies) : Prop :=
  ∀ first rest, List.IsChain bodies.LeftCall (first :: (rest ++ [first])) →
    ∃ name ∈ first :: rest, bodies.Wrapped name

/-- A left call of a rule whose body grows no seed. -/
def BareCall (bodies : Bodies) (caller callee : String) : Prop :=
  bodies.LeftCall caller callee ∧ ¬ bodies.Wrapped caller

theorem not_wrapped_of_isChain {bodies : Bodies} {last : String} : ∀ {names : List String},
    List.IsChain bodies.BareCall (names ++ [last]) → ∀ name ∈ names, ¬ bodies.Wrapped name
  | a :: names, h, name, hname => by
    rcases List.mem_cons.1 hname with rfl | hname
    · cases names with
      | nil => exact (List.isChain_cons_cons.1 h).1.2
      | cons b names => exact (List.isChain_cons_cons.1 h).1.2
    · exact not_wrapped_of_isChain h.tail name hname

/-- Left calls of rules that grow no seeds do not lead back, if there are wrapped rules on all
cycles. -/
theorem CyclesWrapped.acyclic {bodies : Bodies} (h : bodies.CyclesWrapped) (name : String) :
    ¬ Relation.TransGen bodies.BareCall name name := by
  intro cycle
  obtain ⟨next, call, back⟩ := Relation.TransGen.head'_iff.1 cycle
  obtain ⟨rest, chain, last⟩ := List.exists_isChain_cons_of_relationReflTransGen back
  -- The cycle is the list from `name` on, without its last element, which is `name` again.
  have split : next :: rest = (next :: rest).dropLast ++ [name] := by
    rw [← last, List.dropLast_concat_getLast]
  have whole : List.IsChain bodies.BareCall (name :: ((next :: rest).dropLast ++ [name])) := by
    rw [← split]
    exact List.isChain_cons_cons.2 ⟨call, chain⟩
  obtain ⟨wrapped, mem, isWrapped⟩ := h name _ (whole.imp fun _ _ call => call.1)
  rw [← List.cons_append] at whole
  exact not_wrapped_of_isChain whole wrapped mem isWrapped

/-- The rules that are defined, ordered by left calls of rules that grow no seeds, admit
induction. -/
theorem CyclesWrapped.wellFounded {bodies : Bodies} (h : bodies.CyclesWrapped) :
    WellFounded fun callee caller => Relation.TransGen bodies.BareCall caller callee ∧
      callee ∈ bodies.map (·.1) ∧ caller ∈ bodies.map (·.1) := by
  have order : IsStrictOrder String fun callee caller =>
      Relation.TransGen bodies.BareCall caller callee :=
    { irrefl := h.acyclic, trans := fun _ _ _ hab hbc => hbc.trans hab }
  have finite : {name | name ∈ bodies.map (·.1)}.Finite := List.finite_toSet _
  exact Set.wellFoundedOn_iff.1 finite.wellFoundedOn

/-- The rule of a left-recursive node. -/
def seedRule? : Pattern → Option String
  | .leftrec _ rule => some rule
  | _ => none

/-- The rules that seeds are grown for. -/
def seedRules (bodies : Bodies) : List String :=
  (bodies.flatMap (·.2.nodes)).filterMap seedRule?

theorem Uses.mem_seedRules {bodies : Bodies} {inner : Pattern} {rule : String}
    (h : bodies.Uses (.leftrec inner rule)) : rule ∈ bodies.seedRules := by
  rcases h with ⟨b, hb, hmem⟩ | ⟨name, h⟩
  · exact List.mem_filterMap.2 ⟨_, List.mem_flatMap.2 ⟨b, hb, hmem⟩, rfl⟩
  · contradiction

end Bodies

namespace Match

open Pattern

variable {g : Grammar} {input : Array Char}

/-! ## Ends -/

/-- Carrying out a task comes to an end. -/
def Ends (g : Grammar) (input : Array Char) (task : Task) (s : MatchState) : Prop :=
  ∃ s', Run g input task s s'

/-- A pattern ends if each of its parts does that is carried out. -/
theorem ends_pattern {p : Pattern} {s : MatchState}
    (parts : ∀ part t, Calls g input (.whole p) s part t → Ends g input part t) :
    Ends g input (.whole p) s := by
  cases p with
  | choice => exact (parts _ _ .choice).imp fun _ h => .choice h
  | seq => exact (parts _ _ .seq).imp fun _ h => .seq h
  | scope =>
    obtain ⟨t, h⟩ := parts _ _ .scope
    exact ⟨_, .scope h⟩
  | label =>
    obtain ⟨t, h⟩ := parts _ _ .label
    exact ⟨_, .label h⟩
  | leftrec inner rule =>
    cases found : s.seeds.get? (rule, s.pos) with
    | some seed => exact ⟨_, .seed found⟩
    | none =>
      cases blocked : s.blocked.contains rule with
      | true =>
        obtain ⟨t, h⟩ := parts _ _ (.once found blocked)
        exact ⟨_, .once found blocked h⟩
      | false =>
        obtain ⟨t, h⟩ := parts _ _ (.grown found blocked)
        exact ⟨_, .grown found blocked h⟩
  | memo inner rule =>
    cases found : s.memo.get? (rule, s.pos) with
    | some entry => exact ⟨_, .hit found⟩
    | none =>
      obtain ⟨t, h⟩ := parts _ _ (.miss found)
      exact ⟨_, .miss found h⟩
  | apply name =>
    cases found : g.body? name with
    | some body =>
      obtain ⟨t, h⟩ := parts _ _ (.rule found)
      exact ⟨_, .rule found h⟩
    | none =>
      cases builtin : BuiltinRule.ofName? name with
      | some rule =>
        exact ⟨Match.builtin input rule s, .atom (by simp only [atom?, found, builtin])⟩
      | none =>
        exact ⟨s.fail (some (.unknownRule name)), .atom (by simp only [atom?, found, builtin])⟩
  | not =>
    obtain ⟨t, h⟩ := parts _ _ .not
    exact ⟨_, .not h⟩
  | opt =>
    obtain ⟨t, h⟩ := parts _ _ .opt
    exact ⟨_, .opt h⟩
  | star => exact (parts _ _ .star).imp fun _ h => .star h
  | plus =>
    obtain ⟨t, h⟩ := parts _ _ .plusHead
    cases hf : t.failed with
    | true => exact ⟨_, .plusStop h hf⟩
    | false =>
      by_cases hp : t.pos = s.pos
      · exact ⟨_, .plusStill h hf hp⟩
      · exact (parts _ _ (.plusTail h hf hp)).imp fun _ rest => .plusNext h hf hp rest
  | paren => exact (parts _ _ .paren).imp fun _ h => .paren h
  | capture =>
    obtain ⟨t, h⟩ := parts _ _ .capture
    exact ⟨_, .capture h⟩
  | lit | range | pred | eq | action | pos | empty => exact ⟨_, .atom rfl⟩

/-- A task ends if each of its parts does that is carried out. -/
theorem ends_of_parts {task : Task} {s : MatchState}
    (parts : ∀ part t, Calls g input task s part t → Ends g input part t) :
    Ends g input task s := by
  cases task with
  | whole p => exact ends_pattern parts
  | alts start ps =>
    cases ps with
    | nil => exact ⟨_, .altsNil⟩
    | cons p ps =>
      obtain ⟨t, h⟩ := parts _ _ .altsHead
      cases ps with
      | nil => exact ⟨t, .altsLast h⟩
      | cons q ps =>
        cases hf : t.failed with
        | false => exact ⟨t, .altsTaken h hf⟩
        | true => exact (parts _ _ (.altsTail h hf)).imp fun _ rest => .altsNext h hf rest
  | terms ps =>
    cases ps with
    | nil => exact ⟨s, .termsNil⟩
    | cons p ps =>
      obtain ⟨t, h⟩ := parts _ _ .termsHead
      cases hf : t.failed with
      | true => exact ⟨t, .termsStop h hf⟩
      | false => exact (parts _ _ (.termsTail h hf)).imp fun _ rest => .termsNext h hf rest
  | repeated inner items =>
    obtain ⟨t, h⟩ := parts _ _ .repeatedHead
    cases hf : t.failed with
    | true => exact ⟨_, .repeatedStop h hf⟩
    | false =>
      by_cases hp : t.pos = s.pos
      · exact ⟨_, .repeatedStill h hf hp⟩
      · exact (parts _ _ (.repeatedTail h hf hp)).imp fun _ rest => .repeatedNext h hf hp rest
  | grow inner key =>
    obtain ⟨t, h⟩ := parts _ _ .growHead
    cases further : t.outgrows key with
    | false => exact ⟨t, .growStop h further⟩
    | true => exact (parts _ _ (.growTail h further)).imp fun _ rest => .growNext h further rest

/-! ## What a part has less of -/

/-- How much of the input is left where a task starts. -/
def remaining (input : Array Char) (task : Task) (s : MatchState) : Nat :=
  input.size - task.origin s

/-- How many rules have no seed where a task starts. -/
def unseeded (g : Grammar) (task : Task) (s : MatchState) : Nat :=
  g.bodies.seedRules.countP fun rule => (s.seeds.get? (rule, task.origin s)).isNone

/-- The size of what a task carries out: its nodes, counted twice so that a piece of work comes
between a pattern and its parts. -/
def Task.size : Task → Nat
  | .whole p => 2 * p.nodes.length
  | task => 2 * (nodesAll task.patterns).length + 1

/-- How often a seed may still grow: a failing one to any offset, another one to later offsets. -/
def room (input : Array Char) (s : MatchState) : Task → Nat
  | .grow _ key =>
    match s.seeds.get? key with
    | some seed => if seed.failed then input.size + 1 else input.size - seed.pos
    | none => 0
  | _ => 0

/-- A task in a state that a match comes to. -/
structure Fair (g : Grammar) (input : Array Char) (task : Task) (s : MatchState) : Prop where
  ready : Ready g.bodies.mayBeEmpty task s
  nodes : All g.bodies.Uses task.patterns
  place : task.Inside input
  inside : Inside input s

theorem Fair.part {task part : Task} {s t : MatchState} (fair : Fair g input task s)
    (call : Calls g input task s part t) : Fair g input part t := by
  obtain ⟨place, inside⟩ := call.inside fair.place fair.inside
  refine ⟨(call.descends g.bodies.mayBeEmpty_closed fair.ready).ready, ?_, place, inside⟩
  rcases call.rule_or_all with ⟨name, body, rfl, found, rfl, -⟩ | keeps
  · exact all_body g.bodies.uses_everywhere found
  · exact keeps _ fair.nodes

/-- A part that starts further on than a task has less of the input before it. -/
theorem remaining_lt {task part : Task} {s t : MatchState} (fair : Fair g input part t)
    (h : task.origin s < part.origin t) : remaining input part t < remaining input task s := by
  have bound : part.origin t ≤ input.size := fair.inside.origin fair.place
  unfold remaining
  omega

/-- With the seeds of a task, a part that starts where it does lacks as many. -/
theorem unseeded_congr {task part : Task} {s t : MatchState} (origin : part.origin t = task.origin s)
    (seeds : t.seeds = s.seeds) : unseeded g part t = unseeded g task s := by
  rw [unseeded, unseeded, origin, seeds]

theorem countP_lt_countP {α : Type} {p q : α → Bool} (h : ∀ a, p a = true → q a = true) {a : α} :
    ∀ {l : List α}, a ∈ l → p a = false → q a = true → l.countP p < l.countP q
  | b :: l, hmem, hp, hq => by
    have rest : l.countP p ≤ l.countP q := List.countP_mono_left fun x _ => h x
    rw [List.countP_cons, List.countP_cons]
    rcases List.mem_cons.1 hmem with rfl | hmem
    · simp only [hp, hq, if_true, Bool.false_eq_true, if_false]
      omega
    · have less := countP_lt_countP h hmem hp hq
      have here : (if p b = true then 1 else 0) ≤ if q b = true then 1 else 0 := by
        by_cases hb : p b = true
        · simp [hb, h b hb]
        · simp [hb]
      omega

/-- With a seed more than a task, a part that starts where it does lacks fewer. -/
theorem unseeded_lt {task part : Task} {s t : MatchState} {rule : String} {seed : Outcome}
    (origin : part.origin t = task.origin s) (mem : rule ∈ g.bodies.seedRules)
    (none : s.seeds.get? (rule, task.origin s) = none)
    (seeds : t.seeds = s.seeds.insert (rule, task.origin s) seed) :
    unseeded g part t < unseeded g task s := by
  rw [unseeded, unseeded, origin, seeds]
  refine countP_lt_countP (fun other h => ?_) mem ?_ ?_
  · by_cases same : other = rule
    · subst same
      simp at h
    · rwa [Table.get?_insert_of_ne _ _ (by simpa using same)] at h
  · simp
  · simp [none]

/-- A seed that grows has less room. -/
theorem room_lt {inner : Pattern} {key : RuleAt} {s s' : MatchState} (inside : Inside input s')
    (seeds : s'.seeds = s.seeds) (further : s'.outgrows key = true) :
    room input (s'.reseeded key) (.grow inner key) < room input s (.grow inner key) := by
  have now : (s'.reseeded key).seeds.get? key = some s'.outcome := Table.get?_insert_self _ _ _
  rw [MatchState.outgrows] at further
  split at further
  · next seed found =>
    rw [seeds] at found
    rw [Bool.and_eq_true, Bool.not_eq_true', Bool.or_eq_true, decide_eq_true_iff] at further
    have good : s'.outcome.failed = false := further.1
    have pos : s'.outcome.pos ≤ input.size := inside.pos
    have ahead : seed.failed = true ∨ seed.pos < s'.outcome.pos := further.2
    simp only [room, now, found, good, Bool.false_eq_true, if_false]
    split
    · omega
    · next hf =>
      have := ahead.resolve_left hf
      omega
  · contradiction

/-- A seed that has grown is a seed as before. -/
theorem unseeded_reseeded (inner : Pattern) {key : RuleAt} {s s' : MatchState}
    (seeds : s'.seeds = s.seeds) (further : s'.outgrows key = true) :
    unseeded g (.grow inner key) (s'.reseeded key) = unseeded g (.grow inner key) s := by
  have before : s.seeds.get? key ≠ none := by
    intro none
    rw [MatchState.outgrows, seeds, none] at further
    contradiction
  have same : ∀ rule, ((s'.reseeded key).seeds.get? (rule, key.2)).isNone
      = (s.seeds.get? (rule, key.2)).isNone := by
    intro rule
    show ((s'.seeds.insert key s'.outcome).get? (rule, key.2)).isNone = _
    by_cases hkey : (rule, key.2) = key
    · rw [hkey, Table.get?_insert_self]
      simpa [Option.isSome_iff_ne_none] using before
    · rw [Table.get?_insert_of_ne _ _ hkey, seeds]
  simp only [unseeded, Task.origin, same]

/-- What a part has less of than a task: of the input, or else of the seeds to come, or else it is a
smaller piece of the same body, or a seed has less room to grow. -/
def Lower (g : Grammar) (input : Array Char) (part : Task) (t : MatchState) (task : Task)
    (s : MatchState) : Prop :=
  task.origin s < part.origin t ∨
    part.origin t = task.origin s ∧ (unseeded g part t < unseeded g task s ∨
      unseeded g part t = unseeded g task s ∧ (part.size < task.size ∨
        part.size = task.size ∧ room input t part < room input s task))

/-- A part of a task is lower than the task, unless it is the body of a rule. -/
theorem Calls.lowers {task part : Task} {s t : MatchState} (call : Calls g input task s part t)
    (fair : Fair g input task s) :
    (∃ name body, task = .whole (.apply name) ∧ g.body? name = some body ∧ part = .whole body ∧
      t = s.entering name) ∨ Lower g input part t task s := by
  -- A smaller piece of the same body, carried out with the same seeds.
  have smaller (origin : part.origin t = task.origin s) (seeds : t.seeds = s.seeds)
      (size : part.size < task.size) : Lower g input part t task s :=
    .inr ⟨origin, .inr ⟨unseeded_congr origin seeds, .inl size⟩⟩
  have ahead := (call.descends g.bodies.mayBeEmpty_closed fair.ready).ahead
  cases call with
  | @rule name body _ found => exact .inl ⟨name, body, rfl, found, rfl, rfl⟩
  | altsHead =>
    refine .inr (smaller fair.ready.fits rfl ?_)
    simp only [Task.size, Task.patterns, nodesAll, List.length_append]
    omega
  | @altsTail start p q ps s s' h =>
    refine .inr (smaller rfl h.seeds_eq ?_)
    simp only [Task.size, Task.patterns, nodesAll, List.length_append, nodes_eq p, List.length_cons]
    omega
  | termsHead =>
    refine .inr (smaller rfl rfl ?_)
    simp only [Task.size, Task.patterns, nodesAll, List.length_append]
    omega
  | @termsTail p ps s s' h =>
    rcases Nat.lt_or_eq_of_le ahead with further | still
    · exact .inr (.inl further)
    · refine .inr (smaller still.symm h.seeds_eq ?_)
      simp only [Task.size, Task.patterns, nodesAll, List.length_append, nodes_eq p,
        List.length_cons]
      omega
  | repeatedTail h ok moved | plusTail h ok moved =>
    exact .inr (.inl (Nat.lt_of_le_of_ne ahead fun still => moved still.symm))
  | @growTail inner key s s' h further =>
    have seeds : s'.seeds = s.seeds := h.seeds_eq
    have inside : Inside input s' := h.inside trivial (fair.inside.move fair.place rfl rfl)
    exact .inr (.inr ⟨rfl, .inr ⟨unseeded_reseeded inner seeds further,
      .inr ⟨rfl, room_lt inside seeds further⟩⟩⟩)
  | once none =>
    exact .inr (.inr ⟨rfl, .inl (unseeded_lt rfl fair.nodes.here.mem_seedRules none rfl)⟩)
  | grown none =>
    exact .inr (.inr ⟨rfl, .inl (unseeded_lt rfl fair.nodes.here.mem_seedRules none rfl)⟩)
  | repeatedHead | growHead | choice | seq | scope | label | miss | not | opt | star | plusHead
  | paren | capture =>
    refine .inr (smaller rfl rfl ?_)
    simp only [Task.size, Task.patterns, nodesAll, nodes, List.length_append, List.length_cons,
      List.length_nil]
    omega

/-! ## Termination -/

section Termination

variable {m k : Nat}

/-- Every task ends that has less than `m` of the input before it. -/
def EndsBelow (g : Grammar) (input : Array Char) (m : Nat) : Prop :=
  ∀ task s, Fair g input task s → remaining input task s < m → Ends g input task s

/-- Every task ends that has `m` of the input before it and lacks less than `k` seeds. -/
def EndsSeeded (g : Grammar) (input : Array Char) (m k : Nat) : Prop :=
  ∀ task s, Fair g input task s → remaining input task s = m → unseeded g task s < k →
    Ends g input task s

/-- A task ends that has `m` of the input before it and lacks `k` seeds. -/
def EndsAt (g : Grammar) (input : Array Char) (m k : Nat) (task : Task) : Prop :=
  ∀ s, Fair g input task s → remaining input task s = m → unseeded g task s = k →
    Ends g input task s

variable (below : EndsBelow g input m) (seeded : EndsSeeded g input m k)

include below seeded

/-- A task ends if the rules do that it may apply where it starts.  The induction is on the size of
the task, and for a seed that grows on the room that it has. -/
theorem endsAt_of_rules {task : Task} (rules : ∀ name, task.opens g.bodies.mayBeEmpty name →
    EndsAt g input m k (.whole (.apply name))) : EndsAt g input m k task := by
  have all : ∀ size space task, task.size = size →
      (∀ name, task.opens g.bodies.mayBeEmpty name →
        EndsAt g input m k (.whole (.apply name))) →
      ∀ s, Fair g input task s → remaining input task s = m → unseeded g task s = k →
        room input s task = space → Ends g input task s := by
    intro size
    induction size using Nat.strong_induction_on with
    | _ size ihSize =>
    intro space
    induction space using Nat.strong_induction_on with
    | _ space ihSpace =>
    intro task hsize rules s fair hm hk hspace
    by_cases applies : ∃ name, task = .whole (.apply name)
    · obtain ⟨name, rfl⟩ := applies
      exact rules name rfl s fair hm hk
    refine ends_of_parts fun part t call => ?_
    have next := fair.part call
    rcases call.lowers fair with ⟨name, body, rfl, -⟩ | further | ⟨origin, lower⟩
    · exact absurd ⟨name, rfl⟩ applies
    · exact below part t next (hm ▸ remaining_lt next further)
    have hm' : remaining input part t = m := by rw [← hm, remaining, remaining, origin]
    have opened : ∀ name, part.opens g.bodies.mayBeEmpty name →
        EndsAt g input m k (.whole (.apply name)) := by
      intro name opens
      rcases (call.descends g.bodies.mayBeEmpty_closed fair.ready).opened origin with
        keeps | ⟨rule, body, rfl, -⟩
      · exact rules name (keeps name opens)
      · exact absurd ⟨rule, rfl⟩ applies
    rcases lower with fewer | ⟨same, smaller | ⟨size, less⟩⟩
    · exact seeded part t next hm' (hk ▸ fewer)
    · exact ihSize part.size (hsize ▸ smaller) _ part rfl opened t next hm' (same.trans hk) rfl
    · exact ihSpace _ (hspace ▸ less) part (size.trans hsize) opened t next hm' (same.trans hk) rfl
  exact fun s fair hm hk => all task.size _ task rfl rules s fair hm hk rfl

/-- Applying a rule ends.  The induction is on left calls of rules that grow no seeds. -/
theorem endsAt_apply (cycles : g.bodies.CyclesWrapped) (name : String) :
    EndsAt g input m k (.whole (.apply name)) := by
  induction name using cycles.wellFounded.induction with
  | _ name ih =>
  intro s fair hm hk
  refine ends_of_parts fun part t call => ?_
  have next := fair.part call
  cases call with
  | @rule _ body _ found =>
  have hm' : remaining input (.whole body) (s.entering name) = m := by
    rw [← hm, remaining, remaining]
    simp only [Task.origin, s.entering_pos]
  have hk' : unseeded g (.whole body) (s.entering name) = k := by
    rw [← hk]
    exact unseeded_congr (s.entering_pos name) (s.entering_seeds name)
  by_cases wrapped : g.bodies.Wrapped name
  · -- The body adopts a seed, or it starts to grow one.
    obtain ⟨inner, rule, hbody⟩ := wrapped
    obtain rfl : body = .leftrec inner rule := Option.some.inj (found.symm.trans hbody)
    refine ends_of_parts fun part t call => ?_
    have inside := next.part call
    have mem := next.nodes.here.mem_seedRules
    cases call with
    | once none =>
      refine seeded _ _ inside hm' (hk' ▸ ?_)
      exact unseeded_lt rfl mem none rfl
    | grown none =>
      refine seeded _ _ inside hm' (hk' ▸ ?_)
      exact unseeded_lt rfl mem none rfl
  · refine endsAt_of_rules below seeded (fun callee opens => ?_) _ next hm' hk'
    cases defined : g.body? callee with
    | some calleeBody =>
      have call : g.bodies.BareCall name callee := ⟨⟨body, found, opens⟩, wrapped⟩
      have mem {rule : String} {body : Pattern} (h : g.body? rule = some body) :
          rule ∈ g.bodies.map (·.1) :=
        List.mem_map.2 ⟨_, Bodies.mem_of_body? h, rfl⟩
      exact ih callee ⟨.single call, mem defined, mem found⟩
    | none =>
      intro t _ _ _
      refine ends_of_parts fun part u call => ?_
      cases call with
      | rule found => exact absurd (defined.symm.trans found) (by simp)

end Termination

/-- Every task that a match comes to ends, if there are wrapped rules on all cycles of left calls.
The induction is on how much of the input is left, and then on how many seeds are to come. -/
theorem Fair.ends (cycles : g.bodies.CyclesWrapped) {task : Task} {s : MatchState}
    (fair : Fair g input task s) : Ends g input task s := by
  have below : ∀ m, EndsBelow g input m := by
    intro m
    induction m with
    | zero => exact fun task s _ h => absurd h (Nat.not_lt_zero _)
    | succ m below =>
      have seeded : ∀ k, EndsSeeded g input m k := by
        intro k
        induction k with
        | zero => exact fun task s _ _ h => absurd h (Nat.not_lt_zero _)
        | succ k seeded =>
          intro task s fair hm hk
          rcases Nat.lt_or_eq_of_le (Nat.le_of_lt_succ hk) with fewer | same
          · exact seeded task s fair hm fewer
          · exact endsAt_of_rules below seeded
              (fun name _ => endsAt_apply below seeded cycles name) s fair hm same
      intro task s fair h
      rcases Nat.lt_or_eq_of_le (Nat.le_of_lt_succ h) with less | same
      · exact below task s fair less
      · exact seeded _ task s fair same (Nat.lt_succ_self _)
  exact below _ task s fair (Nat.lt_succ_self _)

theorem fair_initial (g : Grammar) (input : Array Char) (name : String) :
    Fair g input (.whole (.apply name)) .initial where
  ready := (sound_initial g name).ready
  nodes := (sound_initial g name).nodes
  place := trivial
  inside := inside_initial input

/-- A whole match ends if there are wrapped rules on all cycles of left calls. -/
theorem run_eq_some (cycles : g.bodies.CyclesWrapped) (source : String) (input : Array Char) :
    ∃ fuel result, g.run fuel source input = some result := by
  have ends {task : Task} {s : MatchState} (fair : Fair g input task s) := fair.ends cycles
  cases found : g.body? g.start with
  | none =>
    let failed := MatchState.initial.fail (some (.unknownRule g.start))
    refine ⟨0, finish source input failed, ?_⟩
    rw [Grammar.run, final?, found]
    rfl
  | some body =>
    -- Before a match no rule is blocked, so the body is evaluated in the state as it is.
    obtain ⟨s, run⟩ := ends ((fair_initial g input g.start).part (.rule found))
    obtain ⟨fuel, h⟩ := run_iff_eval.1 run
    refine ⟨fuel, finish source input s, ?_⟩
    have final : final? g input fuel = some s := by
      rw [final?, found]
      exact h
    rw [Grammar.run, final]
    rfl

end Match

/-! ## Termination with memoization -/

namespace Pattern

theorem nullable_wrapMemo {memoizable : List String} {empty : String → Prop} {rule : String}
    {body : Pattern} (h : (Bodies.wrapMemo memoizable rule body).nullable empty) :
    body.nullable empty ∨ empty rule := by
  unfold Bodies.wrapMemo at h
  split at h
  · exact .inl h
  · split at h
    · exact h
    · exact .inl h

theorem nullable_of_wrapMemo {memoizable : List String} {empty : String → Prop} {rule : String}
    {body : Pattern} (h : body.nullable empty) :
    (Bodies.wrapMemo memoizable rule body).nullable empty := by
  unfold Bodies.wrapMemo
  split
  · exact h
  · split
    · exact .inl h
    · exact h

theorem opens_wrapMemo (memoizable : List String) (skip : Pattern → Prop) (rule name : String)
    (body : Pattern) : (Bodies.wrapMemo memoizable rule body).opens skip name
      ↔ body.opens skip name := by
  unfold Bodies.wrapMemo
  split
  · rfl
  · split <;> rfl

end Pattern

namespace Bodies

theorem body?_memoize (bodies : Bodies) (name : String) :
    bodies.memoize.body? name = (bodies.body? name).map (wrapMemo bodies.memoizable name) :=
  body?_mapBodies _ _ _

/-- Keeping outcomes makes no difference to which rules may be empty. -/
theorem emptyClosed_memoize {bodies : Bodies} (nodup : (bodies.map (·.1)).Nodup)
    {empty : String → Prop} : bodies.memoize.EmptyClosed empty ↔ bodies.EmptyClosed empty := by
  constructor
  · intro closed
    refine ⟨fun name body found h => ?_, fun b hb => ?_, fun none => ?_⟩
    · exact closed.rule name _ (by rw [body?_memoize, found]; rfl) (Pattern.nullable_of_wrapMemo h)
    · have mem : (b.1, wrapMemo bodies.memoizable b.1 b.2) ∈ bodies.memoize :=
        mem_mapBodies.2 ⟨b.2, hb, rfl⟩
      exact (everywhere_wrapMemo.1 (closed.wrapper _ mem)).1
    · exact closed.builtin (by rw [body?_memoize, none]; rfl)
  · intro closed
    refine ⟨fun name wrapped found h => ?_, fun b hb => ?_, fun none => ?_⟩
    · rw [body?_memoize, Option.map_eq_some_iff] at found
      obtain ⟨body, found, rfl⟩ := found
      exact (Pattern.nullable_wrapMemo h).elim (closed.rule name body found) id
    · obtain ⟨body, hbody, hb⟩ := mem_mapBodies.1 hb
      rw [hb, everywhere_wrapMemo]
      have plain := closed.wrapper _ hbody
      refine ⟨plain, ?_⟩
      unfold wrapMemo
      split
      · exact (Pattern.everywhere_iff.1 plain).1
      · split
        · exact closed.rule b.1 body (body?_of_mem nodup hbody)
        · exact (Pattern.everywhere_iff.1 plain).1
    · rw [body?_memoize, Option.map_eq_none_iff] at none
      exact closed.builtin none

theorem mayBeEmpty_memoize {bodies : Bodies} (nodup : (bodies.map (·.1)).Nodup) :
    bodies.memoize.mayBeEmpty = bodies.mayBeEmpty := by
  funext name
  simp only [mayBeEmpty, emptyClosed_memoize nodup]

/-- Keeping outcomes makes no difference to what a rule may apply where it starts. -/
theorem leftCall_memoize {bodies : Bodies} (nodup : (bodies.map (·.1)).Nodup) :
    bodies.memoize.LeftCall = bodies.LeftCall := by
  funext caller callee
  rw [LeftCall, LeftCall, body?_memoize, mayBeEmpty_memoize nodup]
  simp only [Option.map_eq_some_iff, exists_exists_and_eq_and, Pattern.opens_wrapMemo]

theorem wrapped_memoize (bodies : Bodies) (name : String) :
    bodies.memoize.Wrapped name ↔ bodies.Wrapped name := by
  rw [Wrapped, Wrapped, body?_memoize]
  cases bodies.body? name with
  | none => simp
  | some body =>
    simp only [Option.map_some, Option.some.injEq]
    unfold wrapMemo
    split
    · rfl
    · split <;> simp_all

theorem cyclesWrapped_memoize {bodies : Bodies} (nodup : (bodies.map (·.1)).Nodup) :
    bodies.memoize.CyclesWrapped ↔ bodies.CyclesWrapped := by
  simp only [CyclesWrapped, leftCall_memoize nodup, wrapped_memoize]

end Bodies

namespace RuleSet

/-- What wraps the cycles of left calls of rules that are normalized does not depend on the
options. -/
theorem cyclesWrapped_of_normalize {rs : RuleSet} {options : NormalizeOptions} {g : Grammar}
    (normalized : rs.normalize options = .ok g) :
    g.bodies.CyclesWrapped ↔ rs.finished.CyclesWrapped := by
  have nodup : (rs.finished.map (·.1)).Nodup := by
    rw [rs.names_finished]
    exact rs.nodup_of_normalize normalized
  obtain ⟨-, -, rfl⟩ := normalize_eq_ok.1 normalized
  cases options.memoize with
  | true => exact Bodies.cyclesWrapped_memoize nodup
  | false => rfl

end RuleSet

namespace Match

/-- Matching any input ends, with a value or with a failure, if on every cycle of left calls there is
a rule whose body grows a seed.  If that is so of rules as they are normalized with some options, then
matching ends with all options that they can be normalized with. -/
theorem run_ends {rs : RuleSet} {options other : NormalizeOptions} {g g' : Grammar}
    (normalized : rs.normalize options = .ok g) (cycles : g.bodies.CyclesWrapped)
    (normalized' : rs.normalize other = .ok g') (source : String) (input : Array Char) :
    ∃ fuel result, g'.run fuel source input = some result := by
  have finished := (rs.cyclesWrapped_of_normalize normalized).1 cycles
  exact run_eq_some ((rs.cyclesWrapped_of_normalize normalized').2 finished) source input

/-! ## A sum of units -/

/-- The body of the rule `e = e '+' n | n`. -/
def unitsBody : Pattern := .choice [.seq [.apply "e", .lit "+", .apply "n"], .apply "n"]

/-- The rules `e = e '+' n | n` and `n = 'x'`. -/
def unitsRules : RuleSet := .ofDefinitions [("e", unitsBody), ("n", .lit "x")]

/-- The grammar of these rules. -/
def unitsGrammar : Grammar := ⟨[("e", .leftrec unitsBody "e"), ("n", .lit "x")], []⟩

theorem unitsRules_normalize : unitsRules.normalize ⟨false, []⟩ = .ok unitsGrammar := by
  have scopes : unitsRules.scopedBodies = [("e", unitsBody), ("n", .lit "x")] := rfl
  have e : Bodies.isLeftRecursive [("e", unitsBody), ("n", .lit "x")] "e" unitsBody = true := by
    rw [Bodies.isLeftRecursive, Bodies.leads]
    simp [unitsBody, Pattern.leads, Pattern.leadsAny, Pattern.leadsFirst]
  have n : Bodies.isLeftRecursive [("e", unitsBody), ("n", .lit "x")] "n" (.lit "x") = false := by
    rw [Bodies.isLeftRecursive, Bodies.leads]
    simp [Pattern.leads]
  have recursive : Bodies.leftRecursive [("e", unitsBody), ("n", .lit "x")] = ["e"] := by
    simp [Bodies.leftRecursive, e, n]
  rw [RuleSet.normalize_eq_ok, RuleSet.finished, scopes, recursive]
  exact ⟨rfl, by simp, rfl⟩

/-- The only cycle of left calls is that of `e`, whose body grows a seed. -/
theorem unitsGrammar_cyclesWrapped : unitsGrammar.bodies.CyclesWrapped := by
  intro first rest chain
  refine ⟨first, .head _, ?_⟩
  have call : ∃ next, unitsGrammar.bodies.LeftCall first next := by
    cases rest with
    | nil => exact ⟨_, (List.isChain_cons_cons.1 chain).1⟩
    | cons next rest => exact ⟨_, (List.isChain_cons_cons.1 chain).1⟩
  obtain ⟨next, body, found, opens⟩ := call
  have hbody := Bodies.mem_of_body? found
  simp only [unitsGrammar, List.mem_cons, Prod.mk.injEq, List.not_mem_nil, or_false] at hbody
  rcases hbody with ⟨-, rfl⟩ | ⟨-, rfl⟩
  · exact ⟨_, _, found⟩
  · exact opens.elim

/-- Matching `x+x` ends when outcomes are kept. -/
theorem run_ends_units : ∃ g', unitsRules.normalize ⟨true, []⟩ = .ok g' ∧
    ∃ fuel result, g'.run fuel "test" #['x', '+', 'x'] = some result := by
  obtain ⟨valid, assoc, h⟩ := RuleSet.normalize_eq_ok.1 unitsRules_normalize
  have memoized : unitsRules.normalize ⟨true, []⟩ = .ok unitsGrammar.memoize := by
    rw [RuleSet.normalize_eq_ok]
    refine ⟨valid, assoc, ?_⟩
    rw [h]
    rfl
  exact ⟨_, memoized, run_ends unitsRules_normalize unitsGrammar_cyclesWrapped memoized "test" _⟩

end Match

end Pegboard
