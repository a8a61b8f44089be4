import Pegboard.Proofs.Match.LeftFold
import Pegboard.Proofs.Match.Literal

/-!
# Evaluation and the PEG relation

A parsing expression grammar has a semantics of its own, in which an expression at an offset comes
to a value and an offset, or to nothing.  `Peg` is that relation for the patterns that it makes
sense for: those without left recursion, kept outcomes and expressions.

Evaluation works otherwise.  It carries a state along, and a pattern that gives up leaves the offset
and the last value wherever they happen to be; it is for whoever tries something else to go back.
Here the two are proved to come to the same.  A failure leaves nothing behind that any later answer
depends on, for an answer from one state is an answer from every state at the same offset.

## Main Definitions

* `Pattern.IsPeg`: the nodes of patterns that the relation is about.
* `Peg`: the relation.

## Main Results

* `eval_iff_peg`: evaluation gives the answers of the relation.
-/

namespace Pegboard

/-- Whether a pattern is none of those that look at more than the input. -/
def Pattern.IsPeg : Pattern → Prop
  | .leftrec _ _ => False
  | .memo _ _ => False
  | .pred _ => False
  | .eq _ => False
  | .action _ => False
  | _ => True

namespace Match

/-! ## The relation -/

/-- What a class of characters comes to at an offset. -/
inductive OneChar (input : Array Char) (accepts : Char → Bool) (pos : Nat) :
    Option (Value × Nat) → Prop where
  | taken {c} (here : input[pos]? = some c) (ok : accepts c = true) :
      OneChar input accepts pos (some (.ofChar c, pos + 1))
  | missed (bad : ∀ c, input[pos]? = some c → accepts c = false) : OneChar input accepts pos none

/-- What a builtin rule comes to at an offset. -/
inductive PegBuiltin (input : Array Char) : BuiltinRule → Nat → Option (Value × Nat) → Prop where
  | anything {pos a} (h : OneChar input (fun _ => true) pos a) :
      PegBuiltin input .anything pos a
  | digit {pos a} (h : OneChar input Unicode.isAsciiDigit pos a) : PegBuiltin input .digit pos a
  | letter {pos a} (h : OneChar input Unicode.isAlphabetic pos a) : PegBuiltin input .letter pos a
  | atEnd {pos} (h : input[pos]? = none) : PegBuiltin input .end pos (some (.null, pos))
  | notAtEnd {pos c} (h : input[pos]? = some c) : PegBuiltin input .end pos none

/-- A pattern at an offset comes to a value and the offset where it ends, or it fails. -/
inductive Peg (g : Grammar) (input : Array Char) :
    Pattern → Nat → Option (Value × Nat) → Prop where
  | choiceNil {pos} : Peg g input (.choice []) pos none
  | choiceTaken {p ps pos a} (h : Peg g input p pos (some a)) :
      Peg g input (.choice (p :: ps)) pos (some a)
  | choiceNext {p ps pos a} (h : Peg g input p pos none) (rest : Peg g input (.choice ps) pos a) :
      Peg g input (.choice (p :: ps)) pos a
  | seqNil {pos} : Peg g input (.seq []) pos (some (.null, pos))
  | seqStop {p ps pos} (h : Peg g input p pos none) : Peg g input (.seq (p :: ps)) pos none
  | seqLast {p pos a} (h : Peg g input p pos a) : Peg g input (.seq [p]) pos a
  | seqNext {p q ps pos value mid a} (h : Peg g input p pos (some (value, mid)))
      (rest : Peg g input (.seq (q :: ps)) mid a) : Peg g input (.seq (p :: q :: ps)) pos a
  | scope {rule ps pos a} (h : Peg g input (.seq ps) pos a) : Peg g input (.scope rule ps) pos a
  | label {p name pos a} (h : Peg g input p pos a) : Peg g input (.label p name) pos a
  | rule {name body pos a} (found : g.body? name = some body) (h : Peg g input body pos a) :
      Peg g input (.apply name) pos a
  | builtin {name rule pos a} (undefined : g.body? name = none)
      (named : BuiltinRule.ofName? name = some rule) (h : PegBuiltin input rule pos a) :
      Peg g input (.apply name) pos a
  | unknown {name pos} (undefined : g.body? name = none)
      (unnamed : BuiltinRule.ofName? name = none) : Peg g input (.apply name) pos none
  | litTaken {text pos} (h : Stands input text pos) :
      Peg g input (.lit text) pos (some (.str text, pos + text.length))
  | litMissed {text pos} (h : ¬ Stands input text pos) : Peg g input (.lit text) pos none
  | range {lo hi pos a} (h : OneChar input (fun c => lo ≤ c && c ≤ hi) pos a) :
      Peg g input (.range lo hi) pos a
  | notTaken {p pos} (h : Peg g input p pos none) : Peg g input (.not p) pos (some (.null, pos))
  | notMissed {p pos a} (h : Peg g input p pos (some a)) : Peg g input (.not p) pos none
  | optTaken {p pos a} (h : Peg g input p pos (some a)) : Peg g input (.opt p) pos (some a)
  | optMissed {p pos} (h : Peg g input p pos none) : Peg g input (.opt p) pos (some (.null, pos))
  | starStop {p pos} (h : Peg g input p pos none) :
      Peg g input (.star p) pos (some (.seq [], pos))
  | starStill {p pos value} (h : Peg g input p pos (some (value, pos))) :
      Peg g input (.star p) pos (some (.seq [value], pos))
  | starNext {p pos value mid values last} (h : Peg g input p pos (some (value, mid)))
      (moved : mid ≠ pos) (rest : Peg g input (.star p) mid (some (.seq values, last))) :
      Peg g input (.star p) pos (some (.seq (value :: values), last))
  | plusStop {p pos} (h : Peg g input p pos none) : Peg g input (.plus p) pos none
  | plusStill {p pos value} (h : Peg g input p pos (some (value, pos))) :
      Peg g input (.plus p) pos (some (.seq [value], pos))
  | plusNext {p pos value mid values last} (h : Peg g input p pos (some (value, mid)))
      (moved : mid ≠ pos) (rest : Peg g input (.star p) mid (some (.seq values, last))) :
      Peg g input (.plus p) pos (some (.seq (value :: values), last))
  | paren {p pos a} (h : Peg g input p pos a) : Peg g input (.paren p) pos a
  | captureTaken {p pos value last} (h : Peg g input p pos (some (value, last))) :
      Peg g input (.capture p) pos
        (some (.str (String.ofList (input.extract pos last).toList), last))
  | captureMissed {p pos} (h : Peg g input p pos none) : Peg g input (.capture p) pos none
  | pos {pos : Nat} : Peg g input .pos pos (some (.int pos, pos))
  | empty {pos} : Peg g input .empty pos (some (.null, pos))

variable {g : Grammar} {input : Array Char} {accepts : Char → Bool} {p : Pattern} {pos : Nat}
variable {a : Option (Value × Nat)}

/-! ## Answers -/

theorem answer_of_failed {s : MatchState} (h : s.failed = true) : s.answer = none :=
  answer_eq_none.2 h

theorem answer_of_good {s : MatchState} (h : s.failed = false) :
    s.answer = some (s.value, s.pos) :=
  answer_eq_some.2 (by rw [MatchState.outcome, h])

/-- A class of characters answers as it should. -/
theorem oneChar_character (input : Array Char) (accepts : Char → Bool) (s : MatchState) :
    OneChar input accepts s.pos (character input accepts s).answer := by
  by_cases h : ∀ c, input[s.pos]? = some c → accepts c = false
  · rw [character_of_refused h]
    exact .missed h
  · simp only [Classical.not_forall, Bool.not_eq_false] at h
    obtain ⟨c, hc, ok⟩ := h
    rw [character_of_accepted hc ok]
    exact .taken hc ok

/-- A builtin rule answers as it should. -/
theorem pegBuiltin_builtin (input : Array Char) (rule : BuiltinRule) (s : MatchState) :
    PegBuiltin input rule s.pos (builtin input rule s).answer := by
  cases rule with
  | anything => exact .anything (oneChar_character input _ s)
  | digit => exact .digit (oneChar_character input _ s)
  | letter => exact .letter (oneChar_character input _ s)
  | «end» =>
    unfold builtin
    cases h : input[s.pos]? with
    | none => exact .atEnd h
    | some c => exact .notAtEnd h

theorem OneChar.unique {a b : Option (Value × Nat)} (ha : OneChar input accepts pos a)
    (hb : OneChar input accepts pos b) : a = b := by
  cases ha with
  | taken here ok =>
    cases hb with
    | taken here' _ => rw [Option.some.inj (here.symm.trans here')]
    | missed bad => rw [bad _ here] at ok; contradiction
  | missed bad =>
    cases hb with
    | taken here ok => rw [bad _ here] at ok; contradiction
    | missed _ => rfl

theorem PegBuiltin.unique {rule : BuiltinRule} {a b : Option (Value × Nat)}
    (ha : PegBuiltin input rule pos a) (hb : PegBuiltin input rule pos b) : a = b := by
  cases ha with
  | anything ha => cases hb with | anything hb => exact ha.unique hb
  | digit ha => cases hb with | digit hb => exact ha.unique hb
  | letter ha => cases hb with | letter hb => exact ha.unique hb
  | atEnd ha =>
    cases hb with
    | atEnd => rfl
    | notAtEnd hb => rw [ha] at hb; contradiction
  | notAtEnd ha =>
    cases hb with
    | atEnd hb => rw [ha] at hb; contradiction
    | notAtEnd => rfl

/-! ## From evaluation to the relation -/

/-- What the relation says of a task that has run. -/
def Task.Meets (g : Grammar) (input : Array Char) : Task → MatchState → MatchState → Prop
  | .whole p, s, s' => Peg g input p s.pos s'.answer
  | .alts start ps, s, s' => s.pos = start → Peg g input (.choice ps) start s'.answer
  | .terms [], s, s' => s' = s
  | .terms (p :: ps), s, s' => Peg g input (.seq (p :: ps)) s.pos s'.answer
  | .repeated inner items, s, s' => ∃ values last,
      Peg g input (.star inner) s.pos (some (.seq values, last)) ∧
        s'.answer = some (.seq (items.reverse ++ values), last)
  | .grow _ _, _, _ => True

/-- The terms of a sequence come to what the sequence does. -/
theorem Task.Meets.seq {ps : List Pattern} {s s' : MatchState}
    (h : (Task.terms ps).Meets g input (s.succeed .null) s') :
    Peg g input (.seq ps) s.pos s'.answer := by
  cases ps with
  | nil =>
    obtain rfl : s' = s.succeed .null := h
    exact .seqNil
  | cons p ps => exact h

/-- A pattern without parts answers as it should. -/
theorem peg_of_atom (hp : p.IsPeg) {s s' : MatchState} (h : atom? g input p s = some s') :
    Peg g input p s.pos s'.answer := by
  cases p with
  | apply name =>
    cases hb : g.body? name with
    | some body => simp [atom?, hb] at h
    | none =>
      cases hr : BuiltinRule.ofName? name with
      | none =>
        simp only [atom?, hb, hr, Option.some.injEq] at h
        exact h ▸ .unknown hb hr
      | some rule =>
        simp only [atom?, hb, hr, Option.some.injEq] at h
        exact h ▸ .builtin hb hr (pegBuiltin_builtin input rule s)
  | lit text =>
    rw [atom?, Option.some.injEq] at h
    subst h
    by_cases hs : Stands input text s.pos
    · rw [literal_of_stands hs]
      exact .litTaken hs
    · obtain ⟨miss, hmiss⟩ := literal_of_not_stands hs
      rw [hmiss s rfl]
      exact .litMissed hs
  | range lo hi =>
    rw [atom?, Option.some.injEq] at h
    exact h ▸ .range (oneChar_character input _ s)
  | pos =>
    rw [atom?, Option.some.injEq] at h
    exact h ▸ .pos
  | empty =>
    rw [atom?, Option.some.injEq] at h
    exact h ▸ .empty
  | _ => contradiction

/-- Every run of patterns that the relation is about comes to what the relation says. -/
theorem Run.meets (rules : ∀ b ∈ g.bodies, b.2.Everywhere Pattern.IsPeg) {task : Task}
    {s s' : MatchState} (h : Run g input task s s') (all : All Pattern.IsPeg task.patterns) :
    task.Meets g input s s' := by
  induction h with
  | altsNil => exact fun _ => .choiceNil
  | @altsLast start p s s' _ ih =>
    rintro rfl
    -- Behind the last alternative the relation still has an empty choice, which fails.
    have first : Peg g input p s.pos s'.answer := ih all
    cases ha : s'.answer with
    | none => exact .choiceNext (ha ▸ first) .choiceNil
    | some a => exact .choiceTaken (ha ▸ first)
  | altsTaken _ ok ih =>
    rintro rfl
    have first := ih all.head
    rw [Task.Meets, answer_of_good ok] at first
    rw [answer_of_good ok]
    exact .choiceTaken first
  | altsNext _ bad _ ih ihRest =>
    rintro rfl
    have first := ih all.head
    rw [Task.Meets, answer_of_failed bad] at first
    exact .choiceNext first (ihRest all.tail rfl)
  | termsNil => rfl
  | termsStop _ bad ih =>
    have first := ih all.head
    rw [Task.Meets, answer_of_failed bad] at first
    rw [Task.Meets, answer_of_failed bad]
    exact .seqStop first
  | @termsNext p ps s s' s'' _ ok _ ih ihRest =>
    have first := ih all.head
    have rest := ihRest all.tail
    cases ps with
    | nil =>
      obtain rfl : s'' = s' := rest
      exact .seqLast first
    | cons q ps =>
      rw [Task.Meets, answer_of_good ok] at first
      exact .seqNext first rest
  | @repeatedStop inner items s s' _ bad ih =>
    have first := ih all
    rw [Task.Meets, answer_of_failed bad] at first
    exact ⟨[], s.pos, .starStop first, by rw [List.append_nil]; rfl⟩
  | @repeatedStill inner items s s' _ ok still ih =>
    have first := ih all
    rw [Task.Meets, answer_of_good ok, still] at first
    refine ⟨[s'.value], s.pos, .starStill first, ?_⟩
    rw [← still, ← List.reverse_cons]
    rfl
  | @repeatedNext inner items s s' s'' _ ok moved _ ih ihRest =>
    have first := ih all
    rw [Task.Meets, answer_of_good ok] at first
    obtain ⟨values, last, rest, hs''⟩ := ihRest all
    refine ⟨s'.value :: values, last, .starNext first moved rest, ?_⟩
    rw [hs'', List.reverse_cons, List.append_assoc, List.singleton_append]
  | growStop => trivial
  | growNext => trivial
  | atom h => exact peg_of_atom all.here h
  | choice _ ih => exact ih all.parts rfl
  | seq _ ih => exact Task.Meets.seq (ih all.parts)
  | @scope rule ps s s' _ ih =>
    have terms : Peg g input (.seq ps) s.pos s'.answer :=
      Task.Meets.seq (s := { s with scopes := s.scopes.push }) (ih all.parts)
    exact .scope terms
  | @label inner name s s' _ ih =>
    have first := ih all.parts
    -- What the label binds is no part of an answer.
    obtain ⟨frame, h⟩ := s'.labelled_eq name
    rw [Task.Meets, h]
    exact .label first
  | seed | once | grown | hit | miss => exact all.here.elim
  | @rule name body s s' found _ ih =>
    have first := ih (all_body rules found)
    rw [Task.Meets, s.entering_pos name] at first
    obtain ⟨blocked, h⟩ := s.leaving_eq name s'
    rw [Task.Meets, h]
    exact .rule found first
  | @not inner s s' _ ih =>
    have first := ih all.parts
    cases hf : s'.failed with
    | true =>
      rw [Task.Meets, answer_of_failed hf] at first
      rw [Task.Meets, looked, if_pos hf]
      exact .notTaken first
    | false =>
      rw [Task.Meets, answer_of_good hf] at first
      rw [Task.Meets, looked, if_neg (ne_true_of_eq_false hf)]
      exact .notMissed first
  | @opt inner s s' _ ih =>
    have first := ih all.parts
    cases hf : s'.failed with
    | true =>
      rw [Task.Meets, answer_of_failed hf] at first
      rw [Task.Meets, optional, if_pos hf]
      exact .optMissed first
    | false =>
      rw [Task.Meets, answer_of_good hf] at first
      rw [Task.Meets, optional, if_neg (ne_true_of_eq_false hf), answer_of_good hf]
      exact .optTaken first
  | @star inner s s' _ ih =>
    obtain ⟨values, last, rest, hs'⟩ := ih all.parts
    rw [Task.Meets, hs']
    exact rest
  | plusStop _ bad ih =>
    have first := ih all.parts
    rw [Task.Meets, answer_of_failed bad] at first
    rw [Task.Meets, answer_of_failed bad]
    exact .plusStop first
  | @plusStill inner s s' _ ok still ih =>
    have first := ih all.parts
    rw [Task.Meets, answer_of_good ok, still] at first
    rw [Task.Meets, answer_of_good rfl, show (s'.succeed _).pos = s.pos from still]
    exact .plusStill first
  | @plusNext inner s s' s'' _ ok moved _ ih ihRest =>
    have first := ih all.parts
    rw [Task.Meets, answer_of_good ok] at first
    obtain ⟨values, last, rest, hs''⟩ := ihRest all.parts
    rw [Task.Meets, hs'']
    exact .plusNext first moved rest
  | paren _ ih => exact .paren (ih all.parts)
  | @capture inner s s' _ ih =>
    have first := ih all.parts
    cases hf : s'.failed with
    | true =>
      rw [Task.Meets, answer_of_failed hf] at first
      rw [Task.Meets, captured, if_pos hf, answer_of_failed hf]
      exact .captureMissed first
    | false =>
      rw [Task.Meets, answer_of_good hf] at first
      rw [Task.Meets, captured, if_neg (ne_true_of_eq_false hf)]
      exact .captureTaken first

/-! ## From the relation to evaluation -/

/-- From every state at the offset, a pattern runs to the answer.  A sequence does so in whatever
state it goes on, and a star with whatever values it has collected before. -/
def Produced (g : Grammar) (input : Array Char) : Pattern → Nat → Option (Value × Nat) → Prop
  | .seq (p :: ps), pos, a => ∀ s : MatchState, s.pos = pos →
      ∃ s', Run g input (.terms (p :: ps)) s s' ∧ s'.answer = a
  | .star inner, pos, a => ∀ (items : List Value) (s : MatchState), s.pos = pos →
      ∃ s' values last, Run g input (.repeated inner items) s s' ∧ a = some (.seq values, last) ∧
        s'.answer = some (.seq (items.reverse ++ values), last)
  | p, pos, a => ∀ s : MatchState, s.pos = pos → ∃ s', Run g input (.whole p) s s' ∧ s'.answer = a

theorem Produced.run (h : Produced g input p pos a) (s : MatchState) (hs : s.pos = pos) :
    ∃ s', Run g input (.whole p) s s' ∧ s'.answer = a := by
  unfold Produced at h
  split at h
  · obtain ⟨s', run, ha⟩ := h (s.succeed .null) hs
    exact ⟨s', .seq run, ha⟩
  · obtain ⟨s', values, last, run, ha, hs'⟩ := h [] s hs
    exact ⟨s', .star run, by rw [hs', ha]; rfl⟩
  · exact h s hs

/-- What the relation says of a pattern, the pattern runs to from every state at the offset. -/
theorem Peg.produced (h : Peg g input p pos a) : Produced g input p pos a := by
  induction h with
  | choiceNil => exact fun s _ => ⟨_, .choice .altsNil, rfl⟩
  | @choiceTaken p ps pos a _ ih =>
    intro s hs
    obtain ⟨s', run, ha⟩ := ih.run s hs
    have ok : s'.failed = false := congrArg Outcome.failed (answer_eq_some.1 ha)
    exact ⟨s', .choice (run.taken ok), ha⟩
  | @choiceNext p ps pos a _ rest ih ihRest =>
    intro s hs
    obtain ⟨s', run, ha⟩ := ih.run s hs
    cases ps with
    | nil =>
      cases rest
      exact ⟨s', .choice (.altsLast run), ha⟩
    | cons q ps =>
      -- The failure has left its offset and its value behind; only the offset is put back.
      obtain ⟨s'', runRest, ha'⟩ := ihRest { s' with pos := s.pos } hs
      cases runRest with
      | atom h => contradiction
      | choice runRest => exact ⟨s'', .choice (.altsNext run (answer_eq_none.1 ha) runRest), ha'⟩
  | seqNil => exact fun s hs => ⟨_, .seq .termsNil, by rw [← hs]; rfl⟩
  | seqStop _ ih =>
    intro s hs
    obtain ⟨s', run, ha⟩ := ih.run s hs
    exact ⟨s', .termsStop run (answer_eq_none.1 ha), ha⟩
  | seqLast _ ih =>
    intro s hs
    obtain ⟨s', run, ha⟩ := ih.run s hs
    cases hf : s'.failed with
    | true => exact ⟨s', .termsStop run hf, ha⟩
    | false => exact ⟨s', .termsNext run hf .termsNil, ha⟩
  | seqNext _ _ ih ihRest =>
    intro s hs
    obtain ⟨s', run, ha⟩ := ih.run s hs
    have hs' := answer_eq_some.1 ha
    obtain ⟨s'', runRest, ha'⟩ := ihRest s' (congrArg Outcome.pos hs')
    exact ⟨s'', .termsNext run (congrArg Outcome.failed hs') runRest, ha'⟩
  | scope _ ih =>
    intro s hs
    obtain ⟨s', run, ha⟩ := ih.run { s with scopes := s.scopes.push } hs
    cases run with
    | atom h => contradiction
    | seq run => exact ⟨_, .scope run, ha⟩
  | @label p name pos a _ ih =>
    intro s hs
    obtain ⟨s', run, ha⟩ := ih.run s hs
    obtain ⟨frame, h⟩ := s'.labelled_eq name
    exact ⟨_, .label run, by rw [h]; exact ha⟩
  | @rule name body pos a found _ ih =>
    intro s hs
    obtain ⟨s', run, ha⟩ := ih.run (s.entering name) ((s.entering_pos name).trans hs)
    obtain ⟨blocked, h⟩ := s.leaving_eq name s'
    exact ⟨_, .rule found run, by rw [h]; exact ha⟩
  | @builtin name rule pos a undefined named h =>
    intro s hs
    refine ⟨Match.builtin input rule s, .atom (by simp only [atom?, undefined, named]), ?_⟩
    exact (hs ▸ pegBuiltin_builtin input rule s).unique h
  | unknown undefined unnamed =>
    exact fun s _ => ⟨_, .atom (by simp only [atom?, undefined, unnamed]; rfl), rfl⟩
  | litTaken h =>
    intro s hs
    subst hs
    exact ⟨_, .atom rfl, by rw [literal_of_stands h]; rfl⟩
  | litMissed h =>
    intro s hs
    obtain ⟨miss, hmiss⟩ := literal_of_not_stands h
    exact ⟨_, .atom rfl, by rw [hmiss s hs]; rfl⟩
  | range h =>
    intro s hs
    exact ⟨_, .atom rfl, (hs ▸ oneChar_character input _ s).unique h⟩
  | notTaken _ ih =>
    intro s hs
    obtain ⟨s', run, ha⟩ := ih.run { s with furthest := none } hs
    refine ⟨_, .not run, ?_⟩
    rw [looked, if_pos (answer_eq_none.1 ha), ← hs]
    rfl
  | notMissed _ ih =>
    intro s hs
    obtain ⟨s', run, ha⟩ := ih.run { s with furthest := none } hs
    have ok : s'.failed = false := congrArg Outcome.failed (answer_eq_some.1 ha)
    refine ⟨_, .not run, ?_⟩
    rw [looked, if_neg (ne_true_of_eq_false ok)]
    rfl
  | optTaken _ ih =>
    intro s hs
    obtain ⟨s', run, ha⟩ := ih.run s hs
    have ok : s'.failed = false := congrArg Outcome.failed (answer_eq_some.1 ha)
    exact ⟨_, .opt run, by rw [optional, if_neg (ne_true_of_eq_false ok), ha]⟩
  | optMissed _ ih =>
    intro s hs
    obtain ⟨s', run, ha⟩ := ih.run s hs
    refine ⟨_, .opt run, ?_⟩
    rw [optional, if_pos (answer_eq_none.1 ha), ← hs]
    rfl
  | starStop _ ih =>
    intro items s hs
    obtain ⟨s', run, ha⟩ := ih.run s hs
    refine ⟨_, [], _, .repeatedStop run (answer_eq_none.1 ha), rfl, ?_⟩
    rw [List.append_nil, ← hs]
    rfl
  | @starStill p pos value _ ih =>
    intro items s hs
    obtain ⟨s', run, ha⟩ := ih.run s hs
    obtain ⟨hvalue, hfailed, hpos⟩ := Outcome.mk.inj (answer_eq_some.1 ha)
    refine ⟨_, [value], pos, .repeatedStill run hfailed (hpos.trans hs.symm), rfl, ?_⟩
    rw [hvalue, List.reverse_cons, ← hpos]
    rfl
  | @starNext p pos value mid values last _ moved _ ih ihRest =>
    intro items s hs
    obtain ⟨s', run, ha⟩ := ih.run s hs
    obtain ⟨hvalue, hfailed, hpos⟩ := Outcome.mk.inj (answer_eq_some.1 ha)
    -- The rest of a star is itself one, which has collected one value more.
    obtain ⟨s'', values', last', runRest, heq, ha'⟩ := ihRest (s'.value :: items) s' hpos
    cases heq
    refine ⟨s'', value :: values, last, .repeatedNext run hfailed ?_ runRest, rfl, ?_⟩
    · rwa [hpos, hs]
    · rw [ha', hvalue, List.reverse_cons, List.append_assoc, List.singleton_append]
  | plusStop _ ih =>
    intro s hs
    obtain ⟨s', run, ha⟩ := ih.run s hs
    exact ⟨s', .plusStop run (answer_eq_none.1 ha), ha⟩
  | @plusStill p pos value _ ih =>
    intro s hs
    obtain ⟨s', run, ha⟩ := ih.run s hs
    obtain ⟨hvalue, hfailed, hpos⟩ := Outcome.mk.inj (answer_eq_some.1 ha)
    refine ⟨_, .plusStill run hfailed (hpos.trans hs.symm), ?_⟩
    rw [hvalue, ← hpos]
    rfl
  | @plusNext p pos value mid values last _ moved _ ih ihRest =>
    intro s hs
    obtain ⟨s', run, ha⟩ := ih.run s hs
    obtain ⟨hvalue, hfailed, hpos⟩ := Outcome.mk.inj (answer_eq_some.1 ha)
    obtain ⟨s'', values', last', runRest, heq, ha'⟩ := ihRest [s'.value] s' hpos
    cases heq
    refine ⟨s'', .plusNext run hfailed ?_ runRest, ?_⟩
    · rwa [hpos, hs]
    · rw [ha', hvalue]
      rfl
  | paren _ ih =>
    intro s hs
    obtain ⟨s', run, ha⟩ := ih.run s hs
    exact ⟨s', .paren run, ha⟩
  | @captureTaken p pos value last _ ih =>
    intro s hs
    obtain ⟨s', run, ha⟩ := ih.run s hs
    obtain ⟨-, hfailed, hpos⟩ := Outcome.mk.inj (answer_eq_some.1 ha)
    refine ⟨_, .capture run, ?_⟩
    rw [captured, if_neg (ne_true_of_eq_false hfailed), hpos, hs, ← hpos]
    rfl
  | captureMissed _ ih =>
    intro s hs
    obtain ⟨s', run, ha⟩ := ih.run s hs
    exact ⟨_, .capture run, by rw [captured, if_pos (answer_eq_none.1 ha), ha]⟩
  | pos => exact fun s hs => ⟨_, .atom rfl, by rw [← hs]; rfl⟩
  | empty => exact fun s hs => ⟨_, .atom rfl, by rw [← hs]; rfl⟩

/-! ## Evaluation -/

/-- **Evaluation refines the PEG relation.**  In a grammar without left-recursive bodies, kept
outcomes and expressions, and for a pattern of that kind, evaluation from any state has an answer
exactly if the relation has it for the pattern at the current offset. -/
theorem eval_iff_peg (rules : ∀ b ∈ g.bodies, b.2.Everywhere Pattern.IsPeg)
    (hp : p.Everywhere Pattern.IsPeg) (input : Array Char) (s : MatchState)
    (a : Option (Value × Nat)) :
    (∃ n s', eval g input n p s = some s' ∧ s'.answer = a) ↔ Peg g input p s.pos a := by
  constructor
  · rintro ⟨n, s', h, rfl⟩
    exact (run_of_eval h).meets rules fun q hq => List.mem_singleton.1 hq ▸ hp
  · intro h
    obtain ⟨s', run, ha⟩ := h.produced.run s rfl
    obtain ⟨n, hn⟩ := run_iff_eval.1 run
    exact ⟨n, s', hn, ha⟩

/-- A word is `xy`, or the text of an `x`, any number of `z` and perhaps a `y`. -/
def wordGrammar : Grammar :=
  ⟨[("word", .choice [.seq [.lit "x", .lit "y"],
      .capture (.seq [.lit "x", .star (.apply "z"), .opt (.lit "y")])]),
    ("z", .range 'z' 'z')], []⟩

/-- On `xzz` the first alternative fails behind the `x`, and the second starts over. -/
theorem eval_iff_peg_word : ∃ n s',
    eval wordGrammar #['x', 'z', 'z'] n (.apply "word") .initial = some s' ∧
      s'.answer = some (.str "xzz", 3) := by
  have rules : ∀ b ∈ wordGrammar.bodies, b.2.Everywhere Pattern.IsPeg := by
    simp [wordGrammar, Pattern.Everywhere, Pattern.nodes, Pattern.nodesAll, Pattern.IsPeg]
  have start : (Pattern.apply "word").Everywhere Pattern.IsPeg := by
    simp [Pattern.Everywhere, Pattern.nodes, Pattern.IsPeg]
  have z (pos : Nat) (h : #['x', 'z', 'z'][pos]? = some 'z') :
      Peg wordGrammar #['x', 'z', 'z'] (.apply "z") pos (some (.ofChar 'z', pos + 1)) :=
    .rule rfl (.range (.taken h rfl))
  have x : Peg wordGrammar #['x', 'z', 'z'] (.lit "x") 0 (some (.str "x", 1)) :=
    .litTaken (by decide)
  have first : Peg wordGrammar #['x', 'z', 'z'] (.seq [.lit "x", .lit "y"]) 0 none :=
    .seqNext x (.seqLast (.litMissed (by decide)))
  have zs : Peg wordGrammar #['x', 'z', 'z'] (.star (.apply "z")) 1
      (some (.seq [.ofChar 'z', .ofChar 'z'], 3)) :=
    .starNext (z 1 rfl) (by decide) (.starNext (z 2 rfl) (by decide)
      (.starStop (.rule rfl (.range (.missed (by simp))))))
  have second : Peg wordGrammar #['x', 'z', 'z']
      (.capture (.seq [.lit "x", .star (.apply "z"), .opt (.lit "y")])) 0
      (some (.str "xzz", 3)) :=
    .captureTaken (.seqNext x (.seqNext zs (.seqLast (.optMissed (.litMissed (by decide))))))
  exact (eval_iff_peg rules start _ _ _).2 (.rule rfl (.choiceNext first (.choiceTaken second)))

end Match

end Pegboard
