import Pegboard.Proofs.Match.Memoization

/-!
# Simplification preserves the result

A run of a grammar is a run of the grammar with simplified bodies, between the same two states.
Nothing that a run records tells them apart: neither values, bindings and failures nor seeds and
remembered outcomes.  That holds of arbitrary bodies.

A sequence of one term starts its term on the value `null`, which the term on its own does not.  So
the collapse of such a sequence rests on a fact about all patterns: what a pattern does has nothing
to do with the outcome that was there before it.

## Main Definitions

* `MatchState.following`: a state with another outcome before it, at the same offset.
* `Grammar.simplify`: a grammar with simplified bodies.

## Main Results

* `Run.following`: a pattern runs alike after all outcomes.
* `Run.simplify`: a run is a run of the simplified task in the simplified grammar.
* `Grammar.run_simplify`: a grammar with simplified bodies gives the same result.
-/

namespace Pegboard

/-- The state with another value before it, and with the word whether that was a failure. -/
def MatchState.following (s : MatchState) (value : Value) (failed : Bool) : MatchState :=
  { s with value := value, failed := failed }

namespace Match

/-! ## Outcomes before a pattern -/

/-- Whether a task goes on with the outcome of what was done before.  The terms that follow others
do: if there are none, the outcome before is that of the sequence. -/
def Task.goesOn : Task → Bool
  | .terms _ => true
  | _ => false

variable {g : Grammar} {input : Array Char}

theorem entering_following (s : MatchState) (value : Value) (failed : Bool) (name : String) :
    (s.following value failed).entering name = (s.entering name).following value failed := by
  show (if s.blocked.isEmpty || s.blocked.contains name then _ else _) = _
  rw [MatchState.entering]
  split <;> rfl

/-- A pattern without parts does the same after all outcomes. -/
theorem atom?_following {p : Pattern} {s s' : MatchState} (h : atom? g input p s = some s')
    (value : Value) (failed : Bool) : atom? g input p (s.following value failed) = some s' := by
  obtain ⟨outcome, failure, effect, -, -⟩ := atom?_effect h
  exact (effect (s.following value failed) rfl fun _ _ => rfl).trans
    ((effect s rfl fun _ _ => rfl).symm.trans h)

/-- What a task does has nothing to do with the outcome before, unless it goes on with it. -/
theorem Run.following {task : Task} {s s' : MatchState} (h : Run g input task s s')
    (fresh : task.goesOn = false) (value : Value) (failed : Bool) :
    Run g input task (s.following value failed) s' := by
  induction h with
  | termsNil => contradiction
  | termsStop => contradiction
  | termsNext => contradiction
  | altsNil => exact .altsNil
  | altsLast _ ih => exact .altsLast (ih rfl)
  | altsTaken _ good ih => exact .altsTaken (ih rfl) good
  | altsNext _ bad rest ih => exact .altsNext (ih rfl) bad rest
  | repeatedStop _ bad ih => exact .repeatedStop (ih rfl) bad
  | repeatedStill _ good still ih => exact .repeatedStill (ih rfl) good still
  | repeatedNext _ good moved rest ih => exact .repeatedNext (ih rfl) good moved rest
  | growStop _ stop ih => exact .growStop (ih rfl) stop
  | growNext _ further rest ih => exact .growNext (ih rfl) further rest
  | atom h => exact .atom (atom?_following h _ _)
  | choice _ ih => exact .choice (ih rfl)
  | seq h => exact .seq h
  | scope h => exact .scope h
  | label _ ih => exact .label (ih rfl)
  | @seed inner rule s seed found => exact .seed found
  | @once inner rule s s' unseeded blocked _ ih => exact .once unseeded blocked (ih rfl)
  | grown unseeded unblocked _ ih => exact .grown unseeded unblocked (ih rfl)
  | hit found => exact .hit found
  | miss unknown _ ih => exact .miss unknown (ih rfl)
  | @rule name body s s' found _ ih =>
    exact .rule found ((entering_following s value failed name).symm ▸ ih rfl)
  | not _ ih => exact .not (ih rfl)
  | opt _ ih => exact .opt (ih rfl)
  | star _ ih => exact .star (ih rfl)
  | plusStop _ bad ih => exact .plusStop (ih rfl) bad
  | plusStill _ good still ih => exact .plusStill (ih rfl) good still
  | plusNext _ good moved rest ih => exact .plusNext (ih rfl) good moved rest
  | paren _ ih => exact .paren (ih rfl)
  | capture _ ih => exact .capture (ih rfl)

/-- A term that is alone in a sequence runs as it does on its own. -/
theorem Run.of_singleton {p : Pattern} {s s' : MatchState}
    (h : Run g input (.terms [p]) (s.succeed .null) s') : Run g input (.whole p) s s' := by
  have whole : Run g input (.whole p) (s.succeed .null) s' := by
    cases h with
    | termsStop run _ => exact run
    | termsNext run _ rest =>
      cases rest with
      | termsNil => exact run
  exact whole.following rfl s.value s.failed

/-- A choice of one alternative runs like the alternative. -/
theorem Run.simplified_choice {ps : List Pattern} {s s' : MatchState}
    (h : Run g input (.alts s.pos ps) s s') :
    Run g input (.whole (Pattern.simplifyNode (.choice ps))) s s' := by
  rcases ps with _ | ⟨p, _ | ⟨q, ps⟩⟩
  · exact .choice h
  · cases h with
    | altsLast h => exact h
  · exact .choice h

/-- A sequence runs alike if it is replaced by its only term or, if it has none, by the empty
pattern. -/
theorem Run.simplified_seq {ps : List Pattern} {s s' : MatchState}
    (h : Run g input (.terms ps) (s.succeed .null) s') :
    Run g input (.whole (Pattern.simplifyNode (.seq ps))) s s' := by
  rcases ps with _ | ⟨p, _ | ⟨q, ps⟩⟩
  · cases h with
    | termsNil => exact .atom rfl
  · exact h.of_singleton
  · exact .seq h

end Match

/-! ## Grammars with simplified bodies -/

/-- A grammar with simplified bodies. -/
def Grammar.simplify (g : Grammar) : Grammar :=
  ⟨g.bodies.mapBodies fun _ => Pattern.simplify, g.leftAssoc⟩

theorem Grammar.body?_simplify (g : Grammar) (name : String) :
    g.simplify.body? name = (g.body? name).map Pattern.simplify :=
  Bodies.body?_mapBodies (fun _ => Pattern.simplify) g.bodies name

theorem Grammar.start_simplify (g : Grammar) : g.simplify.start = g.start :=
  Bodies.start_mapBodies _ _ _ _

namespace Pattern

theorem simplify_choice (alts : List Pattern) :
    (choice alts).simplify = simplifyNode (.choice (alts.map simplify)) := by
  rw [simplify, rebuild, rebuildAll_eq_map]
  rfl

theorem simplify_seq (ps : List Pattern) :
    (seq ps).simplify = simplifyNode (.seq (ps.map simplify)) := by
  rw [simplify, rebuild, rebuildAll_eq_map]
  rfl

theorem simplify_scope (rule : String) (ps : List Pattern) :
    (scope rule ps).simplify = .scope rule (ps.map simplify) := by
  rw [simplify, rebuild, rebuildAll_eq_map]
  rfl

end Pattern

namespace Match

variable {g : Grammar} {input : Array Char}

/-- A task with its patterns changed. -/
def Task.mapPatterns (change : Pattern → Pattern) : Task → Task
  | .whole p => .whole (change p)
  | .alts start ps => .alts start (ps.map change)
  | .terms ps => .terms (ps.map change)
  | .repeated inner items => .repeated (change inner) items
  | .grow inner key => .grow (change inner) key

/-- A pattern without parts is not simplified. -/
theorem atom?_simplify {p : Pattern} {s s' : MatchState} (h : atom? g input p s = some s') :
    atom? g.simplify input p.simplify s = some s' := by
  cases p with
  | apply name =>
    cases found : g.body? name with
    | some body => simp [atom?, found] at h
    | none =>
      have none : g.simplify.body? name = none := by rw [Grammar.body?_simplify, found]; rfl
      rw [← h]
      show atom? g.simplify input (.apply name) s = atom? g input (.apply name) s
      simp only [atom?, none, found]
  | lit | range | pred | eq | action | pos | empty => exact h
  | _ => contradiction

/-- A run is a run of the simplified task in the simplified grammar, between the same states. -/
theorem Run.simplify {task : Task} {s s' : MatchState} (h : Run g input task s s') :
    Run g.simplify input (task.mapPatterns Pattern.simplify) s s' := by
  induction h with
  | altsNil => exact .altsNil
  | altsLast _ ih => exact .altsLast ih
  | altsTaken _ good ih => exact .altsTaken ih good
  | altsNext _ bad _ ih ihRest => exact .altsNext ih bad ihRest
  | termsNil => exact .termsNil
  | termsStop _ bad ih => exact .termsStop ih bad
  | termsNext _ good _ ih ihRest => exact .termsNext ih good ihRest
  | repeatedStop _ bad ih => exact .repeatedStop ih bad
  | repeatedStill _ good still ih => exact .repeatedStill ih good still
  | repeatedNext _ good moved _ ih ihRest => exact .repeatedNext ih good moved ihRest
  | growStop _ stop ih => exact .growStop ih stop
  | growNext _ further _ ih ihRest => exact .growNext ih further ihRest
  | atom h => exact .atom (atom?_simplify h)
  -- The groups that may be replaced by what is inside them.
  | choice _ ih =>
    rw [Task.mapPatterns, Pattern.simplify_choice]
    exact ih.simplified_choice
  | seq _ ih =>
    rw [Task.mapPatterns, Pattern.simplify_seq]
    exact ih.simplified_seq
  | paren _ ih => exact ih
  | scope _ ih =>
    rw [Task.mapPatterns, Pattern.simplify_scope]
    exact .scope ih
  | label _ ih => exact .label ih
  | seed found => exact .seed found
  | once unseeded blocked _ ih => exact .once unseeded blocked ih
  | grown unseeded unblocked _ ih => exact .grown unseeded unblocked ih
  | hit found => exact .hit found
  | miss unknown _ ih => exact .miss unknown ih
  | rule found _ ih => exact .rule (by rw [Grammar.body?_simplify, found]; rfl) ih
  | not _ ih => exact .not ih
  | opt _ ih => exact .opt ih
  | star _ ih => exact .star ih
  | plusStop _ bad ih => exact .plusStop ih bad
  | plusStill _ good still ih => exact .plusStill ih good still
  | plusNext _ good moved _ ih ihRest => exact .plusNext ih good moved ihRest
  | capture _ ih => exact .capture ih

/-- A whole match ends in the same state in the simplified grammar. -/
theorem final?_simplify {n : Nat} {s : MatchState} (h : final? g input n = some s) :
    ∃ m, final? g.simplify input m = some s := by
  cases found : g.body? g.start with
  | none =>
    have none : g.simplify.body? g.simplify.start = none := by
      rw [Grammar.start_simplify, Grammar.body?_simplify, found]
      rfl
    rw [final?, found] at h
    exact ⟨0, by rw [final?, none, Grammar.start_simplify]; exact h⟩
  | some body =>
    have found' : g.simplify.body? g.simplify.start = some body.simplify := by
      rw [Grammar.start_simplify, Grammar.body?_simplify, found]
      rfl
    exact exists_final?_of_run found' (run_of_final? found h).simplify

/-- A match has one result, whatever the fuel. -/
theorem final?_unique {n m : Nat} {s t : MatchState} (hs : final? g input n = some s)
    (ht : final? g input m = some t) : s = t := by
  cases found : g.body? g.start with
  | none =>
    rw [final?, found, Option.some.injEq] at hs ht
    rw [← hs, ← ht]
  | some body => exact (run_of_final? found hs).unique (run_of_final? found ht)

end Match

/-- **Simplification preserves the result.**  If a match with a grammar has a result, so has the
match with the grammar of the simplified bodies, and it is the same: value or error text, and
offset. -/
theorem Grammar.run_simplify {g : Grammar} {n : Nat} {source : String} {input : Array Char}
    {result : MatchResult} (h : g.run n source input = some result) :
    (∃ m, g.simplify.run m source input = some result) ∧
      ∀ m other, g.simplify.run m source input = some other → other = result := by
  obtain ⟨s, hs, rfl⟩ := Option.map_eq_some_iff.1 h
  obtain ⟨m, hm⟩ := Match.final?_simplify hs
  refine ⟨⟨m, Option.map_eq_some_iff.2 ⟨s, hm, rfl⟩⟩, fun k other hother => ?_⟩
  obtain ⟨t, ht, rfl⟩ := Option.map_eq_some_iff.1 hother
  rw [Match.final?_unique ht hm]

/-- A rule in whose body every group but the scope can be replaced. -/
def nestedGroups : Grammar :=
  ⟨[("a", .choice [.paren (.scope "a" [.label (.seq [.apply "b"]) "x", .seq [],
      .choice [.seq [.action (.var "x")]]])]), ("b", .paren (.seq [.lit "y"]))], []⟩

/-- Simplified, the rule is its scope, and gives the same value. -/
theorem nestedGroups_run_simplify :
    nestedGroups.simplify.bodies
        = [("a", .scope "a" [.label (.apply "b") "x", .empty, .action (.var "x")]),
          ("b", .lit "y")] ∧
      nestedGroups.run 10 "<stdin>" #['y'] = some (.accepted (.str "y") 1) ∧
      ∃ m, nestedGroups.simplify.run m "<stdin>" #['y'] = some (.accepted (.str "y") 1) := by
  have run : nestedGroups.run 10 "<stdin>" #['y'] = some (.accepted (.str "y") 1) := rfl
  exact ⟨rfl, run, (Grammar.run_simplify run).1⟩

end Pegboard
