import Mathlib.Data.List.Induction
import Pegboard.Match.Result
import Pegboard.Proofs.Match.Frame
import Pegboard.Proofs.Text.LineCol

/-!
# The failure that is reported

A match that fails reports one of the failures on its way: of those that came furthest, the last.
Here the failures are recorded in their order, as a run raises them, and compared with the one that
is remembered.  It does not matter what became of the branch, the repetition or the growth in which a
failure was raised.  The failures in a lookahead are not recorded; if what must not match does match,
this is one failure, at the offset where the lookahead starts.

## Main Definitions

* `failure?`: the failure that a pattern without parts raises.
* `Raises`: a run, with the failures that it raises.
* `Failure.LastOfFurthest`: the failure of a record that is to be reported.
* `Tells`: a message is the line that tells what went wrong at an offset.

## Main Results

* `Run.raises`: every run that keeps no outcomes raises some failures.
* `Raises.furthest`: the furthest failure after a run, from those that it raises.
* `run_rejected`: a match that fails reports the last of the failures that came furthest.
-/

namespace Pegboard

namespace Failure

/-- The failure to remember after those of a record, which are in the order in which they were
raised. -/
def last (furthest : Option Failure) (log : List Failure) : Option Failure :=
  log.foldl (fun f e => merge f (some e)) furthest

theorem last_append (furthest : Option Failure) (log log' : List Failure) :
    last furthest (log ++ log') = last (last furthest log) log' := List.foldl_append

theorem last_singleton (furthest : Option Failure) (f : Failure) :
    last furthest [f] = merge furthest (some f) := rfl

/-- The failures of a record may be merged before they are taken into account. -/
theorem last_eq_merge (furthest : Option Failure) (log : List Failure) :
    last furthest log = merge furthest (last none log) := by
  induction log using List.reverseRecOn with
  | nil => exact (merge_none furthest).symm
  | append_singleton log f ih =>
    rw [last_append, last_singleton, ih, last_append, last_singleton, merge_assoc]

theorem merge_self (f : Option Failure) : merge f f = f := by
  cases f <;> simp [merge]

/-- To take the failures of a record into account once more makes no difference. -/
theorem last_last (furthest : Option Failure) (log : List Failure) :
    last (last furthest log) log = last furthest log := by
  rw [last_eq_merge, last_eq_merge furthest, merge_assoc, merge_self]

theorem last_toList (furthest failure : Option Failure) :
    last furthest failure.toList = merge furthest failure := by
  cases failure with
  | none => exact (merge_none furthest).symm
  | some f => rfl

/-- Of the failures of a record that came furthest, `f` is the last. -/
def LastOfFurthest (f : Failure) (log : List Failure) : Prop :=
  ∃ before behind, log = before ++ f :: behind ∧ (∀ e ∈ before, e.pos ≤ f.pos) ∧
    ∀ e ∈ behind, e.pos < f.pos

/-- There is one last failure of those that came furthest. -/
theorem LastOfFurthest.unique {f f' : Failure} {log : List Failure} (h : f.LastOfFurthest log)
    (h' : f'.LastOfFurthest log) : f = f' := by
  -- Of two entries, the one before the other comes no further, and the one behind less far.
  have earlier {f f' : Failure} {before behind behind' mid : List Failure}
      (split : f :: behind = mid ++ f' :: behind') (first : ∀ e ∈ before ++ mid, e.pos ≤ f'.pos)
      (rest : ∀ e ∈ behind, e.pos < f.pos) : f = f' := by
    cases mid with
    | nil => exact (List.cons.inj split).1
    | cons e mid =>
      obtain ⟨rfl, rfl⟩ := List.cons.inj split
      have less := rest f' (by simp)
      have more := first f (by simp)
      omega
  obtain ⟨before, behind, rfl, first, rest⟩ := h
  obtain ⟨before', behind', same, first', rest'⟩ := h'
  rcases List.append_eq_append_iff.1 same with ⟨mid, rfl, split⟩ | ⟨mid, rfl, split⟩
  · exact earlier split first' rest
  · exact (earlier split first rest').symm

/-- The failure that is remembered is the last of those that came furthest, if there are any. -/
theorem last_none_of_ne_nil {log : List Failure} (some : log ≠ []) :
    ∃ f, last none log = .some f ∧ f.LastOfFurthest log := by
  induction log using List.reverseRecOn with
  | nil => exact absurd rfl some
  | append_singleton log e ih =>
    rw [last_append, last_singleton]
    by_cases hlog : log = []
    · subst hlog
      exact ⟨e, rfl, [], [], rfl, by simp, by simp⟩
    · obtain ⟨f, hf, before, behind, rfl, hbefore, hbehind⟩ := ih hlog
      rw [hf, merge]
      split
      · next further =>
        -- The new failure is as far as all others, and the last.
        refine ⟨e, rfl, before ++ f :: behind, [], rfl, fun e' he' => ?_, by simp⟩
        rcases List.mem_append.1 he' with he' | he'
        · exact Nat.le_trans (hbefore e' he') further
        · rcases List.mem_cons.1 he' with rfl | he'
          · exact further
          · exact Nat.le_trans (Nat.le_of_lt (hbehind e' he')) further
      · next nearer =>
        refine ⟨f, rfl, before, behind ++ [e], by simp, hbefore, fun e' he' => ?_⟩
        rcases List.mem_append.1 he' with he' | he'
        · exact hbehind e' he'
        · rw [List.mem_singleton.1 he']
          exact Nat.lt_of_not_le nearer

end Failure

namespace Match

/-! ## Patterns without parts -/

/-- The first place where characters that are to stand at an offset differ from the input. -/
def mismatch? (input : Array Char) (offset : Nat) : List Char → Option Failure
  | [] => none
  | c :: cs =>
    if input[offset]? = some c then mismatch? input (offset + 1) cs else some ⟨offset, none⟩

/-- The failure at an offset where no character of a class stands. -/
def refusal? (input : Array Char) (accepts : Char → Bool) (pos : Nat) : Option Failure :=
  if input[pos]?.any accepts then none else some ⟨pos, none⟩

/-- The failure of a builtin rule. -/
def builtinFailure? (input : Array Char) (pos : Nat) : BuiltinRule → Option Failure
  | .anything => refusal? input (fun _ => true) pos
  | .digit => refusal? input Unicode.isAsciiDigit pos
  | .letter => refusal? input Unicode.isAlphabetic pos
  | .end => if input[pos]?.isNone then none else some ⟨pos, none⟩

/-- The failure that comes from an expression, or else from its value. -/
def exprFailure? (e : Expr) (s : MatchState) (judge : Value → Option Failure) : Option Failure :=
  match e.eval s.scopes with
  | .ok v => judge v
  | .error error => some ⟨s.pos, some (.evaluation error)⟩

/-- The failure that a pattern without parts raises, if it raises one. -/
def failure? (input : Array Char) : Pattern → MatchState → Option Failure
  | .apply name, s =>
    match BuiltinRule.ofName? name with
    | some rule => builtinFailure? input s.pos rule
    | none => some ⟨s.pos, some (.unknownRule name)⟩
  | .lit text, s => mismatch? input s.pos text.toList
  | .range lo hi, s => refusal? input (fun c => lo ≤ c && c ≤ hi) s.pos
  | .pred e, s => exprFailure? e s fun
    | .bool true => none
    | .bool false => some ⟨s.pos, none⟩
    | v => some ⟨s.pos, some (.predicateNotBool v.kind)⟩
  | .eq e, s => exprFailure? e s fun
    | .str text => mismatch? input s.pos text.toList
    | v => some ⟨s.pos, some (.equalityNotStr v.kind)⟩
  | .action e, s => exprFailure? e s fun _ => none
  | _, _ => none

/-- A state in which a failure was raised, or none, after the state `s`. -/
def Raised (s : MatchState) (failure : Option Failure) (s' : MatchState) : Prop :=
  s'.furthest = Failure.merge s.furthest failure ∧ s'.failed = failure.isSome

theorem raised_succeed (s : MatchState) (v : Value) : Raised s none (s.succeed v) :=
  ⟨(Failure.merge_none _).symm, rfl⟩

theorem raised_failAt (s : MatchState) (pos : Nat) (cause : Option FailureCause) :
    Raised s (some ⟨pos, cause⟩) (s.failAt pos cause) := ⟨rfl, rfl⟩

section Raised

variable {g : Grammar} {input : Array Char} {s s' : MatchState}

theorem raised_literalFrom (text : String) (cs : List Char) (offset : Nat) :
    Raised s (mismatch? input offset cs) (literalFrom input text offset cs s) := by
  induction cs generalizing offset with
  | nil => exact ⟨(Failure.merge_none _).symm, rfl⟩
  | cons c cs ih =>
    rw [mismatch?, literalFrom]
    split
    · exact ih (offset + 1)
    · exact raised_failAt s offset none

theorem raised_character (accepts : Char → Bool) :
    Raised s (refusal? input accepts s.pos) (character input accepts s) := by
  unfold refusal? character
  cases hc : input[s.pos]? with
  | none => exact raised_failAt s s.pos none
  | some c =>
    simp only [Option.any_some]
    split
    · exact ⟨(Failure.merge_none _).symm, rfl⟩
    · exact raised_failAt s s.pos none

theorem raised_builtin (rule : BuiltinRule) :
    Raised s (builtinFailure? input s.pos rule) (builtin input rule s) := by
  cases rule with
  | anything => exact raised_character _
  | digit => exact raised_character _
  | letter => exact raised_character _
  | «end» =>
    rw [builtinFailure?, builtin]
    split
    · exact raised_succeed s _
    · exact raised_failAt s s.pos none

theorem raised_evaluated (e : Expr) {judge : Value → Option Failure} {next : Value → MatchState}
    (each : ∀ v, Raised s (judge v) (next v)) :
    Raised s (exprFailure? e s judge) (evaluated e s next) := by
  unfold exprFailure? evaluated
  cases e.eval s.scopes with
  | ok v => exact each v
  | error error => exact raised_failAt s s.pos _

/-- A pattern without parts fails exactly if it raises a failure, which is taken into account. -/
theorem raised_of_atom? {p : Pattern} (h : atom? g input p s = some s') :
    Raised s (failure? input p s) s' := by
  cases p with
  | apply name =>
    cases hb : g.body? name with
    | some body => simp [atom?, hb] at h
    | none =>
      rw [failure?]
      cases hr : BuiltinRule.ofName? name with
      | none =>
        simp only [atom?, hb, hr, Option.some.injEq] at h
        exact h ▸ raised_failAt s s.pos _
      | some rule =>
        simp only [atom?, hb, hr, Option.some.injEq] at h
        exact h ▸ raised_builtin rule
  | lit text => exact Option.some.inj h ▸ raised_literalFrom text text.toList s.pos
  | range lo hi => exact Option.some.inj h ▸ raised_character _
  | pred e =>
    refine Option.some.inj h ▸ raised_evaluated e fun v => ?_
    cases v with
    | bool b => cases b with
      | false => exact raised_failAt s s.pos none
      | true => exact raised_succeed s _
    | _ => exact raised_failAt s s.pos _
  | eq e =>
    refine Option.some.inj h ▸ raised_evaluated e fun v => ?_
    cases v with
    | str text => exact raised_literalFrom text text.toList s.pos
    | _ => exact raised_failAt s s.pos _
  | action e => exact Option.some.inj h ▸ raised_evaluated e fun v => raised_succeed s v
  | pos => exact Option.some.inj h ▸ raised_succeed s _
  | empty => exact Option.some.inj h ▸ raised_succeed s _
  | _ => contradiction

end Raised

/-! ## Runs and their failures -/

/-- Carrying out a task takes the first state to the second and raises the failures of the record on
the way, in this order.  Nothing is recorded in a lookahead. -/
inductive Raises (g : Grammar) (input : Array Char) :
    Task → MatchState → List Failure → MatchState → Prop where
  | altsNil {start s} : Raises g input (.alts start []) s [⟨s.pos, none⟩] (s.fail none)
  | altsLast {start p s log s'} (h : Raises g input (.whole p) s log s') :
      Raises g input (.alts start [p]) s log s'
  | altsTaken {start p q ps s log s'} (h : Raises g input (.whole p) s log s')
      (ok : s'.failed = false) : Raises g input (.alts start (p :: q :: ps)) s log s'
  | altsNext {start p q ps s log s' log' s''} (h : Raises g input (.whole p) s log s')
      (bad : s'.failed = true)
      (rest : Raises g input (.alts start (q :: ps)) { s' with pos := start } log' s'') :
      Raises g input (.alts start (p :: q :: ps)) s (log ++ log') s''
  | termsNil {s} : Raises g input (.terms []) s [] s
  | termsStop {p ps s log s'} (h : Raises g input (.whole p) s log s') (bad : s'.failed = true) :
      Raises g input (.terms (p :: ps)) s log s'
  | termsNext {p ps s log s' log' s''} (h : Raises g input (.whole p) s log s')
      (ok : s'.failed = false) (rest : Raises g input (.terms ps) s' log' s'') :
      Raises g input (.terms (p :: ps)) s (log ++ log') s''
  | repeatedStop {inner items s log s'} (h : Raises g input (.whole inner) s log s')
      (bad : s'.failed = true) :
      Raises g input (.repeated inner items) s log
        ({ s' with pos := s.pos }.succeed (.seq items.reverse))
  | repeatedStill {inner items s log s'} (h : Raises g input (.whole inner) s log s')
      (ok : s'.failed = false) (still : s'.pos = s.pos) :
      Raises g input (.repeated inner items) s log
        (s'.succeed (.seq (s'.value :: items).reverse))
  | repeatedNext {inner items s log s' log' s''} (h : Raises g input (.whole inner) s log s')
      (ok : s'.failed = false) (moved : s'.pos ≠ s.pos)
      (rest : Raises g input (.repeated inner (s'.value :: items)) s' log' s'') :
      Raises g input (.repeated inner items) s (log ++ log') s''
  | growStop {inner key s log s'}
      (h : Raises g input (.whole inner) { s with pos := key.2 } log s')
      (stop : s'.outgrows key = false) : Raises g input (.grow inner key) s log s'
  | growNext {inner key s log s' log' s''}
      (h : Raises g input (.whole inner) { s with pos := key.2 } log s')
      (further : s'.outgrows key = true)
      (rest : Raises g input (.grow inner key) (s'.reseeded key) log' s'') :
      Raises g input (.grow inner key) s (log ++ log') s''
  | atom {p s s'} (h : atom? g input p s = some s') :
      Raises g input (.whole p) s (failure? input p s).toList s'
  | choice {alts s log s'} (h : Raises g input (.alts s.pos alts) s log s') :
      Raises g input (.whole (.choice alts)) s log s'
  | seq {ps s log s'} (h : Raises g input (.terms ps) (s.succeed .null) log s') :
      Raises g input (.whole (.seq ps)) s log s'
  | scope {rule ps s log s'}
      (h : Raises g input (.terms ps) ({ s with scopes := s.scopes.push }.succeed .null) log s') :
      Raises g input (.whole (.scope rule ps)) s log { s' with scopes := s'.scopes.pop }
  | label {inner name s log s'} (h : Raises g input (.whole inner) s log s') :
      Raises g input (.whole (.label inner name)) s log (s'.labelled name)
  | seed {inner rule s seed} (found : s.seeds.get? (rule, s.pos) = some seed) :
      Raises g input (.whole (.leftrec inner rule)) s [] (s.adopt seed)
  | once {inner rule s log s'} (unseeded : s.seeds.get? (rule, s.pos) = none)
      (blocked : s.blocked.contains rule = true)
      (h : Raises g input (.whole inner) (s.seeded rule) log s') :
      Raises g input (.whole (.leftrec inner rule)) s log
        { s' with seeds := s'.seeds.erase (rule, s.pos) }
  | grown {inner rule s log s'} (unseeded : s.seeds.get? (rule, s.pos) = none)
      (unblocked : s.blocked.contains rule = false)
      (h : Raises g input (.grow inner (rule, s.pos)) (growing g rule s) log s') :
      Raises g input (.whole (.leftrec inner rule)) s log (Match.grown g rule s s')
  | rule {name body s log s'} (found : g.body? name = some body)
      (h : Raises g input (.whole body) (s.entering name) log s') :
      Raises g input (.whole (.apply name)) s log (s.leaving name s')
  | notRefuted {inner s log s'}
      (h : Raises g input (.whole inner) { s with furthest := none } log s')
      (bad : s'.failed = true) : Raises g input (.whole (.not inner)) s [] (looked s s')
  | notMatched {inner s log s'}
      (h : Raises g input (.whole inner) { s with furthest := none } log s')
      (ok : s'.failed = false) :
      Raises g input (.whole (.not inner)) s [⟨s.pos, none⟩] (looked s s')
  | opt {inner s log s'} (h : Raises g input (.whole inner) s log s') :
      Raises g input (.whole (.opt inner)) s log (optional s s')
  | star {inner s log s'} (h : Raises g input (.repeated inner []) s log s') :
      Raises g input (.whole (.star inner)) s log s'
  | plusStop {inner s log s'} (h : Raises g input (.whole inner) s log s')
      (bad : s'.failed = true) : Raises g input (.whole (.plus inner)) s log s'
  | plusStill {inner s log s'} (h : Raises g input (.whole inner) s log s')
      (ok : s'.failed = false) (still : s'.pos = s.pos) :
      Raises g input (.whole (.plus inner)) s log (s'.succeed (.seq [s'.value]))
  | plusNext {inner s log s' log' s''} (h : Raises g input (.whole inner) s log s')
      (ok : s'.failed = false) (moved : s'.pos ≠ s.pos)
      (rest : Raises g input (.repeated inner [s'.value]) s' log' s'') :
      Raises g input (.whole (.plus inner)) s (log ++ log') s''
  | paren {inner s log s'} (h : Raises g input (.whole inner) s log s') :
      Raises g input (.whole (.paren inner)) s log s'
  | capture {inner s log s'} (h : Raises g input (.whole inner) s log s') :
      Raises g input (.whole (.capture inner)) s log (captured input s s')

variable {g : Grammar} {input : Array Char} {s s' : MatchState}

/-- A run with its failures is a run. -/
theorem Raises.run {task : Task} {log : List Failure} (h : Raises g input task s log s') :
    Run g input task s s' := by
  induction h with
  | altsNil => exact .altsNil
  | altsLast _ ih => exact .altsLast ih
  | altsTaken _ ok ih => exact .altsTaken ih ok
  | altsNext _ bad _ ih ihRest => exact .altsNext ih bad ihRest
  | termsNil => exact .termsNil
  | termsStop _ bad ih => exact .termsStop ih bad
  | termsNext _ ok _ ih ihRest => exact .termsNext ih ok ihRest
  | repeatedStop _ bad ih => exact .repeatedStop ih bad
  | repeatedStill _ ok still ih => exact .repeatedStill ih ok still
  | repeatedNext _ ok moved _ ih ihRest => exact .repeatedNext ih ok moved ihRest
  | growStop _ stop ih => exact .growStop ih stop
  | growNext _ further _ ih ihRest => exact .growNext ih further ihRest
  | atom h => exact .atom h
  | choice _ ih => exact .choice ih
  | seq _ ih => exact .seq ih
  | scope _ ih => exact .scope ih
  | label _ ih => exact .label ih
  | seed found => exact .seed found
  | once unseeded blocked _ ih => exact .once unseeded blocked ih
  | grown unseeded unblocked _ ih => exact .grown unseeded unblocked ih
  | rule found _ ih => exact .rule found ih
  | notRefuted _ _ ih => exact .not ih
  | notMatched _ _ ih => exact .not ih
  | opt _ ih => exact .opt ih
  | star _ ih => exact .star ih
  | plusStop _ bad ih => exact .plusStop ih bad
  | plusStill _ ok still ih => exact .plusStill ih ok still
  | plusNext _ ok moved _ ih ihRest => exact .plusNext ih ok moved ihRest
  | paren _ ih => exact .paren ih
  | capture _ ih => exact .capture ih

/-- Every run of patterns none of which keeps its outcomes raises some failures, or none. -/
theorem Run.raises (memoless : ∀ b ∈ g.bodies, b.2.Everywhere Pattern.NotMemo) {task : Task}
    (h : Run g input task s s') (all : All Pattern.NotMemo task.patterns) :
    ∃ log, Raises g input task s log s' := by
  induction h with
  | altsNil => exact ⟨_, .altsNil⟩
  | altsLast _ ih => exact (ih all).imp fun _ h => .altsLast h
  | altsTaken _ ok ih => exact (ih all.head).imp fun _ h => .altsTaken h ok
  | altsNext _ bad _ ih ihRest =>
    obtain ⟨log, h⟩ := ih all.head
    exact (ihRest all.tail).imp' (log ++ ·) fun _ rest => .altsNext h bad rest
  | termsNil => exact ⟨_, .termsNil⟩
  | termsStop _ bad ih => exact (ih all.head).imp fun _ h => .termsStop h bad
  | termsNext _ ok _ ih ihRest =>
    obtain ⟨log, h⟩ := ih all.head
    exact (ihRest all.tail).imp' (log ++ ·) fun _ rest => .termsNext h ok rest
  | repeatedStop _ bad ih => exact (ih all).imp fun _ h => .repeatedStop h bad
  | repeatedStill _ ok still ih => exact (ih all).imp fun _ h => .repeatedStill h ok still
  | repeatedNext _ ok moved _ ih ihRest =>
    obtain ⟨log, h⟩ := ih all
    exact (ihRest all).imp' (log ++ ·) fun _ rest => .repeatedNext h ok moved rest
  | growStop _ stop ih => exact (ih all).imp fun _ h => .growStop h stop
  | growNext _ further _ ih ihRest =>
    obtain ⟨log, h⟩ := ih all
    exact (ihRest all).imp' (log ++ ·) fun _ rest => .growNext h further rest
  | atom h => exact ⟨_, .atom h⟩
  | choice _ ih => exact (ih all.parts).imp fun _ h => .choice h
  | seq _ ih => exact (ih all.parts).imp fun _ h => .seq h
  | scope _ ih => exact (ih all.parts).imp fun _ h => .scope h
  | label _ ih => exact (ih all.parts).imp fun _ h => .label h
  | seed found => exact ⟨_, .seed found⟩
  | once unseeded blocked _ ih => exact (ih all.parts).imp fun _ h => .once unseeded blocked h
  | grown unseeded unblocked _ ih =>
    exact (ih all.parts).imp fun _ h => .grown unseeded unblocked h
  | hit => exact all.here.elim
  | miss => exact all.here.elim
  | rule found _ ih => exact (ih (all_body memoless found)).imp fun _ h => .rule found h
  | @not inner s s' _ ih =>
    obtain ⟨log, h⟩ := ih all.parts
    cases hf : s'.failed with
    | true => exact ⟨_, .notRefuted h hf⟩
    | false => exact ⟨_, .notMatched h hf⟩
  | opt _ ih => exact (ih all.parts).imp fun _ h => .opt h
  | star _ ih => exact (ih all.parts).imp fun _ h => .star h
  | plusStop _ bad ih => exact (ih all.parts).imp fun _ h => .plusStop h bad
  | plusStill _ ok still ih => exact (ih all.parts).imp fun _ h => .plusStill h ok still
  | plusNext _ ok moved _ ih ihRest =>
    obtain ⟨log, h⟩ := ih all.parts
    exact (ihRest all.parts).imp' (log ++ ·) fun _ rest => .plusNext h ok moved rest
  | paren _ ih => exact (ih all.parts).imp fun _ h => .paren h
  | capture _ ih => exact (ih all.parts).imp fun _ h => .capture h

theorem labelled_furthest (s : MatchState) (name : String) :
    (s.labelled name).furthest = s.furthest := by
  obtain ⟨frame, h⟩ := s.labelled_eq name
  rw [h]

theorem leaving_furthest (s : MatchState) (rule : String) (s' : MatchState) :
    (s.leaving rule s').furthest = s'.furthest := by
  obtain ⟨blocked, h⟩ := s.leaving_eq rule s'
  rw [h]

theorem optional_furthest (s s' : MatchState) : (optional s s').furthest = s'.furthest := by
  obtain ⟨outcome, h⟩ := optional_eq s s'
  rw [h]
  rfl

theorem captured_furthest (input : Array Char) (s s' : MatchState) :
    (captured input s s').furthest = s'.furthest := by
  obtain ⟨value, h⟩ := captured_eq input s s'
  rw [h]

/-- The failure that is remembered after a run is the one to remember after the failures that the run
raises. -/
theorem Raises.furthest {task : Task} {log : List Failure} (h : Raises g input task s log s') :
    s'.furthest = Failure.last s.furthest log := by
  induction h with
  | altsNil => rfl
  | altsLast _ ih => exact ih
  | altsTaken _ _ ih => exact ih
  | altsNext _ _ _ ih ihRest => rw [Failure.last_append, ← ih, ihRest]
  | termsNil => rfl
  | termsStop _ _ ih => exact ih
  | termsNext _ _ _ ih ihRest => rw [Failure.last_append, ← ih, ihRest]
  | repeatedStop _ _ ih => exact ih
  | repeatedStill _ _ _ ih => exact ih
  | repeatedNext _ _ _ _ ih ihRest => rw [Failure.last_append, ← ih, ihRest]
  | growStop _ _ ih => exact ih
  | growNext _ _ _ ih ihRest =>
    rw [Failure.last_append, ← ih]
    exact ihRest
  | atom h => rw [Failure.last_toList, (raised_of_atom? h).1]
  | choice _ ih => exact ih
  | seq _ ih => exact ih
  | scope _ ih => exact ih
  | label _ ih => rw [labelled_furthest, ih]
  | seed => rfl
  | once _ _ _ ih => exact ih
  | grown _ _ _ ih => exact ih
  | rule _ _ ih => rw [leaving_furthest, ih, MatchState.entering_furthest]
  | notRefuted _ bad _ =>
    rw [looked, if_pos bad]
    rfl
  | notMatched _ ok _ =>
    rw [looked, if_neg (ne_true_of_eq_false ok)]
    rfl
  | opt _ ih => rw [optional_furthest, ih]
  | star _ ih => exact ih
  | plusStop _ _ ih => exact ih
  | plusStill _ _ _ ih => exact ih
  | plusNext _ _ _ _ ih ihRest => rw [Failure.last_append, ← ih, ihRest]
  | paren _ ih => exact ih
  | capture _ ih => rw [captured_furthest, ih]

/-! ## Whole matches -/

/-- A whole match raises some failures, or none. -/
theorem raises_of_final? (memoless : ∀ b ∈ g.bodies, b.2.Everywhere Pattern.NotMemo) {n : Nat}
    (h : final? g input n = some s) :
    ∃ log, Raises g input (.whole (.apply g.start)) .initial log s :=
  (run_start_iff.2 ⟨n, h⟩).raises memoless (by simp [All, Task.patterns, Pattern.Everywhere,
    Pattern.nodes, Pattern.NotMemo])

/-- A message is the line that tells what went wrong at an offset of the input: the source, the line
of the offset, what went wrong, and the column. -/
def Tells (source : String) (input : Array Char) (pos : Nat) (description message : String) : Prop :=
  ∃ place : LineCol, place.IsIn input.toList ∧ place.offset input.toList = min pos input.size ∧
    message = source ++ ":" ++ toString place.line ++ " " ++ description ++ " at column "
      ++ toString place.col

theorem tells_report (source : String) (input : Array Char) (failure : Failure) :
    Tells source input failure.pos (describe input failure) (report source input failure) :=
  ⟨_, LineCol.isIn_of _ _, LineCol.offset_of _ _, rfl⟩

/-- **The failure that is reported is the last of those that came furthest.**  A match that fails has
raised some failures in some order; nothing counts that was raised in a lookahead, but a lookahead
that matched counts as one failure where it starts.  If there were any, then the match is rejected at
the offset of one that no other came further than, and behind which no other came as far.  The
message tells its line and column, and what went wrong: its cause, or else the character there, or
that the input ended. -/
theorem run_rejected (memoless : ∀ b ∈ g.bodies, b.2.Everywhere Pattern.NotMemo) {n : Nat}
    {source message : String} {pos : Nat}
    (h : g.run n source input = some (.rejected message pos)) :
    (∃ log s, Raises g input (.whole (.apply g.start)) .initial log s) ∧
      ∀ log s, Raises g input (.whole (.apply g.start)) .initial log s → log ≠ [] →
        ∃ (failure : Failure) (description : String), failure.LastOfFurthest log ∧
          pos = failure.pos ∧ Tells source input pos description message ∧
          (∀ cause, failure.cause = some cause → description = cause.message) ∧
          (∀ c, failure.cause = none → input[pos]? = some c →
            description = "Unexpected " ++ Quoted.debugString (String.singleton c)) ∧
          (failure.cause = none → input.size ≤ pos → description = "Unexpected end of input") := by
  obtain ⟨s, hs, finished⟩ := Option.map_eq_some_iff.1 h
  refine ⟨?_, fun log s' raises some => ?_⟩
  · exact (raises_of_final? memoless hs).imp fun log raises => ⟨s, raises⟩
  · obtain rfl := raises.run.unique (run_start_iff.2 ⟨n, hs⟩)
    obtain ⟨failure, hlast, spec⟩ := Failure.last_none_of_ne_nil some
    have furthest : s'.furthest = .some failure := raises.furthest.trans hlast
    unfold finish at finished
    split at finished
    · rw [furthest, Option.getD_some] at finished
      injection finished with hmessage hpos
      subst hmessage hpos
      refine ⟨failure, describe input failure, spec, rfl, tells_report source input failure,
        fun cause hcause => ?_, fun c none hc => ?_, fun none ended => ?_⟩
      · simp only [describe, hcause]
      · simp only [describe, none, hc]
      · simp only [describe, none, Array.getElem?_eq_none ended]
    · contradiction

/-- The rule `s = 'a' 'c' | ~'b' 'a' ={1}`. -/
def doubtGrammar : Grammar :=
  ⟨[("s", .choice [.seq [.lit "a", .lit "c"],
    .seq [.not (.lit "b"), .lit "a", .eq (.dec "1")]])], []⟩

theorem doubtGrammar_memoless : ∀ b ∈ doubtGrammar.bodies, b.2.Everywhere Pattern.NotMemo := by
  simp [doubtGrammar, Pattern.Everywhere, Pattern.nodes, Pattern.nodesAll, Pattern.NotMemo]

/-- In `ad` both alternatives fail behind the first character, and the second one comes last.  What
is not to match does not, and that counts for nothing. -/
theorem doubt_raises : ∃ s, Raises doubtGrammar #['a', 'd'] (.whole (.apply "s")) .initial
    [⟨1, none⟩, ⟨1, some (.equalityNotStr .int)⟩] s := by
  obtain ⟨log, s, raises, rfl⟩ : ∃ log s,
      Raises doubtGrammar #['a', 'd'] (.whole (.apply "s")) .initial log s ∧
        log = [⟨1, none⟩, ⟨1, some (.equalityNotStr .int)⟩] :=
    ⟨_, _, .rule rfl (.choice (.altsNext
      (.seq (.termsNext (.atom rfl) rfl (.termsStop (.atom rfl) rfl))) rfl
      (.altsLast (.seq (.termsNext (.notRefuted (.atom rfl) rfl) rfl
        (.termsNext (.atom rfl) rfl (.termsStop (.atom rfl) rfl))))))), rfl⟩
  exact ⟨s, raises⟩

/-- Where neither alternative gets past its first literal, each raises a failure at the start. -/
theorem doubt_raises_start {input : Array Char} (h : input = #['d'] ∨ input = #[]) :
    ∃ s, Raises doubtGrammar input (.whole (.apply "s")) .initial [⟨0, none⟩, ⟨0, none⟩] s := by
  obtain ⟨log, s, raises, rfl⟩ : ∃ log s,
      Raises doubtGrammar input (.whole (.apply "s")) .initial log s ∧
        log = [⟨0, none⟩, ⟨0, none⟩] := by
    rcases h with rfl | rfl
    all_goals
      exact ⟨_, _, .rule rfl (.choice (.altsNext (.seq (.termsStop (.atom rfl) rfl)) rfl
        (.altsLast (.seq (.termsNext (.notRefuted (.atom rfl) rfl) rfl
          (.termsStop (.atom rfl) rfl)))))), rfl⟩
  exact ⟨s, raises⟩

/-- In `ad` the cause of the last failure is told, in `d` the character that was not expected, and of
the empty input that it ended. -/
theorem run_rejected_doubt :
    (doubtGrammar.run 10 "test" #['a', 'd'] = some (.rejected
        "test:1 Equality assertion evaluated to int, not str at column 2" 1) ∧
      Tells "test" #['a', 'd'] 1 (FailureCause.equalityNotStr .int).message
        "test:1 Equality assertion evaluated to int, not str at column 2") ∧
    (doubtGrammar.run 10 "test" #['d'] = some (.rejected "test:1 Unexpected \"d\" at column 1" 0) ∧
      Tells "test" #['d'] 0 ("Unexpected " ++ Quoted.debugString (String.singleton 'd'))
        "test:1 Unexpected \"d\" at column 1") ∧
    doubtGrammar.run 10 "test" #[] = some
        (.rejected "test:1 Unexpected end of input at column 1" 0) ∧
      Tells "test" #[] 0 "Unexpected end of input" "test:1 Unexpected end of input at column 1" := by
  have inBoth : doubtGrammar.run 10 "test" #['a', 'd'] = some (.rejected
    "test:1 Equality assertion evaluated to int, not str at column 2" 1) := rfl
  have atFirst : doubtGrammar.run 10 "test" #['d'] =
    some (.rejected "test:1 Unexpected \"d\" at column 1" 0) := rfl
  have atEnd : doubtGrammar.run 10 "test" #[] =
    some (.rejected "test:1 Unexpected end of input at column 1" 0) := rfl
  refine ⟨⟨inBoth, ?_⟩, ⟨atFirst, ?_⟩, atEnd, ?_⟩
  · obtain ⟨s, raises⟩ := doubt_raises
    obtain ⟨failure, description, spec, -, tells, cause, -, -⟩ :=
      (run_rejected doubtGrammar_memoless inBoth).2 _ s raises (by simp)
    obtain rfl := spec.unique ⟨[⟨1, none⟩], [], rfl, by simp, by simp⟩
    rwa [cause _ rfl] at tells
  · obtain ⟨s, raises⟩ := doubt_raises_start (.inl rfl)
    obtain ⟨failure, description, spec, -, tells, -, character, -⟩ :=
      (run_rejected doubtGrammar_memoless atFirst).2 _ s raises (by simp)
    obtain rfl := spec.unique ⟨[⟨0, none⟩], [], rfl, by simp, by simp⟩
    rwa [character 'd' rfl rfl] at tells
  · obtain ⟨s, raises⟩ := doubt_raises_start (.inr rfl)
    obtain ⟨failure, description, spec, -, tells, -, -, ended⟩ :=
      (run_rejected doubtGrammar_memoless atEnd).2 _ s raises (by simp)
    obtain rfl := spec.unique ⟨[⟨0, none⟩], [], rfl, by simp, by simp⟩
    rwa [ended rfl (Nat.le_refl 0)] at tells

end Match

end Pegboard
