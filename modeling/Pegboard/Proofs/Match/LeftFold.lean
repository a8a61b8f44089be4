import Pegboard.Proofs.Match.Mirror
import Pegboard.Proofs.Match.Progress
import Pegboard.Proofs.Normalize.Closed

/-!
# Left recursion as a left fold

A directly left-recursive rule has alternatives of two kinds: those that start by applying the rule
itself, and the others, which are its base.  Growing its seed evaluates all of them again and again
from the offset where the rule was applied.  What comes out is what a plain loop gives: match the
base once, and then, as long as that reaches further, the remainders of the recursive alternatives
from where the last round ended, with the value so far bound to the label of the recursive
application.

The growing seed stands in for the recursive application, which therefore gives the value so far.
Nothing else of a match depends on that seed.  The remainders start behind its offset, and the base
must not meet it; from there on the runs of the loop and of the growth mirror each other.

## Main Definitions

* `Tail`: what is left of an alternative after the application of the rule that it starts with.
* `LeftFold`: the plain loop.

## Main Results

* `apply_iff_leftFold`: applying a directly left-recursive rule is the left fold of its alternatives.
-/

namespace Pegboard

/-! ## Recursive alternatives -/

/-- What is left of an alternative after the application of the rule that it starts with, and the
label of that application. -/
structure Tail where
  label? : Option String
  rest : List Pattern

namespace Pattern

/-- The label, if any, of a pattern that applies `rule` and does nothing else. -/
def selfLabel? (rule : String) : Pattern → Option (Option String)
  | .apply name => if name = rule then some none else none
  | .label (.apply name) bound => if name = rule then some (some bound) else none
  | _ => none

/-- What is left of an alternative that applies `rule` alone, or before all else. -/
def tail? (rule : String) : Pattern → Option Tail
  | .seq (head :: rest) => (head.selfLabel? rule).map (⟨·, rest⟩)
  | .scope _ (head :: rest) => (head.selfLabel? rule).map (⟨·, rest⟩)
  | p => (p.selfLabel? rule).map (⟨·, []⟩)

end Pattern

/-- The value and the offset of an outcome, unless it is a failure. -/
def Outcome.answer (o : Outcome) : Option (Value × Nat) :=
  if o.failed then none else some (o.value, o.pos)

namespace MatchState

/-- The value and the offset of the last pattern, unless it failed. -/
def answer (s : MatchState) : Option (Value × Nat) := s.outcome.answer

/-- The state in which the remainder of an alternative is matched: at the offset where the last
round ended, in a fresh scope in which the label is bound to the value of that round. -/
def resuming (s : MatchState) (label? : Option String) (value : Value) (pos : Nat) : MatchState :=
  { s with
    pos := pos
    value := value
    failed := false
    scopes :=
      match label? with
      | none => s.scopes.push
      | some label => s.scopes.push.bind label value }

end MatchState

namespace Match

/-! ## The loop -/

/-- The ordered choice of the remainders of alternatives, after a round that ended with `value` at
`pos`: the answer of the first that succeeds, if one does. -/
inductive Tails (g : Grammar) (input : Array Char) (s : MatchState) (value : Value) (pos : Nat) :
    List Tail → Option (Value × Nat) → Prop where
  | none : Tails g input s value pos [] none
  | taken {tail tails s' a}
      (h : Run g input (.terms tail.rest) (s.resuming tail.label? value pos) s')
      (ok : s'.answer = some a) : Tails g input s value pos (tail :: tails) (some a)
  | next {tail tails s' a}
      (h : Run g input (.terms tail.rest) (s.resuming tail.label? value pos) s')
      (bad : s'.answer = Option.none) (rest : Tails g input s value pos tails a) :
      Tails g input s value pos (tail :: tails) a

/-- The rounds of the loop from a value and an offset: as long as a round ends strictly further, it
gives the value for the next. -/
inductive Rounds (g : Grammar) (input : Array Char) (s : MatchState) (tails : List Tail) :
    Value → Nat → Value × Nat → Prop where
  | stop {value pos a} (h : Tails g input s value pos tails a)
      (still : ∀ value' pos', a = some (value', pos') → pos' ≤ pos) :
      Rounds g input s tails value pos (value, pos)
  | next {value pos value' pos' last}
      (h : Tails g input s value pos tails (some (value', pos'))) (further : pos < pos')
      (rest : Rounds g input s tails value' pos' last) : Rounds g input s tails value pos last

/-- The left fold of a rule with the base alternatives `base` and the remainders `tails`: the base
is matched once, and rounds follow unless it fails. -/
inductive LeftFold (g : Grammar) (input : Array Char) (s : MatchState) (base : List Pattern)
    (tails : List Tail) : Option (Value × Nat) → Prop where
  | fails {s'} (h : Run g input (.whole (.choice base)) s s') (bad : s'.answer = none) :
      LeftFold g input s base tails none
  | folds {s' value pos last} (h : Run g input (.whole (.choice base)) s s')
      (ok : s'.answer = some (value, pos)) (rest : Rounds g input s tails value pos last) :
      LeftFold g input s base tails (some last)

/-! ## Applying the rule while it grows -/

section Fold

variable {g : Grammar} {input : Array Char} {r : String} {recs base : List Pattern}
variable {tails : List Tail} {s u : MatchState} {seed : Outcome}

/-- What is known of the rule `r` and of the state `s` in which its body starts to grow. -/
structure Setting (g : Grammar) (input : Array Char) (r : String) (recs base : List Pattern)
    (tails : List Tail) (s : MatchState) : Prop where
  closed : ∀ b ∈ g.bodies, b.2.Closed
  memoless : ∀ b ∈ g.bodies, b.2.Everywhere Pattern.NotMemo
  found : g.body? r = some (.leftrec (.choice (recs ++ base)) r)
  tails : recs.map (Pattern.tail? r) = tails.map some
  placed : Placed (fun _ => True) s
  unblocked : s.blocked = []
  unseeded : s.seeds.get? (r, s.pos) = none
  apart : Sees g input (· ≠ (r, s.pos)) (.whole (.choice base)) s
  consumes : ∀ b, Run g input (.whole (.choice base)) s b → b.failed = false → s.pos < b.pos

/-- The state `u` differs from `s` in its last outcome and its furthest failure, and in the seed of
`r` that is growing where `s` is. -/
structure Growing (r : String) (s : MatchState) (seed : Outcome) (u : MatchState) : Prop where
  seeds : u.seeds = s.seeds.insert (r, s.pos) seed
  blocked : u.blocked = s.blocked
  scopes : u.scopes = s.scopes
  memo : u.memo = s.memo

/-- A growing state and the state without the seed agree, wherever they are. -/
theorem Growing.alike (h : Growing r s seed u) (pos : Nat) :
    Alike (· ≠ (r, s.pos)) (fun _ => True) { u with pos := pos } { s with pos := pos } := by
  refine ⟨rfl, h.blocked.symm, h.memo.symm, fun key hkey => ?_, fun name _ => ?_⟩
  · show s.seeds.get? key = u.seeds.get? key
    rw [h.seeds, Table.get?_insert_of_ne _ _ hkey]
  · show s.scopes.lookup? name = u.scopes.lookup? name
    rw [h.scopes]

/-- A run of closed patterns from a growing state leads to a growing state. -/
theorem Growing.run (rules : ∀ b ∈ g.bodies, b.2.Closed)
    (memoless : ∀ b ∈ g.bodies, b.2.Everywhere Pattern.NotMemo) (h : Growing r s seed u)
    {p : Pattern} {w : MatchState} (run : Run g input (.whole p) u w) (closed : p.Closed)
    (all : All Pattern.NotMemo [p]) : Growing r s seed w := by
  refine ⟨?_, ?_, ?_, ?_⟩
  · rw [← h.seeds]
    exact run.seeds_eq
  · rw [← h.blocked]
    exact run.blocked_eq
  · rw [← h.scopes]
    exact run.scopes_of_closed (fun _ _ found => rules _ (Bodies.mem_of_body? found)) closed
  · rw [← h.memo]
    exact run.memo_of_notMemo memoless all

/-- While the rule grows, applying it gives the seed. -/
theorem Setting.self_run (setting : Setting g input r recs base tails s)
    (hseed : u.seeds.get? (r, u.pos) = some seed) (hblocked : u.blocked = []) :
    Run g input (.whole (.apply r)) u (u.adopt seed) := by
  have hempty : (u.blocked.isEmpty || u.blocked.contains r) = true := by rw [hblocked]; rfl
  have entered : u.entering r = u := by rw [MatchState.entering, if_pos hempty]
  have inner : Run g input (.whole (.leftrec (.choice (recs ++ base)) r)) (u.entering r)
      (u.adopt seed) := by
    rw [entered]
    exact .seed hseed
  have outer := Run.rule setting.found inner
  rwa [MatchState.leaving, if_pos hempty] at outer

/-- The state after the recursive application at the start of an alternative. -/
def resumed (label? : Option String) (u : MatchState) (seed : Outcome) : MatchState :=
  match label? with
  | none => u.adopt seed
  | some label => (u.adopt seed).labelled label

theorem resumed_failed (label? : Option String) (u : MatchState) (seed : Outcome) :
    (resumed label? u seed).failed = seed.failed := by
  cases label? with
  | none => rfl
  | some label =>
    obtain ⟨frame, h⟩ := (u.adopt seed).labelled_eq label
    rw [resumed, h]
    rfl

theorem Setting.head_run (setting : Setting g input r recs base tails s) {head : Pattern}
    {label? : Option String} (hhead : head.selfLabel? r = some label?)
    (hseed : u.seeds.get? (r, u.pos) = some seed) (hblocked : u.blocked = []) :
    Run g input (.whole head) u (resumed label? u seed) := by
  have self := setting.self_run hseed hblocked
  unfold Pattern.selfLabel? at hhead
  split at hhead
  · next name =>
    split at hhead
    · next hname =>
      rw [hname, ← Option.some.inj hhead]
      exact self
    · contradiction
  · next name bound =>
    split at hhead
    · next hname =>
      rw [hname, ← Option.some.inj hhead]
      exact .label self
    · contradiction
  · contradiction

/-- Terms that start with the recursive application fail if the seed failed, and otherwise they come
to what the terms after it come to. -/
theorem Setting.terms_answers (setting : Setting g input r recs base tails s) {head : Pattern}
    {rest : List Pattern} {label? : Option String} (hhead : head.selfLabel? r = some label?)
    (hseed : u.seeds.get? (r, u.pos) = some seed) (hblocked : u.blocked = [])
    (a : Option (Value × Nat)) :
    (∃ w, Run g input (.terms (head :: rest)) u w ∧ w.answer = a) ↔
      if seed.failed then a = none
      else ∃ w, Run g input (.terms rest) (resumed label? u seed) w ∧ w.answer = a := by
  have first := setting.head_run hhead hseed hblocked
  have hfailed := resumed_failed label? u seed
  cases hf : seed.failed with
  | true =>
    rw [hf] at hfailed
    have hanswer : (resumed label? u seed).answer = none := if_pos hfailed
    rw [if_pos rfl]
    constructor
    · rintro ⟨w, run, rfl⟩
      rw [run.unique (.termsStop first hfailed), hanswer]
    · rintro rfl
      exact ⟨_, .termsStop first hfailed, hanswer⟩
  | false =>
    rw [hf] at hfailed
    rw [if_neg Bool.false_ne_true]
    constructor
    · rintro ⟨w, run, rfl⟩
      cases run with
      | termsStop run bad =>
        rw [run.unique first, hfailed] at bad
        contradiction
      | termsNext run _ rest =>
        rw [run.unique first] at rest
        exact ⟨w, rest, rfl⟩
    · rintro ⟨w, run, rfl⟩
      exact ⟨w, .termsNext first hfailed run, rfl⟩

/-- The state after the recursive application agrees with the one in which the loop goes on. -/
theorem Growing.resumed_alike (h : Growing r s seed u) {v : MatchState}
    (hv : v.seeds = u.seeds ∧ v.blocked = u.blocked ∧ v.memo = u.memo)
    (hlookup : ∀ name, v.scopes.lookup? name = s.scopes.lookup? name)
    (good : seed.failed = false) (label? : Option String) :
    Alike (· ≠ (r, s.pos)) (fun _ => True) (resumed label? v seed)
        (s.resuming label? seed.value seed.pos) ∧
      Task.Agrees (· ≠ (r, s.pos)) (.terms []) (resumed label? v seed)
        (s.resuming label? seed.value seed.pos) := by
  obtain ⟨hseeds, hblocked, hmemo⟩ := hv
  have same (key : RuleAt) (hkey : key ≠ (r, s.pos)) : s.seeds.get? key = v.seeds.get? key := by
    rw [hseeds, h.seeds, Table.get?_insert_of_ne _ _ hkey]
  cases label? with
  | none =>
    refine ⟨⟨rfl, ?_, ?_, same, fun name _ => ?_⟩, rfl, good.symm⟩
    · exact (hblocked.trans h.blocked).symm
    · exact (hmemo.trans h.memo).symm
    · exact (hlookup name).symm
  | some label =>
    have hlabelled : resumed (some label) v seed
        = { v.adopt seed with scopes := v.scopes.bind label seed.value } := by
      rw [resumed, MatchState.labelled]
      exact if_neg (ne_true_of_eq_false good)
    rw [hlabelled]
    refine ⟨⟨rfl, ?_, ?_, same, fun name _ => ?_⟩, rfl, good.symm⟩
    · exact (hblocked.trans h.blocked).symm
    · exact (hmemo.trans h.memo).symm
    · show (s.scopes.push.bind label seed.value).lookup? name
        = (v.scopes.bind label seed.value).lookup? name
      by_cases hname : name = label
      · rw [hname, Scopes.lookup?_bind_self, Scopes.lookup?_bind_self]
      · rw [Scopes.lookup?_bind_of_ne _ _ hname, Scopes.lookup?_bind_of_ne _ _ hname,
          Scopes.lookup?_push, hlookup name]

/-- What comes after the offset of the growing seed does not meet it. -/
theorem Setting.sees_behind (setting : Setting g input r recs base tails s)
    (ahead : s.pos < seed.pos) (rest : List Pattern) (label? : Option String) :
    Sees g input (· ≠ (r, s.pos)) (.terms rest) (s.resuming label? seed.value seed.pos) := by
  intro inner rule v h hkey
  have placed : Placed (fun _ => True) (s.resuming label? seed.value seed.pos) :=
    setting.placed.of_tables rfl rfl
  have hahead := (h.ready g.bodies.emptyClosed_univ ⟨placed, all_wrapClosed _, trivial⟩).2
  have hpos : v.pos = s.pos := congrArg Prod.snd hkey
  have hstart : seed.pos ≤ v.pos := hahead
  omega

/-- What the remainder of an alternative comes to, after a seed: nothing if the seed failed. -/
def TailAnswer (g : Grammar) (input : Array Char) (s : MatchState) (seed : Outcome) (tail : Tail)
    (a : Option (Value × Nat)) : Prop :=
  if seed.failed then a = none
  else ∃ w, Run g input (.terms tail.rest) (s.resuming tail.label? seed.value seed.pos) w ∧
    w.answer = a

theorem answer_congr (a : Option (Value × Nat)) (v w : MatchState) (h : v.outcome = w.outcome) :
    v.answer = a ↔ w.answer = a := by
  rw [MatchState.answer, MatchState.answer, h]

/-- Only a closed pattern without a label applies the rule alone. -/
theorem selfLabel?_of_closed {p : Pattern} {label? : Option String} (closed : p.Closed)
    (h : p.selfLabel? r = some label?) : p = .apply r ∧ label? = none := by
  unfold Pattern.selfLabel? at h
  split at h
  · split at h
    · next hname => exact ⟨hname ▸ rfl, (Option.some.inj h).symm⟩
    · contradiction
  · exact closed.elim
  · contradiction

/-- A recursive alternative comes to what its remainder comes to in the loop. -/
theorem Setting.alternative_answers (setting : Setting g input r recs base tails s)
    (h : Growing r s seed u) (hpos : u.pos = s.pos)
    (ahead : seed.failed = true ∨ s.pos < seed.pos) {p : Pattern} {tail : Tail}
    (htail : p.tail? r = some tail) (closed : p.Closed) (a : Option (Value × Nat)) :
    (∃ w, Run g input (.whole p) u w ∧ w.answer = a) ↔ TailAnswer g input s seed tail a := by
  have hseed (v : MatchState) (hs : v.seeds = u.seeds) (hp : v.pos = u.pos) :
      v.seeds.get? (r, v.pos) = some seed := by
    rw [hs, hp, hpos, h.seeds, Table.get?_insert_self]
  have hblocked : u.blocked = [] := h.blocked.trans setting.unblocked
  -- In all forms it is terms after the recursive application, from a state that agrees.
  have terms (v : MatchState) (hv : v.seeds = u.seeds ∧ v.blocked = u.blocked ∧ v.memo = u.memo)
      (hp : v.pos = u.pos) (hlookup : ∀ name, v.scopes.lookup? name = s.scopes.lookup? name)
      {head : Pattern} (hhead : head.selfLabel? r = some tail.label?) :
      (∃ w, Run g input (.terms (head :: tail.rest)) v w ∧ w.answer = a) ↔
        TailAnswer g input s seed tail a := by
    rw [setting.terms_answers hhead (hseed v hv.1 hp) (hv.2.1.trans hblocked), TailAnswer]
    cases hf : seed.failed with
    | true => rfl
    | false =>
      rw [if_neg Bool.false_ne_true, if_neg Bool.false_ne_true]
      have hahead : s.pos < seed.pos := by simpa [hf] using ahead
      obtain ⟨alike, agrees⟩ := h.resumed_alike hv hlookup hf tail.label?
      exact exists_run_congr alike agrees (setting.sees_behind hahead _ _) (answer_congr a)
  have here (name : String) : u.scopes.lookup? name = s.scopes.lookup? name := by rw [h.scopes]
  unfold Pattern.tail? at htail
  split at htail
  · next head rest =>
    obtain ⟨label?, hhead, rfl⟩ := Option.map_eq_some_iff.1 htail
    rw [← terms (u.succeed .null) ⟨rfl, rfl, rfl⟩ rfl here hhead]
    constructor
    · rintro ⟨w, run, hw⟩
      cases run with
      | atom hatom => contradiction
      | seq run => exact ⟨w, run, hw⟩
    · rintro ⟨w, run, hw⟩
      exact ⟨w, .seq run, hw⟩
  · next rule head rest =>
    obtain ⟨label?, hhead, rfl⟩ := Option.map_eq_some_iff.1 htail
    rw [← terms ({ u with scopes := u.scopes.push }.succeed .null) ⟨rfl, rfl, rfl⟩ rfl here hhead]
    constructor
    · rintro ⟨w, run, hw⟩
      cases run with
      | atom hatom => contradiction
      | scope run => exact ⟨_, run, hw⟩
    · rintro ⟨w, run, hw⟩
      exact ⟨_, .scope run, hw⟩
  · obtain ⟨label?, hself, rfl⟩ := Option.map_eq_some_iff.1 htail
    obtain ⟨rfl, rfl⟩ := selfLabel?_of_closed closed hself
    rw [← terms u ⟨rfl, rfl, rfl⟩ rfl here hself]
    constructor
    · rintro ⟨w, run, hw⟩
      cases hf : w.failed with
      | true => exact ⟨w, .termsStop run hf, hw⟩
      | false => exact ⟨w, .termsNext run hf .termsNil, hw⟩
    · rintro ⟨w, run, hw⟩
      cases run with
      | termsStop run _ => exact ⟨w, run, hw⟩
      | termsNext run _ rest =>
        cases rest
        exact ⟨w, run, hw⟩

/-! ## One round of growth -/

theorem answer_eq_none {w : MatchState} : w.answer = none ↔ w.failed = true := by
  unfold MatchState.answer Outcome.answer MatchState.outcome
  cases w.failed <;> simp

theorem answer_eq_some {w : MatchState} {value : Value} {pos : Nat} :
    w.answer = some (value, pos) ↔ w.outcome = ⟨value, false, pos⟩ := by
  unfold MatchState.answer Outcome.answer MatchState.outcome
  cases w.failed <;> simp

/-- What the base comes to. -/
def BaseAnswer (g : Grammar) (input : Array Char) (s : MatchState) (base : List Pattern)
    (a : Option (Value × Nat)) : Prop :=
  ∃ w, Run g input (.whole (.choice base)) s w ∧ w.answer = a

theorem BaseAnswer.unique {a b : Option (Value × Nat)} (ha : BaseAnswer g input s base a)
    (hb : BaseAnswer g input s base b) : a = b := by
  obtain ⟨v, hv, rfl⟩ := ha
  obtain ⟨w, hw, rfl⟩ := hb
  rw [hv.unique hw]

/-- What one round of growth comes to: the remainder that succeeds first, or else the base. -/
def Attempt (g : Grammar) (input : Array Char) (s : MatchState) (base : List Pattern)
    (seed : Outcome) : List Tail → Option (Value × Nat) → Prop
  | [], a => BaseAnswer g input s base a
  | tail :: tails, a =>
    a ≠ none ∧ TailAnswer g input s seed tail a ∨
      TailAnswer g input s seed tail none ∧ Attempt g input s base seed tails a

/-- The alternatives of a rule that grows come to what a round comes to. -/
theorem Setting.alternatives_answers (setting : Setting g input r recs base tails s)
    (ahead : seed.failed = true ∨ s.pos < seed.pos) (a : Option (Value × Nat))
    {ps : List Pattern} {ts : List Tail} (hts : ps.map (Pattern.tail? r) = ts.map some)
    (closed : ∀ p ∈ ps, p.Closed) (memoless : All Pattern.NotMemo ps) {u : MatchState}
    (h : Growing r s seed u) (hpos : u.pos = s.pos) :
    (∃ w, Run g input (.alts s.pos (ps ++ base)) u w ∧ w.answer = a) ↔
      Attempt g input s base seed ts a := by
  induction ps generalizing ts u with
  | nil =>
    obtain rfl : ts = [] := List.map_eq_nil_iff.1 hts.symm
    have alike : Alike (· ≠ (r, s.pos)) (fun _ => True) u s := by
      have hu : { u with pos := s.pos } = u := by rw [← hpos]
      have h' := h.alike s.pos
      rwa [hu] at h'
    have mirror : (∃ w, Run g input (.alts s.pos base) u w ∧ w.answer = a) ↔
        ∃ w, Run g input (.alts s.pos base) s w ∧ w.answer = a :=
      exists_run_congr alike trivial (setting.apart.part .choice) (answer_congr a)
    rw [List.nil_append, Attempt, BaseAnswer, mirror]
    constructor
    · rintro ⟨w, run, hw⟩
      exact ⟨w, .choice run, hw⟩
    · rintro ⟨w, run, hw⟩
      cases run with
      | atom hatom => contradiction
      | choice run => exact ⟨w, run, hw⟩
  | cons p ps ih =>
    obtain ⟨t, ts, rfl, htail, hts⟩ : ∃ t ts', ts = t :: ts' ∧ p.tail? r = some t ∧
        ps.map (Pattern.tail? r) = ts'.map some := by
      cases ts with
      | nil => contradiction
      | cons t ts => exact ⟨t, ts, rfl, List.cons.inj hts⟩
    have closed' := closed p (.head _)
    have first (a : Option (Value × Nat)) :=
      setting.alternative_answers h hpos ahead htail closed' a
    have rest {v : MatchState} (run : Run g input (.whole p) u v) :=
      have hv := h.run setting.closed setting.memoless run closed' memoless.head
      ih hts (fun q hq => closed q (.tail _ hq)) memoless.tail (u := { v with pos := s.pos })
        ⟨hv.seeds, hv.blocked, hv.scopes, hv.memo⟩ rfl
    rw [Attempt, ← first a, ← first none, List.cons_append]
    cases hrest : ps ++ base with
    | nil =>
      -- The last alternative of all is tried alone; the base is then a choice of nothing.
      obtain ⟨rfl, rfl⟩ := List.append_eq_nil_iff.1 hrest
      obtain rfl : ts = [] := List.map_eq_nil_iff.1 hts.symm
      have nothing : BaseAnswer g input s [] none := ⟨s.fail none, .choice .altsNil, rfl⟩
      constructor
      · rintro ⟨w, run, rfl⟩
        cases run with
        | altsLast run =>
          cases hw : w.answer with
          | none => exact .inr ⟨⟨w, run, hw⟩, nothing⟩
          | some b => exact .inl ⟨by simp, w, run, hw⟩
      · rintro (⟨-, w, run, hw⟩ | ⟨⟨w, run, hw⟩, hbase⟩)
        · exact ⟨w, .altsLast run, hw⟩
        · rw [hbase.unique nothing]
          exact ⟨w, .altsLast run, hw⟩
    | cons q qs =>
      rw [hrest] at rest
      constructor
      · rintro ⟨w, run, rfl⟩
        cases run with
        | altsTaken run ok =>
          refine .inl ⟨fun hnone => ?_, w, run, rfl⟩
          rw [answer_eq_none.1 hnone] at ok
          contradiction
        | altsNext run bad next =>
          exact .inr ⟨⟨_, run, answer_eq_none.2 bad⟩, (rest run).1 ⟨w, next, rfl⟩⟩
      · rintro (⟨ha, w, run, rfl⟩ | ⟨⟨w, run, hw⟩, hrest⟩)
        · have ok : w.failed = false := by
            cases hf : w.failed with
            | true => exact absurd (answer_eq_none.2 hf) ha
            | false => rfl
          exact ⟨w, .altsTaken run ok, rfl⟩
        · obtain ⟨w', next, hw'⟩ := (rest run).2 hrest
          exact ⟨w', .altsNext run (answer_eq_none.1 hw) next, hw'⟩

/-- A round from a failed seed comes to what the base comes to. -/
theorem attempt_of_failed (bad : seed.failed = true) {ts : List Tail}
    {a : Option (Value × Nat)} :
    Attempt g input s base seed ts a ↔ BaseAnswer g input s base a := by
  induction ts with
  | nil => rfl
  | cons t ts ih =>
    rw [Attempt, TailAnswer, TailAnswer, if_pos bad, if_pos bad, ih]
    constructor
    · rintro (⟨ha, hnone⟩ | ⟨-, h⟩)
      · exact absurd hnone ha
      · exact h
    · exact fun h => .inr ⟨rfl, h⟩

/-- A round from a value comes to what the remainders come to in the loop, or else the base. -/
theorem attempt_of_good (good : seed.failed = false) {ts : List Tail}
    {a : Option (Value × Nat)} :
    Attempt g input s base seed ts a ↔
      a ≠ none ∧ Tails g input s seed.value seed.pos ts a ∨
        Tails g input s seed.value seed.pos ts none ∧ BaseAnswer g input s base a := by
  have hgood := ne_true_of_eq_false good
  induction ts with
  | nil =>
    rw [Attempt]
    constructor
    · exact fun h => .inr ⟨.none, h⟩
    · rintro (⟨ha, h⟩ | ⟨-, h⟩)
      · cases h
        exact absurd rfl ha
      · exact h
  | cons t ts ih =>
    rw [Attempt, TailAnswer, TailAnswer, if_neg hgood, if_neg hgood]
    refine (or_congr_right (and_congr_right fun _ => ih)).trans ?_
    constructor
    · rintro (⟨ha, w, run, hw⟩ | ⟨⟨w, run, hw⟩, ⟨ha, h⟩ | ⟨hnone, h⟩⟩)
      · obtain ⟨b, rfl⟩ := Option.ne_none_iff_exists'.1 ha
        exact .inl ⟨ha, .taken run hw⟩
      · exact .inl ⟨ha, .next run hw h⟩
      · exact .inr ⟨.next run hw hnone, h⟩
    · rintro (⟨ha, h⟩ | ⟨h, hbase⟩)
      · cases h with
        | taken run ok => exact .inl ⟨ha, _, run, ok⟩
        | next run bad h => exact .inr ⟨⟨_, run, bad⟩, .inl ⟨ha, h⟩⟩
      · cases h with
        | next run bad h => exact .inr ⟨⟨_, run, bad⟩, .inr ⟨h, hbase⟩⟩

/-- A round that succeeds ends behind the offset of the rule, if its seed does. -/
theorem Setting.attempt_ahead (setting : Setting g input r recs base tails s)
    {value : Value} {pos : Nat}
    (h : Attempt g input s base seed tails (some (value, pos)))
    (ahead : seed.failed = true ∨ s.pos < seed.pos)
    (further : seed.failed = true ∨ seed.pos < pos) : s.pos < pos := by
  have first (bad : seed.failed = true) : s.pos < pos := by
    obtain ⟨w, run, hw⟩ := (attempt_of_failed bad).1 h
    have hout := answer_eq_some.1 hw
    have hpos : w.pos = pos := congrArg Outcome.pos hout
    exact hpos ▸ setting.consumes w run (congrArg Outcome.failed hout)
  rcases ahead with bad | ahead
  · exact first bad
  · exact further.elim first fun further => Nat.lt_trans ahead further

/-! ## All rounds -/

/-- The rounds of growth, from one seed to the last. -/
inductive Growth (g : Grammar) (input : Array Char) (s : MatchState) (base : List Pattern)
    (tails : List Tail) : Outcome → Outcome → Prop where
  | stop {seed a} (h : Attempt g input s base seed tails a)
      (still : ∀ value pos, a = some (value, pos) → seed.failed = false ∧ pos ≤ seed.pos) :
      Growth g input s base tails seed seed
  | next {seed value pos last} (h : Attempt g input s base seed tails (some (value, pos)))
      (further : seed.failed = true ∨ seed.pos < pos)
      (rest : Growth g input s base tails ⟨value, false, pos⟩ last) :
      Growth g input s base tails seed last

/-- The alternatives of the rule are closed, and keep no outcomes. -/
theorem Setting.alternatives_fit (setting : Setting g input r recs base tails s) :
    (∀ p ∈ recs ++ base, p.Closed) ∧ All Pattern.NotMemo (recs ++ base) := by
  have closed : (Pattern.leftrec (.choice (recs ++ base)) r).Closed :=
    setting.closed _ (Bodies.mem_of_body? setting.found)
  have memoless : All Pattern.NotMemo [.leftrec (.choice (recs ++ base)) r] :=
    all_body setting.memoless setting.found
  exact ⟨Pattern.closedAll_iff.1 closed, memoless.parts.parts⟩

/-- The body of the rule leads from a growing state to a growing state. -/
theorem Setting.body_growing (setting : Setting g input r recs base tails s)
    (h : Growing r s seed u) {w : MatchState}
    (run : Run g input (.whole (.choice (recs ++ base))) { u with pos := s.pos } w) :
    Growing r s seed w := by
  have h' : Growing r s seed { u with pos := s.pos } := ⟨h.seeds, h.blocked, h.scopes, h.memo⟩
  refine h'.run setting.closed setting.memoless run
    (Pattern.closedAll_iff.2 setting.alternatives_fit.1) fun p hp => ?_
  rw [List.mem_singleton.1 hp]
  exact Pattern.everywhere_iff.2 ⟨trivial, setting.alternatives_fit.2⟩

/-- From a growing state, the body of the rule comes to what a round comes to. -/
theorem Setting.body_answers (setting : Setting g input r recs base tails s)
    (h : Growing r s seed u) (ahead : seed.failed = true ∨ s.pos < seed.pos)
    (a : Option (Value × Nat)) :
    (∃ w, Run g input (.whole (.choice (recs ++ base))) { u with pos := s.pos } w ∧
      w.answer = a) ↔ Attempt g input s base seed tails a := by
  obtain ⟨closed, memoless⟩ := setting.alternatives_fit
  have h' : Growing r s seed { u with pos := s.pos } := ⟨h.seeds, h.blocked, h.scopes, h.memo⟩
  rw [← setting.alternatives_answers ahead a setting.tails
    (fun p hp => closed p (List.mem_append_left _ hp))
    (fun p hp => memoless p (List.mem_append_left _ hp)) h' rfl]
  constructor
  · rintro ⟨w, run, hw⟩
    cases run with
    | atom hatom => contradiction
    | choice run => exact ⟨w, run, hw⟩
  · rintro ⟨w, run, hw⟩
    exact ⟨w, .choice run, hw⟩

/-- Whether a round reaches further than its seed is decided by its answer. -/
theorem Growing.outgrows {w : MatchState} (h : Growing r s seed w) :
    w.outgrows (r, s.pos) = true ↔
      ∃ value pos, w.answer = some (value, pos) ∧ (seed.failed = true ∨ seed.pos < pos) := by
  have hseed : w.seeds.get? (r, s.pos) = some seed := by rw [h.seeds, Table.get?_insert_self]
  simp only [MatchState.outgrows, hseed, answer_eq_some, MatchState.outcome, Outcome.mk.injEq]
  cases w.failed with
  | true => simp
  | false =>
    simp only [Bool.not_false, Bool.true_and, Bool.or_eq_true, decide_eq_true_eq, true_and]
    constructor
    · exact fun h => ⟨_, _, ⟨rfl, rfl⟩, h⟩
    · rintro ⟨value, pos, ⟨-, hpos⟩, h⟩
      exact hpos ▸ h

/-- Recording a round that succeeded makes its answer the seed. -/
theorem Growing.reseeded {w : MatchState} {value : Value} {pos : Nat} (h : Growing r s seed w)
    (hw : w.answer = some (value, pos)) :
    Growing r s ⟨value, false, pos⟩ (w.reseeded (r, s.pos)) := by
  refine ⟨?_, h.blocked, h.scopes, h.memo⟩
  rw [MatchState.reseeded, h.seeds, Table.insert_insert, answer_eq_some.1 hw]

/-- The seed that a growing rule ends with is the last of its rounds. -/
theorem Setting.growth_of_run (setting : Setting g input r recs base tails s) {u' : MatchState}
    (run : Run g input (.grow (.choice (recs ++ base)) (r, s.pos)) u u')
    (h : Growing r s seed u) (ahead : seed.failed = true ∨ s.pos < seed.pos) :
    ∃ last, u'.seeds.get? (r, s.pos) = some last ∧ Growth g input s base tails seed last := by
  generalize htask : Task.grow (.choice (recs ++ base)) (r, s.pos) = task at run
  induction run generalizing seed with
  | @growStop inner key u w run stop _ =>
    cases htask
    have hw := setting.body_growing h run
    have attempt := (setting.body_answers h ahead w.answer).1 ⟨w, run, rfl⟩
    refine ⟨seed, by rw [hw.seeds, Table.get?_insert_self], .stop attempt fun value pos hanswer => ?_⟩
    have hno : ¬ (seed.failed = true ∨ seed.pos < pos) := fun hfurther => by
      rw [hw.outgrows.2 ⟨value, pos, hanswer, hfurther⟩] at stop
      contradiction
    rw [not_or, Bool.not_eq_true, Nat.not_lt] at hno
    exact hno
  | @growNext inner key u w u' run further _ _ ih =>
    cases htask
    have hw := setting.body_growing h run
    obtain ⟨value, pos, hanswer, hfurther⟩ := hw.outgrows.1 further
    have attempt := (setting.body_answers h ahead _).1 ⟨w, run, hanswer⟩
    have hpos := setting.attempt_ahead attempt ahead hfurther
    obtain ⟨last, hlast, growth⟩ := ih (hw.reseeded hanswer) (.inr hpos) rfl
    exact ⟨last, hlast, .next attempt hfurther growth⟩
  | _ => cases htask

/-- Every course of rounds is run through by the rule that grows. -/
theorem Setting.run_of_growth (setting : Setting g input r recs base tails s) {last : Outcome}
    (growth : Growth g input s base tails seed last) (h : Growing r s seed u)
    (ahead : seed.failed = true ∨ s.pos < seed.pos) :
    ∃ u', Run g input (.grow (.choice (recs ++ base)) (r, s.pos)) u u' ∧
      u'.seeds.get? (r, s.pos) = some last := by
  induction growth generalizing u with
  | @stop seed a attempt still =>
    obtain ⟨w, run, rfl⟩ := (setting.body_answers h ahead a).2 attempt
    have hw := setting.body_growing h run
    refine ⟨w, .growStop run ?_, by rw [hw.seeds, Table.get?_insert_self]⟩
    rw [Bool.eq_false_iff, Ne, hw.outgrows]
    rintro ⟨value, pos, hanswer, hfurther⟩
    obtain ⟨good, hle⟩ := still value pos hanswer
    rcases hfurther with bad | hlt
    · rw [good] at bad
      contradiction
    · omega
  | @next seed value pos last attempt further _ ih =>
    obtain ⟨w, run, hanswer⟩ := (setting.body_answers h ahead _).2 attempt
    have hw := setting.body_growing h run
    have hpos := setting.attempt_ahead attempt ahead further
    obtain ⟨u', runRest, hlast⟩ := ih (hw.reseeded hanswer) (.inr hpos)
    exact ⟨u', .growNext run (hw.outgrows.2 ⟨value, pos, hanswer, further⟩) runRest, hlast⟩

/-! ## Growth and the loop -/

/-- Once the base has given an answer, growth goes through the rounds of the loop. -/
theorem growth_iff_rounds {value₀ value : Value} {pos₀ pos : Nat}
    (hbase : BaseAnswer g input s base (some (value₀, pos₀))) (hle : pos₀ ≤ pos) {last : Outcome} :
    Growth g input s base tails ⟨value, false, pos⟩ last ↔
      last.failed = false ∧ Rounds g input s tails value pos (last.value, last.pos) := by
  constructor
  · intro h
    generalize hseed : Outcome.mk value false pos = seed at h
    induction h generalizing value pos with
    | @stop seed a attempt still =>
      subst hseed
      refine ⟨rfl, ?_⟩
      rcases (attempt_of_good rfl).1 attempt with ⟨-, round⟩ | ⟨round, -⟩
      · exact .stop round fun value' pos' ha => (still value' pos' ha).2
      · exact .stop round fun value' pos' ha => by contradiction
    | @next seed value' pos' last attempt further _ ih =>
      subst hseed
      have hlt : pos < pos' := further.resolve_left Bool.false_ne_true
      rcases (attempt_of_good rfl).1 attempt with ⟨-, round⟩ | ⟨-, again⟩
      · obtain ⟨good, rounds⟩ := ih (Nat.le_trans hle (Nat.le_of_lt hlt)) rfl
        exact ⟨good, .next round hlt rounds⟩
      · -- The base gives the same answer again, which is not further than the first.
        cases again.unique hbase
        omega
  · rintro ⟨good, rounds⟩
    obtain ⟨lastValue, lastFailed, lastPos⟩ := last
    subst good
    generalize hlast : (lastValue, lastPos) = a at rounds
    induction rounds with
    | @stop value pos a round still =>
      cases hlast
      cases a with
      | none =>
        refine .stop ((attempt_of_good rfl).2 (.inr ⟨round, hbase⟩)) fun value' pos' ha => ?_
        cases ha
        exact ⟨rfl, hle⟩
      | some a =>
        exact .stop ((attempt_of_good rfl).2 (.inl ⟨by simp, round⟩)) fun value' pos' ha =>
          ⟨rfl, still value' pos' ha⟩
    | next round further _ ih =>
      exact .next ((attempt_of_good rfl).2 (.inl ⟨by simp, round⟩)) (.inr further)
        (ih (Nat.le_trans hle (Nat.le_of_lt further)) hlast)

/-- Growth from the failing seed is the left fold. -/
theorem growth_iff_leftFold {a : Option (Value × Nat)} :
    (∃ last, Growth g input s base tails (.failing s.pos) last ∧ last.answer = a) ↔
      LeftFold g input s base tails a := by
  constructor
  · rintro ⟨last, growth, rfl⟩
    cases growth with
    | stop attempt still =>
      obtain ⟨w, run, hw⟩ := (attempt_of_failed rfl).1 attempt
      cases hanswer : w.answer with
      | none => exact .fails run hanswer
      | some b =>
        have := (still b.1 b.2 (hw.symm.trans hanswer)).1
        contradiction
    | next attempt further rest =>
      have hbase := (attempt_of_failed rfl).1 attempt
      obtain ⟨good, rounds⟩ := (growth_iff_rounds hbase (Nat.le_refl _)).1 rest
      obtain ⟨w, run, hw⟩ := hbase
      rw [Outcome.answer, if_neg (ne_true_of_eq_false good)]
      exact .folds run hw rounds
  · intro fold
    cases fold with
    | fails run bad =>
      exact ⟨.failing s.pos, .stop ((attempt_of_failed rfl).2 ⟨_, run, bad⟩) (by simp), rfl⟩
    | @folds w value pos last run ok rounds =>
      have hbase : BaseAnswer g input s base (some (value, pos)) := ⟨w, run, ok⟩
      refine ⟨⟨last.1, false, last.2⟩, .next ((attempt_of_failed rfl).2 hbase) (.inl rfl) ?_, rfl⟩
      exact (growth_iff_rounds hbase (Nat.le_refl _)).2 ⟨rfl, rounds⟩

end Fold

/-! ## The rule as a whole -/

section Whole

variable {g : Grammar} {input : Array Char} {r : String} {recs base : List Pattern}
variable {tails : List Tail} {s : MatchState}

/-- A rule that does not associate to the left is entered with no rule blocked. -/
theorem Coherent.entering_unblocked (coherent : Coherent g s)
    (notAssoc : g.isLeftAssoc r = false) : (s.entering r).blocked = [] := by
  have hnot : r ∉ s.blocked := fun hmem => by
    rw [coherent.blocked r hmem] at notAssoc
    contradiction
  unfold MatchState.entering
  split
  · next h => simpa [hnot] using h
  · rfl

/-- From a state without a seed, the rule comes to what its rounds come to. -/
theorem Setting.rule_answers (setting : Setting g input r recs base tails (s.entering r))
    (notAssoc : g.isLeftAssoc r = false) (a : Option (Value × Nat)) :
    (∃ s', Run g input (.whole (.apply r)) s s' ∧ s'.answer = a) ↔
      LeftFold g input (s.entering r) base tails a := by
  have unblocked : (s.entering r).blocked.contains r = false := by
    rw [setting.unblocked]
    rfl
  have start : Growing r (s.entering r) (.failing (s.entering r).pos)
      (growing g r (s.entering r)) := by
    refine ⟨rfl, ?_, rfl, rfl⟩
    rw [growing, if_neg (ne_true_of_eq_false notAssoc)]
  have hgrown (u' : MatchState) {last : Outcome}
      (hlast : u'.seeds.get? (r, (s.entering r).pos) = some last) :
      (grown g r (s.entering r) u').answer = last.answer := by
    show ((u'.seeds.get? (r, (s.entering r).pos)).getD _).answer = _
    rw [hlast, Option.getD_some]
  have hleaving (w : MatchState) : (s.leaving r w).answer = w.answer := by
    obtain ⟨blocked, h⟩ := s.leaving_eq r w
    rw [h]
    rfl
  rw [← growth_iff_leftFold]
  constructor
  · rintro ⟨s', run, rfl⟩
    cases run with
    | atom h => simp [atom?, setting.found] at h
    | rule found run =>
      cases found.symm.trans setting.found
      rw [hleaving]
      cases run with
      | atom h => contradiction
      | seed found =>
        rw [setting.unseeded] at found
        contradiction
      | once _ blocked _ =>
        rw [unblocked] at blocked
        contradiction
      | grown _ _ run =>
        obtain ⟨last, hlast, growth⟩ := setting.growth_of_run run start (.inl rfl)
        exact ⟨last, growth, (hgrown _ hlast).symm⟩
  · rintro ⟨last, growth, rfl⟩
    obtain ⟨u', run, hlast⟩ := setting.run_of_growth growth start (.inl rfl)
    refine ⟨_, .rule setting.found (.grown setting.unseeded unblocked run), ?_⟩
    rw [hleaving, hgrown u' hlast]

/-- **Direct left recursion is the left fold of its alternatives.**  In a normalized grammar that
keeps no outcomes, let the body of `r`, which does not associate to the left, grow from recursive
alternatives and a base.  Where `r` has no seed yet, and where its base consumes input whenever it
matches and comes to no left-recursive body of `r` before that, applying `r` gives the answer of the
plain loop, and it gives one exactly if the loop does. -/
theorem apply_iff_leftFold {rs : RuleSet} {options : NormalizeOptions}
    (normalized : rs.normalize options = .ok g)
    (memoless : ∀ b ∈ g.bodies, b.2.Everywhere Pattern.NotMemo)
    (notAssoc : g.isLeftAssoc r = false)
    (found : g.body? r = some (.leftrec (.choice (recs ++ base)) r))
    (htails : recs.map (Pattern.tail? r) = tails.map some) (coherent : Coherent g s)
    (unseeded : s.seeds.get? (r, s.pos) = none)
    (apart : ∀ inner u, Reaches g input (.whole (.choice base)) (s.entering r)
      (.whole (.leftrec inner r)) u → u.pos ≠ s.pos)
    (consumes : ∀ b, Run g input (.whole (.choice base)) (s.entering r) b → b.failed = false →
      s.pos < b.pos) (a : Option (Value × Nat)) :
    (∃ n s', eval g input n (.apply r) s = some s' ∧ s'.answer = a) ↔
      LeftFold g input (s.entering r) base tails a := by
  have hpos := s.entering_pos r
  have setting : Setting g input r recs base tails (s.entering r) := by
    refine ⟨rs.closed_of_normalize normalized, memoless, found, htails,
      (coherent.placed.mono fun _ _ => trivial).of_tables (s.entering_seeds r) (s.entering_memo r),
      coherent.entering_unblocked notAssoc, ?_, ?_, ?_⟩
    · rw [hpos, s.entering_seeds r, unseeded]
    · intro inner rule u h hkey
      rw [hpos] at hkey
      obtain ⟨rfl, hu⟩ := Prod.mk.inj hkey
      exact apart inner u h hu
    · rw [hpos]
      exact consumes
  rw [← setting.rule_answers notAssoc a]
  constructor
  · rintro ⟨n, s', h, ha⟩
    exact ⟨s', run_of_eval h, ha⟩
  · rintro ⟨s', run, ha⟩
    obtain ⟨n, h⟩ := run_iff_eval.1 run
    exact ⟨n, s', h, ha⟩

/-- Whether a pattern is no left-recursive body of the rule `r`. -/
def NotBodyOf (r : String) (p : Pattern) : Prop := ∀ inner, p ≠ .leftrec inner r

end Whole

/-! ## A sum, and a stray seed -/

/-- The body `a '+' | base` of a rule `a`. -/
def sumBody (base : Pattern) : Pattern := .choice [.seq [.apply "a", .lit "+"], base]

/-- The rule `a = a '+' | base`. -/
def sumRules (base : Pattern) : RuleSet := .ofDefinitions [("a", sumBody base)]

/-- The grammar of that rule. -/
def sumGrammar (base : Pattern) : Grammar := ⟨[("a", .leftrec (sumBody base) "a")], []⟩

/-- The rule is left-recursive, whatever its base is. -/
theorem sumRules_normalize {base : Pattern} (valid : (sumRules base).validate = .ok ())
    (scopes : (sumRules base).scopedBodies = [("a", sumBody base)])
    (finish : ((Pattern.leftrec (sumBody base) "a").insertPositional "a").simplify
      = .leftrec (sumBody base) "a") :
    (sumRules base).normalize .default = .ok (sumGrammar base) := by
  have leads : Bodies.isLeftRecursive [("a", sumBody base)] "a" (sumBody base) = true := by
    rw [Bodies.isLeftRecursive, Bodies.leads]
    simp [sumBody, Pattern.leads, Pattern.leadsAny, Pattern.leadsFirst]
  have recursive : Bodies.leftRecursive [("a", sumBody base)] = ["a"] := by
    simp [Bodies.leftRecursive, leads]
  rw [RuleSet.normalize_eq_ok, RuleSet.finished, scopes, recursive]
  refine ⟨valid, by simp [NormalizeOptions.default], ?_⟩
  show sumGrammar base
    = ⟨[("a", ((Pattern.leftrec (sumBody base) "a").insertPositional "a").simplify)], []⟩
  rw [finish, sumGrammar]

theorem sumGrammar_body? (base : Pattern) : (sumGrammar base).body? "a"
    = some (.leftrec (.choice ([.seq [.apply "a", .lit "+"]] ++ [base])) "a") := rfl

theorem sum_tails : [Pattern.seq [.apply "a", .lit "+"]].map (Pattern.tail? "a")
    = [Tail.mk none [.lit "+"]].map some := rfl

/-- The rule `a = a '+' | 'n'` matches the whole of `n+`. -/
theorem apply_iff_leftFold_sum : ∃ n s',
    eval (sumGrammar (.lit "n")) #['n', '+'] n (.apply "a") .initial = some s' ∧
      s'.answer = some (.str "+", 2) := by
  have normalized : (sumRules (.lit "n")).normalize .default = .ok (sumGrammar (.lit "n")) :=
    sumRules_normalize rfl rfl rfl
  have memoless : ∀ b ∈ (sumGrammar (.lit "n")).bodies, b.2.Everywhere Pattern.NotMemo := by
    simp [sumGrammar, sumBody, Pattern.Everywhere, Pattern.nodes, Pattern.nodesAll,
      Pattern.NotMemo]
  have base : Run (sumGrammar (.lit "n")) #['n', '+'] (.whole (.choice [.lit "n"])) .initial
      ({ MatchState.initial with pos := 1 }.succeed (.str "n")) :=
    .choice (.altsLast (.atom rfl))
  have apart : ∀ inner u, Reaches (sumGrammar (.lit "n")) #['n', '+']
      (.whole (.choice [.lit "n"])) .initial (.whole (.leftrec inner "a")) u → u.pos ≠ 0 := by
    intro inner u h
    have all : All (fun q => q = .choice [.lit "n"] ∨ q = .lit "n") [.choice [.lit "n"]] := by
      simp [All, Pattern.Everywhere, Pattern.nodes, Pattern.nodesAll]
    simpa using (h.all (by simp) all).here
  refine (apply_iff_leftFold normalized memoless rfl (sumGrammar_body? _) sum_tails
    (coherent_start _ 0) rfl apart ?_ _).2 ?_
  · intro b run _
    rw [run.unique base]
    exact Nat.zero_lt_one
  · refine .folds base rfl (.next (.taken (.termsNext (.atom rfl) rfl .termsNil) rfl) ?_ (.stop
      (.next (.termsStop (.atom rfl) rfl) rfl .none) ?_))
    · decide
    · simp

/-- A base that is itself a left-recursive body of the rule `a`. -/
def strayBase : Pattern := .leftrec (.lit "x") "a"

/-- The base must come to no left-recursive body of the rule.  That it does not apply the rule is not
enough: in interchange form a base may hold such a body itself, and then the seed of the rule makes
it fail, although it matches where there is no seed. -/
theorem apply_ne_leftFold_of_stray :
    (sumRules strayBase).normalize .default = .ok (sumGrammar strayBase) ∧
      (∀ b ∈ (sumGrammar strayBase).bodies, b.2.Everywhere Pattern.NotMemo) ∧
      (sumGrammar strayBase).isLeftAssoc "a" = false ∧
      (sumGrammar strayBase).body? "a"
        = some (.leftrec (.choice ([.seq [.apply "a", .lit "+"]] ++ [strayBase])) "a") ∧
      (∀ u, ¬ Reaches (sumGrammar strayBase) #['x'] (.whole (.choice [strayBase])) .initial
        (.whole (.apply "a")) u) ∧
      (∀ b, Run (sumGrammar strayBase) #['x'] (.whole (.choice [strayBase])) .initial b →
        b.failed = false → 0 < b.pos) ∧
      LeftFold (sumGrammar strayBase) #['x'] .initial [strayBase] [⟨none, [.lit "+"]⟩]
        (some (.str "x", 1)) ∧
      ¬ ∃ n s', eval (sumGrammar strayBase) #['x'] n (.apply "a") .initial = some s' ∧
        s'.answer = some (.str "x", 1) := by
  have base : ∃ s', Run (sumGrammar strayBase) #['x'] (.whole (.choice [strayBase])) .initial s' ∧
      s'.answer = some (.str "x", 1) :=
    ⟨_, run_of_eval (n := 5) rfl, rfl⟩
  have whole : ∃ s', Run (sumGrammar strayBase) #['x'] (.whole (.apply "a")) .initial s' ∧
      s'.answer = none :=
    ⟨_, run_of_eval (n := 8) rfl, rfl⟩
  obtain ⟨b, hbase, hb⟩ := base
  obtain ⟨w, hwhole, hw⟩ := whole
  refine ⟨sumRules_normalize rfl rfl rfl, ?_, rfl, rfl, fun u h => ?_, fun b' run _ => ?_, ?_, ?_⟩
  · simp [sumGrammar, sumBody, strayBase, Pattern.Everywhere, Pattern.nodes, Pattern.nodesAll,
      Pattern.NotMemo]
  · have all : All (fun q => ∀ name, q ≠ .apply name) [.choice [strayBase]] := by
      simp [All, strayBase, Pattern.Everywhere, Pattern.nodes, Pattern.nodesAll]
    exact (h.all (fun name _ happly => absurd rfl (happly name)) all).here "a" rfl
  · have hpos : b.pos = 1 := congrArg Outcome.pos (answer_eq_some.1 hb)
    rw [run.unique hbase, hpos]
    exact Nat.zero_lt_one
  · exact .folds hbase hb (.stop (.next (.termsStop (.atom rfl) rfl) rfl .none) (by simp))
  · rintro ⟨n, s', h, ha⟩
    rw [(run_of_eval h).unique hwhole, hw] at ha
    contradiction

end Match

end Pegboard
