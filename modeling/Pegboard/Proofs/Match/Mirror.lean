import Pegboard.Proofs.Match.Frame

/-!
# Runs from states that agree

A run depends on its state through a few things only: the offset, the blocked rules, the kept
outcomes, the seeds that it looks up, and the bindings that it looks up.  From two states that agree
on them the same task runs in the same way, to the same outcome, and to two states that agree again.

What is looked up is told in two ways.  The bindings are told by the form of the patterns, as
`Pattern.Knows`.  The seeds are told by what the second run comes to, as `Sees`.  This is what makes
the theorem fit for a run that takes place within the growth of a seed which it never meets.

## Main Definitions

* `Alike`: two states agree on what a run may look up.
* `Sees`: a task meets left-recursive bodies only at given places.
* `Mirrored`: two runs have come to the same outcome, and to states that agree.

## Main Results

* `Run.mirrored`: a run has a mirror image from every state that agrees with its own.
* `Sees.mirrored`: from states that agree, a task meets left-recursive bodies at the same places.
-/

namespace Pegboard

/-! ## Lookups -/

namespace Scopes

@[simp] theorem lookup?_push (scopes : Scopes) (name : String) :
    scopes.push.lookup? name = scopes.lookup? name := rfl

theorem lookup?_bind_of_ne (scopes : Scopes) {name other : String} (value : Value)
    (h : other ≠ name) : (scopes.bind name value).lookup? other = scopes.lookup? other := by
  rw [lookup?, lookup?, frames, frames, List.findSome?_cons, List.findSome?_cons]
  rw [show (scopes.bind name value).innermost.get? other = scopes.innermost.get? other from
    Frame.get?_insert_of_ne _ _ h]
  rfl

end Scopes

namespace Table

variable {α : Type}

theorem get?_erase_self (table : Table α) (key : RuleAt) : (table.erase key).get? key = none := by
  simp [get?, erase, List.find?_filter]

theorem get?_erase_of_ne (table : Table α) {key other : RuleAt} (h : other ≠ key) :
    (table.erase key).get? other = table.get? other := by
  simp only [get?, erase, List.find?_filter]
  congr 2
  funext e
  by_cases he : e.1 = other <;> simp [he, h]

/-- Tables that agree at a key agree there after the same change to both. -/
theorem get?_insert_congr {a b : Table α} {other : RuleAt} (h : a.get? other = b.get? other)
    (key : RuleAt) (x : α) : (a.insert key x).get? other = (b.insert key x).get? other := by
  by_cases hkey : other = key
  · rw [hkey, get?_insert_self, get?_insert_self]
  · rw [get?_insert_of_ne _ _ hkey, get?_insert_of_ne _ _ hkey, h]

theorem get?_erase_congr {a b : Table α} {other : RuleAt} (h : a.get? other = b.get? other)
    (key : RuleAt) : (a.erase key).get? other = (b.erase key).get? other := by
  by_cases hkey : other = key
  · rw [hkey, get?_erase_self, get?_erase_self]
  · rw [get?_erase_of_ne _ hkey, get?_erase_of_ne _ hkey, h]

end Table

namespace Match

variable {g : Grammar} {input : Array Char}
variable {ok : RuleAt → Prop} {callee known known₀ : String → Prop}

/-! ## States that agree -/

/-- Two states agree on the offset, the blocked rules and the kept outcomes, on the seeds of the
keys in `ok`, and on the bindings of the names in `known`. -/
structure Alike (ok : RuleAt → Prop) (known : String → Prop) (s u : MatchState) : Prop where
  pos : u.pos = s.pos
  blocked : u.blocked = s.blocked
  memo : u.memo = s.memo
  seeds : ∀ key, ok key → u.seeds.get? key = s.seeds.get? key
  lookup : ∀ name, known name → u.scopes.lookup? name = s.scopes.lookup? name

theorem Alike.refl (ok : RuleAt → Prop) (known : String → Prop) (s : MatchState) :
    Alike ok known s s :=
  ⟨rfl, rfl, rfl, fun _ _ => rfl, fun _ _ => rfl⟩

theorem Alike.symm {s u : MatchState} (h : Alike ok known s u) : Alike ok known u s :=
  ⟨h.pos.symm, h.blocked.symm, h.memo.symm, fun key hk => (h.seeds key hk).symm,
    fun name hn => (h.lookup name hn).symm⟩

/-- States that agree do so on fewer names. -/
theorem Alike.fewer {known' : String → Prop} {s u : MatchState} (h : Alike ok known s u)
    (hknown : ∀ name, known' name → known name) : Alike ok known' s u :=
  ⟨h.pos, h.blocked, h.memo, h.seeds, fun name hn => h.lookup name (hknown name hn)⟩

/-- Two runs have met the same further failures. -/
def Late (s s' u u' : MatchState) : Prop :=
  ∃ later, s'.furthest = Failure.merge s.furthest later ∧
    u'.furthest = Failure.merge u.furthest later

theorem Late.refl (s u : MatchState) : Late s s u u :=
  ⟨none, (Failure.merge_none _).symm, (Failure.merge_none _).symm⟩

theorem Late.trans {s t s' u v u' : MatchState} (h : Late s t u v) (h' : Late t s' v u') :
    Late s s' u u' := by
  obtain ⟨d, hs, hu⟩ := h
  obtain ⟨d', hs', hu'⟩ := h'
  refine ⟨Failure.merge d d', ?_, ?_⟩
  · rw [hs', hs, Failure.merge_assoc]
  · rw [hu', hu, Failure.merge_assoc]

/-- What failures are recorded after runs that started without any is the same. -/
theorem Late.eq {s s' u u' : MatchState} (h : Late s s' u u') (hs : s.furthest = none)
    (hu : u.furthest = none) : u'.furthest = s'.furthest := by
  obtain ⟨d, hs', hu'⟩ := h
  rw [hs', hu', hs, hu]

/-- Runs from `s` to `s'` and from `u` to `u'` have come to the same outcome, and to states that
agree.  They agree on the names in `binds` as well, if the runs succeeded. -/
structure Mirrored (ok : RuleAt → Prop) (known binds : String → Prop) (s s' u u' : MatchState) :
    Prop where
  alike : Alike ok known s' u'
  value : u'.value = s'.value
  failed : u'.failed = s'.failed
  bound : s'.failed = false → ∀ name, binds name →
    u'.scopes.lookup? name = s'.scopes.lookup? name
  late : Late s s' u u'

/-- States after runs that succeeded agree on what was bound as well. -/
theorem Mirrored.more {binds : String → Prop} {s s' u u' : MatchState}
    (h : Mirrored ok known binds s s' u u') (good : s'.failed = false) :
    Alike ok (fun name => known name ∨ binds name) s' u' :=
  ⟨h.alike.pos, h.alike.blocked, h.alike.memo, h.alike.seeds,
    fun name hn => hn.elim (h.alike.lookup name) (h.bound good name)⟩

theorem Mirrored.outcome {binds : String → Prop} {s s' u u' : MatchState}
    (h : Mirrored ok known binds s s' u u') : u'.outcome = s'.outcome := by
  rw [MatchState.outcome, MatchState.outcome, h.value, h.failed, h.alike.pos]

/-! ## What tasks look up -/

/-- Whether a task looks up only names that are in `known` or that it has bound itself. -/
def Task.Knows (callee known : String → Prop) : Task → Prop
  | .whole p => p.Knows callee known
  | .alts _ ps => Pattern.KnowsEach callee known ps
  | .terms ps => Pattern.KnowsTerms callee known ps
  | .repeated inner _ => inner.Knows callee known
  | .grow inner _ => inner.Knows callee known

/-- Whether a name is bound whenever a task has succeeded. -/
def Task.Binds (name : String) : Task → Prop
  | .whole p => p.Binds name
  | .alts _ ps => Pattern.BindsEach name ps
  | .terms ps => Pattern.BindsSome name ps
  | .repeated _ _ => False
  | .grow _ _ => False

/-- A task meets left-recursive bodies only at the places in `ok`. -/
def Sees (g : Grammar) (input : Array Char) (ok : RuleAt → Prop) (task : Task) (u : MatchState) :
    Prop :=
  ∀ inner rule v, Reaches g input task u (.whole (.leftrec inner rule)) v → ok (rule, v.pos)

theorem Sees.part {task part : Task} {u v : MatchState} (h : Sees g input ok task u)
    (call : Calls g input task u part v) : Sees g input ok part v :=
  fun inner rule w hw => h inner rule w (.step call hw)

theorem Sees.here {inner : Pattern} {rule : String} {u : MatchState}
    (h : Sees g input ok (.whole (.leftrec inner rule)) u) : ok (rule, u.pos) :=
  h inner rule u .refl

/-- What else two states must agree on for a task: terms may have the outcome that was there before
them, and growth looks at its seed. -/
def Task.Agrees (ok : RuleAt → Prop) : Task → MatchState → MatchState → Prop
  | .terms _, s, u => u.value = s.value ∧ u.failed = s.failed
  | .grow _ key, _, _ => ok key
  | _, _, _ => True

/-! ## Changes made to both states -/

theorem Alike.entering {s u : MatchState} (h : Alike ok known s u) (rule : String) :
    Alike ok known (s.entering rule) (u.entering rule) := by
  unfold MatchState.entering
  rw [h.blocked]
  split
  · exact h
  · exact ⟨h.pos, rfl, h.memo, h.seeds, h.lookup⟩

theorem Alike.leaving {s u s' u' : MatchState} (h : Alike ok known s u)
    (h' : Alike ok known s' u') (rule : String) :
    Alike ok known (s.leaving rule s') (u.leaving rule u') := by
  unfold MatchState.leaving
  rw [h.blocked]
  split
  · exact h'
  · exact ⟨h'.pos, rfl, h'.memo, h'.seeds, h'.lookup⟩

theorem Alike.seeded {s u : MatchState} (h : Alike ok known s u) (rule : String) :
    Alike ok known (s.seeded rule) (u.seeded rule) := by
  refine ⟨h.pos, h.blocked, h.memo, fun key hkey => ?_, h.lookup⟩
  rw [MatchState.seeded, MatchState.seeded, h.pos]
  exact Table.get?_insert_congr (h.seeds key hkey) _ _

theorem Alike.growing {s u : MatchState} (h : Alike ok known s u) (g : Grammar) (rule : String) :
    Alike ok known (growing g rule s) (growing g rule u) := by
  obtain ⟨pos, -, memo, seeds, lookup⟩ := h.seeded rule
  refine ⟨pos, ?_, memo, seeds, lookup⟩
  show (if _ then rule :: u.blocked else u.blocked) = if _ then rule :: s.blocked else s.blocked
  rw [h.blocked]

/-- Coming to one outcome with one further failure is a mirrored run. -/
theorem Alike.after {s u : MatchState} (h : Alike ok known s u) (outcome : Outcome)
    (failure : Option Failure) :
    Mirrored ok known (fun _ => False) s (s.after outcome failure) u (u.after outcome failure) :=
  ⟨⟨rfl, h.blocked, h.memo, h.seeds, h.lookup⟩, rfl, rfl, fun _ _ hb => hb.elim,
    ⟨failure, rfl, rfl⟩⟩

theorem Alike.fail {s u : MatchState} (h : Alike ok known s u) (cause : Option FailureCause) :
    Mirrored ok known (fun _ => False) s (s.fail cause) u (u.fail cause) := by
  rw [MatchState.fail_eq_after, MatchState.fail_eq_after, h.pos]
  exact h.after _ _

theorem Alike.succeed {s u : MatchState} (h : Alike ok known s u) (value : Value) :
    Alike ok known (s.succeed value) (u.succeed value) :=
  ⟨h.pos, h.blocked, h.memo, h.seeds, h.lookup⟩

theorem Alike.pushed {s u : MatchState} (h : Alike ok known s u) :
    Alike ok known ({ s with scopes := s.scopes.push }.succeed .null)
      ({ u with scopes := u.scopes.push }.succeed .null) := by
  refine ⟨h.pos, h.blocked, h.memo, h.seeds, fun name hn => ?_⟩
  show u.scopes.push.lookup? name = s.scopes.push.lookup? name
  rw [Scopes.lookup?_push, Scopes.lookup?_push, h.lookup name hn]

theorem Alike.move {s u : MatchState} (h : Alike ok known s u) (pos : Nat) :
    Alike ok known { s with pos := pos } { u with pos := pos } :=
  ⟨rfl, h.blocked, h.memo, h.seeds, h.lookup⟩

/-- The failures met so far make no difference. -/
theorem Alike.clean {s u : MatchState} (h : Alike ok known s u) :
    Alike ok known { s with furthest := none } { u with furthest := none } :=
  ⟨h.pos, h.blocked, h.memo, h.seeds, h.lookup⟩

/-- Taking over an outcome raises no failure. -/
theorem Alike.adopt {s u : MatchState} (h : Alike ok known s u) (outcome : Outcome) :
    Mirrored ok known (fun _ => False) s (s.adopt outcome) u (u.adopt outcome) :=
  ⟨⟨rfl, h.blocked, h.memo, h.seeds, h.lookup⟩, rfl, rfl, fun _ _ hb => hb.elim, Late.refl s u⟩

/-- The seed of a rule at the current offset is the same in states that agree on it. -/
theorem Alike.seed {s u : MatchState} {rule : String} (h : Alike ok known s u)
    (hkey : ok (rule, s.pos)) :
    u.seeds.get? (rule, u.pos) = s.seeds.get? (rule, s.pos) := by
  rw [h.pos, h.seeds _ hkey]

theorem Mirrored.outgrows {binds : String → Prop} {s s' u u' : MatchState} {key : RuleAt}
    (h : Mirrored ok known binds s s' u u') (hkey : ok key) :
    u'.outgrows key = s'.outgrows key := by
  rw [MatchState.outgrows, MatchState.outgrows, h.alike.seeds key hkey, h.failed, h.alike.pos]

theorem Mirrored.reseeded {binds : String → Prop} {s s' u u' : MatchState}
    (h : Mirrored ok known binds s s' u u') (key : RuleAt) :
    Alike ok known (s'.reseeded key) (u'.reseeded key) := by
  refine ⟨h.alike.pos, h.alike.blocked, h.alike.memo, fun k hk => ?_, h.alike.lookup⟩
  rw [MatchState.reseeded, MatchState.reseeded, h.outcome]
  exact Table.get?_insert_congr (h.alike.seeds k hk) _ _

/-- Whoever goes back after a run goes back in both. -/
theorem Mirrored.back {binds : String → Prop} {s s' u u' : MatchState}
    (h : Mirrored ok known binds s s' u u') (pos : Nat) :
    Mirrored ok known binds s { s' with pos := pos } u { u' with pos := pos } :=
  ⟨h.alike.move pos, h.value, h.failed, h.bound, h.late⟩

/-- What has succeeded may be given with another value. -/
theorem Mirrored.given {binds : String → Prop} {s s' u u' : MatchState}
    (h : Mirrored ok known binds s s' u u') (good : s'.failed = false) (value : Value) :
    Mirrored ok known binds s (s'.succeed value) u (u'.succeed value) :=
  ⟨h.alike.succeed value, rfl, rfl, fun _ => h.bound good, h.late⟩

/-- A repetition that comes to its end goes back to where it was. -/
theorem Mirrored.stopped {binds : String → Prop} {s s' u u' : MatchState}
    (h : Mirrored ok known binds s s' u u') (start : u.pos = s.pos) (value : Value) :
    Mirrored ok known (fun _ => False) s ({ s' with pos := s.pos }.succeed value) u
      ({ u' with pos := u.pos }.succeed value) :=
  ⟨⟨start, h.alike.blocked, h.alike.memo, h.alike.seeds, h.alike.lookup⟩, rfl, rfl,
    fun _ _ hb => hb.elim, h.late⟩

theorem Mirrored.unseeded {binds : String → Prop} {s s' u u' : MatchState} {rule : String}
    (h : Mirrored ok known binds (s.seeded rule) s' (u.seeded rule) u') (start : u.pos = s.pos) :
    Mirrored ok known (fun _ => False) s { s' with seeds := s'.seeds.erase (rule, s.pos) } u
      { u' with seeds := u'.seeds.erase (rule, u.pos) } := by
  refine ⟨⟨h.alike.pos, h.alike.blocked, h.alike.memo, fun key hk => ?_, h.alike.lookup⟩, h.value,
    h.failed, fun _ _ hb => hb.elim, h.late⟩
  show (u'.seeds.erase (rule, u.pos)).get? key = (s'.seeds.erase (rule, s.pos)).get? key
  rw [start]
  exact Table.get?_erase_congr (h.alike.seeds key hk) _

/-- The terms of a scope leave the bindings around it as they are. -/
theorem Mirrored.popped {binds : String → Prop} {s s' u u' : MatchState} {ps qs : List Pattern}
    {g' : Grammar} (alike : Alike ok known s u)
    (run : Run g input (.terms ps) ({ s with scopes := s.scopes.push }.succeed .null) s')
    (run' : Run g' input (.terms qs) ({ u with scopes := u.scopes.push }.succeed .null) u')
    (h : Mirrored ok known binds ({ s with scopes := s.scopes.push }.succeed .null) s'
      ({ u with scopes := u.scopes.push }.succeed .null) u') :
    Mirrored ok known (fun _ => False) s { s' with scopes := s'.scopes.pop } u
      { u' with scopes := u'.scopes.pop } := by
  have hs : s'.scopes.pop = s.scopes := (popped_frame (s := s) run.framed).2
  have hu : u'.scopes.pop = u.scopes := (popped_frame (s := u) run'.framed).2
  refine ⟨⟨h.alike.pos, h.alike.blocked, h.alike.memo, h.alike.seeds, fun name hn => ?_⟩, h.value,
    h.failed, fun _ _ hb => hb.elim, h.late⟩
  show u'.scopes.pop.lookup? name = s'.scopes.pop.lookup? name
  rw [hs, hu, alike.lookup name hn]

theorem Mirrored.leaving {binds : String → Prop} {s s' u u' : MatchState} {rule : String}
    (alike : Alike ok known s u)
    (h : Mirrored ok known binds (s.entering rule) s' (u.entering rule) u') :
    Mirrored ok known (fun _ => False) s (s.leaving rule s') u (u.leaving rule u') := by
  refine ⟨alike.leaving h.alike rule, ?_, ?_, fun _ _ hb => hb.elim, ?_⟩
  all_goals
    obtain ⟨blocked, hs⟩ := s.leaving_eq rule s'
    obtain ⟨blocked', hu⟩ := u.leaving_eq rule u'
    rw [hs, hu]
  · exact h.value
  · exact h.failed
  · have late := h.late
    rwa [Late, MatchState.entering_furthest, MatchState.entering_furthest] at late

/-- If a seed is looked up alike, then so it is after growth, and the grown states agree. -/
theorem Mirrored.grown {s u s' u' : MatchState} {rule : String} {binds : String → Prop}
    (h : Alike ok known s u) (hkey : ok (rule, s.pos))
    (h' : Mirrored ok known binds (growing g rule s) s' (growing g rule u) u') :
    Mirrored ok known (fun _ => False) s (grown g rule s s') u (grown g rule u u') := by
  have hseed : u'.seeds.get? (rule, u.pos) = s'.seeds.get? (rule, s.pos) := by
    rw [h.pos]
    exact h'.alike.seeds _ hkey
  have houtcome : (u'.seeds.get? (rule, u.pos)).getD (.failing u.pos)
      = (s'.seeds.get? (rule, s.pos)).getD (.failing s.pos) := by
    rw [hseed, h.pos]
  have alike : Alike ok known (Match.grown g rule s s') (Match.grown g rule u u') := by
    refine ⟨congrArg Outcome.pos houtcome, ?_, h'.alike.memo, fun key hk => ?_, h'.alike.lookup⟩
    · show (if _ then u'.blocked.erase rule else u'.blocked)
        = if _ then s'.blocked.erase rule else s'.blocked
      rw [h'.alike.blocked]
    · show (u'.seeds.erase (rule, u.pos)).get? key = (s'.seeds.erase (rule, s.pos)).get? key
      rw [h.pos]
      exact Table.get?_erase_congr (h'.alike.seeds key hk) _
  exact ⟨alike, congrArg Outcome.value houtcome, congrArg Outcome.failed houtcome,
    fun _ _ hb => hb.elim, h'.late⟩

theorem Mirrored.labelled {s u s' u' : MatchState} {binds : String → Prop} {name : String}
    (h : Mirrored ok known binds s s' u u') :
    Mirrored ok known (fun n => name = n ∨ binds n) s (s'.labelled name) u (u'.labelled name) := by
  unfold MatchState.labelled
  rw [h.failed]
  cases hf : s'.failed with
  | true =>
    rw [if_pos rfl, if_pos rfl]
    exact ⟨h.alike, h.value, h.failed, fun ok => (by rw [hf] at ok; contradiction), h.late⟩
  | false =>
    rw [if_neg Bool.false_ne_true, if_neg Bool.false_ne_true]
    -- The name itself is bound to one value in both states; any other is bound as before.
    have same (n : String) (hn : n ≠ name → u'.scopes.lookup? n = s'.scopes.lookup? n) :
        (u'.scopes.bind name u'.value).lookup? n = (s'.scopes.bind name s'.value).lookup? n := by
      by_cases hname : n = name
      · rw [hname, Scopes.lookup?_bind_self, Scopes.lookup?_bind_self, h.value]
      · rw [Scopes.lookup?_bind_of_ne _ _ hname, Scopes.lookup?_bind_of_ne _ _ hname, hn hname]
    refine ⟨⟨h.alike.pos, h.alike.blocked, h.alike.memo, h.alike.seeds,
      fun n hn => same n fun _ => h.alike.lookup n hn⟩, h.value, rfl, fun _ n hn => ?_, h.late⟩
    exact same n fun hne => h.bound hf n (hn.resolve_left fun h => hne h.symm)

theorem Mirrored.looked {s u s' u' : MatchState} {binds : String → Prop}
    (h' : Mirrored ok known binds { s with furthest := none } s' { u with furthest := none } u')
    (h : Alike ok known s u) :
    Mirrored ok known (fun _ => False) s (looked s s') u (looked u u') := by
  unfold Match.looked
  rw [h'.failed]
  cases s'.failed with
  | true =>
    exact ⟨⟨h.pos, h'.alike.blocked, h'.alike.memo, h'.alike.seeds, h'.alike.lookup⟩, rfl, rfl,
      fun _ _ hb => hb.elim, Late.refl s u⟩
  | false =>
    refine ⟨⟨h.pos, h'.alike.blocked, h'.alike.memo, h'.alike.seeds, h'.alike.lookup⟩, rfl, rfl,
      fun _ _ hb => hb.elim, ⟨some ⟨s.pos, none⟩, rfl, ?_⟩⟩
    rw [← h.pos]
    rfl

theorem Mirrored.optional {s u s' u' : MatchState} {binds : String → Prop}
    (h' : Mirrored ok known binds s s' u u') (h : Alike ok known s u) :
    Mirrored ok known (fun _ => False) s (optional s s') u (optional u u') := by
  unfold Match.optional
  rw [h'.failed]
  cases s'.failed with
  | true =>
    exact ⟨⟨h.pos, h'.alike.blocked, h'.alike.memo, h'.alike.seeds, h'.alike.lookup⟩, rfl, rfl,
      fun _ _ hb => hb.elim, h'.late⟩
  | false => exact ⟨h'.alike, h'.value, h'.failed, fun _ _ hb => hb.elim, h'.late⟩

theorem Mirrored.captured {s u s' u' : MatchState} {binds : String → Prop}
    (h' : Mirrored ok known binds s s' u u') (h : Alike ok known s u) :
    Mirrored ok known binds s (captured input s s') u (captured input u u') := by
  unfold Match.captured
  rw [h'.failed]
  cases hf : s'.failed with
  | true =>
    rw [if_pos rfl, if_pos rfl]
    exact ⟨h'.alike, h'.value, h'.failed, fun ok => (by rw [hf] at ok; contradiction), h'.late⟩
  | false =>
    refine ⟨⟨h'.alike.pos, h'.alike.blocked, h'.alike.memo, h'.alike.seeds, h'.alike.lookup⟩, ?_,
      rfl, fun _ => h'.bound hf, h'.late⟩
    show Value.str _ = Value.str _
    rw [h.pos, h'.alike.pos]

theorem Mirrored.kept {s u s' u' : MatchState} {rule : String} {binds : String → Prop}
    (h : Alike ok known s u)
    (h' : Mirrored ok known binds { s with furthest := none } s' { u with furthest := none } u') :
    Mirrored ok known (fun _ => False) s (kept rule s s') u (kept rule u u') := by
  have hfurthest : u'.furthest = s'.furthest := h'.late.eq rfl rfl
  refine ⟨⟨h'.alike.pos, h'.alike.blocked, ?_, h'.alike.seeds, h'.alike.lookup⟩, h'.value,
    h'.failed, fun _ _ hb => hb.elim, ⟨s'.furthest, rfl, ?_⟩⟩
  · show u'.memo.insert (rule, u.pos) ⟨u'.outcome, u'.furthest⟩
      = s'.memo.insert (rule, s.pos) ⟨s'.outcome, s'.furthest⟩
    rw [h'.alike.memo, h.pos, h'.outcome, hfurthest]
  · show Failure.merge u.furthest u'.furthest = _
    rw [hfurthest]

/-! ## The mirror image of a run -/

/-- Mirrored runs one after the other are mirrored. -/
theorem Mirrored.trans {binds binds' : String → Prop} {s t s' u v u' : MatchState}
    (h : Mirrored ok known binds s t u v) (h' : Mirrored ok known binds' t s' v u') :
    Mirrored ok known binds' s s' u u' :=
  ⟨h'.alike, h'.value, h'.failed, h'.bound, h.late.trans h'.late⟩

/-- A mirrored run binds alike whatever is asked, if it failed or there is nothing to ask. -/
theorem Mirrored.binding {binds binds' : String → Prop} {s s' u u' : MatchState}
    (h : Mirrored ok known binds s s' u u')
    (hb : s'.failed = false → ∀ name, binds' name → binds name) :
    Mirrored ok known binds' s s' u u' :=
  ⟨h.alike, h.value, h.failed, fun good name hn => h.bound good name (hb good name hn), h.late⟩

/-- A run has a mirror image from every state that agrees with its own on what may be looked up: on
the names that are known, and on the seeds at the places where the run from that state meets
left-recursive bodies. -/
theorem Run.mirrored
    (rules : ∀ name body, callee name → g.body? name = some body → body.Knows callee known₀)
    {task : Task} {s s' : MatchState} (h : Run g input task s s') {u : MatchState}
    (base : ∀ name, known₀ name → known name) (knows : task.Knows callee known)
    (alike : Alike ok known s u) (agrees : task.Agrees ok s u) (sees : Sees g input ok task u) :
    ∃ u', Run g input task u u' ∧ Mirrored ok known (fun name => task.Binds name) s s' u u' := by
  induction h generalizing known u with
  | altsNil => exact ⟨_, .altsNil, (alike.fail none).binding fun h => by contradiction⟩
  | altsLast _ ih =>
    obtain ⟨u', run, mirror⟩ := ih base knows.1 alike trivial (sees.part .altsHead)
    exact ⟨u', .altsLast run, mirror.binding fun _ _ hn => hn.1⟩
  | altsTaken _ good ih =>
    obtain ⟨u', run, mirror⟩ := ih base knows.1 alike trivial (sees.part .altsHead)
    exact ⟨u', .altsTaken run (mirror.failed.trans good), mirror.binding fun _ _ hn => hn.1⟩
  | @altsNext start p q ps s s' s'' _ bad _ ih ihRest =>
    obtain ⟨t, run, first⟩ := ih base knows.1 alike trivial (sees.part .altsHead)
    have bad' : t.failed = true := first.failed.trans bad
    obtain ⟨u', runRest, rest⟩ :=
      ihRest base knows.2 (first.alike.move start) trivial (sees.part (.altsTail run bad'))
    exact ⟨u', .altsNext run bad' runRest,
      ((first.back start).trans rest).binding fun _ _ hn => hn.2⟩
  | @termsNil s =>
    exact ⟨u, .termsNil, alike, agrees.1, agrees.2, fun _ _ hn => hn.elim, Late.refl s u⟩
  | termsStop _ bad ih =>
    obtain ⟨u', run, mirror⟩ := ih base knows.1 alike trivial (sees.part .termsHead)
    refine ⟨u', .termsStop run (mirror.failed.trans bad), mirror.binding fun good => ?_⟩
    rw [bad] at good
    contradiction
  | @termsNext p ps s s' s'' _ good _ ih ihRest =>
    obtain ⟨t, run, first⟩ := ih base knows.1 alike trivial (sees.part .termsHead)
    have good' : t.failed = false := first.failed.trans good
    -- The rest of the terms may look up what the first has bound.
    obtain ⟨u', runRest, rest⟩ := ihRest (fun name hn => .inl (base name hn)) knows.2
      (first.more good) ⟨first.value, first.failed⟩ (sees.part (.termsTail run good'))
    refine ⟨u', .termsNext run good' runRest, rest.alike.fewer fun _ => .inl, rest.value,
      rest.failed, fun done name hn => ?_, first.late.trans rest.late⟩
    cases hn with
    | inl hn => exact rest.alike.lookup name (.inr hn)
    | inr hn => exact rest.bound done name hn
  | @repeatedStop inner items s s' _ bad ih =>
    obtain ⟨u', run, mirror⟩ := ih base knows alike trivial (sees.part .repeatedHead)
    exact ⟨_, .repeatedStop run (mirror.failed.trans bad), mirror.stopped alike.pos _⟩
  | @repeatedStill inner items s s' _ good still ih =>
    obtain ⟨u', run, mirror⟩ := ih base knows alike trivial (sees.part .repeatedHead)
    have still' : u'.pos = u.pos := by rw [mirror.alike.pos, alike.pos, still]
    refine ⟨_, .repeatedStill run (mirror.failed.trans good) still', ?_⟩
    rw [mirror.value]
    exact (mirror.given good _).binding fun _ _ hn => hn.elim
  | repeatedNext _ good moved _ ih ihRest =>
    obtain ⟨t, run, first⟩ := ih base knows alike trivial (sees.part .repeatedHead)
    have good' := first.failed.trans good
    have moved' : t.pos ≠ u.pos := by rwa [first.alike.pos, alike.pos]
    obtain ⟨u', runRest, rest⟩ := ihRest base knows first.alike trivial
      (first.value ▸ sees.part (.repeatedTail run good' moved'))
    exact ⟨u', .repeatedNext run good' moved' (first.value ▸ runRest), first.trans rest⟩
  | @growStop inner key s s' _ stop ih =>
    obtain ⟨u', run, mirror⟩ :=
      ih base knows (alike.move key.2) trivial (sees.part .growHead)
    have stop' : u'.outgrows key = false := by rw [← stop, mirror.outgrows agrees]
    exact ⟨u', .growStop run stop', mirror.alike, mirror.value, mirror.failed,
      fun _ _ hn => hn.elim, mirror.late⟩
  | @growNext inner key s s' s'' _ further _ ih ihRest =>
    obtain ⟨t, run, first⟩ :=
      ih base knows (alike.move key.2) trivial (sees.part .growHead)
    have further' : t.outgrows key = true := by rw [← further, first.outgrows agrees]
    obtain ⟨u', runRest, rest⟩ :=
      ihRest base knows (first.reseeded key) agrees (sees.part (.growTail run further'))
    refine ⟨u', .growNext run further' runRest, rest.alike, rest.value, rest.failed,
      fun _ _ hn => hn.elim, ?_⟩
    exact Late.trans (t := s') (v := t) first.late rest.late
  | @atom p s s' h =>
    have hreads : Scopes.AlikeOn p.reads s.scopes u.scopes := by
      intro name hn
      cases p with
      | pred e => exact (alike.lookup name (knows name hn)).symm
      | eq e => exact (alike.lookup name (knows name hn)).symm
      | action e => exact (alike.lookup name (knows name hn)).symm
      | _ => contradiction
    have hbinds (name : String) : ¬ p.Binds name := by
      cases p <;> first | contradiction | exact id
    obtain ⟨outcome, failure, effect, -, -⟩ := atom?_effect h
    rw [effect _ rfl fun _ _ => rfl, Option.some.injEq] at h
    subst h
    exact ⟨_, .atom (effect u alike.pos hreads),
      (alike.after _ _).binding fun _ name hn => hbinds name hn⟩
  | @choice alts s s' _ ih =>
    have sees' : Sees g input ok (.alts s.pos alts) u := alike.pos ▸ sees.part .choice
    obtain ⟨u', run, mirror⟩ := ih base knows alike trivial sees'
    rw [← alike.pos] at run
    exact ⟨u', .choice run, mirror⟩
  | seq _ ih =>
    obtain ⟨u', run, mirror⟩ := ih base knows (alike.succeed .null) ⟨rfl, rfl⟩ (sees.part .seq)
    exact ⟨u', .seq run, mirror.alike, mirror.value, mirror.failed, mirror.bound, mirror.late⟩
  | @scope rule ps s s' h ih =>
    obtain ⟨u', run, mirror⟩ := ih base knows alike.pushed ⟨rfl, rfl⟩ (sees.part .scope)
    exact ⟨_, .scope run, Mirrored.popped alike h run mirror⟩
  | label _ ih =>
    obtain ⟨u', run, mirror⟩ := ih base knows alike trivial (sees.part .label)
    exact ⟨_, .label run, mirror.labelled⟩
  | @seed inner rule s seed found =>
    have hkey : ok (rule, s.pos) := alike.pos ▸ sees.here
    have found' : u.seeds.get? (rule, u.pos) = some seed := by rw [alike.seed hkey, found]
    exact ⟨_, .seed found', alike.adopt seed⟩
  | @once inner rule s s' unseeded blocked _ ih =>
    have hkey : ok (rule, s.pos) := alike.pos ▸ sees.here
    have unseeded' : u.seeds.get? (rule, u.pos) = none := by rw [alike.seed hkey, unseeded]
    have blocked' : u.blocked.contains rule = true := by rw [alike.blocked, blocked]
    obtain ⟨u', run, mirror⟩ := ih base knows (alike.seeded rule) trivial
      (sees.part (.once unseeded' blocked'))
    exact ⟨_, .once unseeded' blocked' run, mirror.unseeded alike.pos⟩
  | @grown inner rule s s' unseeded unblocked _ ih =>
    have hkey : ok (rule, s.pos) := alike.pos ▸ sees.here
    have unseeded' : u.seeds.get? (rule, u.pos) = none := by rw [alike.seed hkey, unseeded]
    have unblocked' : u.blocked.contains rule = false := by rw [alike.blocked, unblocked]
    have sees' := sees.part (.grown unseeded' unblocked')
    rw [alike.pos] at sees'
    obtain ⟨u', run, mirror⟩ := ih base knows (alike.growing g rule) hkey sees'
    rw [← alike.pos] at run
    exact ⟨_, .grown unseeded' unblocked' run, Mirrored.grown alike hkey mirror⟩
  | @hit inner rule s entry found =>
    have found' : u.memo.get? (rule, u.pos) = some entry := by
      rw [alike.pos, alike.memo, found]
    exact ⟨_, .hit found', alike.after entry.outcome entry.furthest⟩
  | @miss inner rule s s' unknown _ ih =>
    have unknown' : u.memo.get? (rule, u.pos) = none := by rw [alike.pos, alike.memo, unknown]
    obtain ⟨u', run, mirror⟩ :=
      ih base knows alike.clean trivial (sees.part (.miss unknown'))
    exact ⟨_, .miss unknown' run, Mirrored.kept alike mirror⟩
  | @rule name body s s' found _ ih =>
    have knows' := Pattern.knows_mono base body (rules name body knows found)
    obtain ⟨u', run, mirror⟩ :=
      ih base knows' (alike.entering name) trivial (sees.part (.rule found))
    exact ⟨_, .rule found run, Mirrored.leaving alike mirror⟩
  | not _ ih =>
    obtain ⟨u', run, mirror⟩ := ih base knows alike.clean trivial (sees.part .not)
    exact ⟨_, .not run, mirror.looked alike⟩
  | opt _ ih =>
    obtain ⟨u', run, mirror⟩ := ih base knows alike trivial (sees.part .opt)
    exact ⟨_, .opt run, mirror.optional alike⟩
  | star _ ih =>
    obtain ⟨u', run, mirror⟩ := ih base knows alike trivial (sees.part .star)
    exact ⟨u', .star run, mirror⟩
  | plusStop _ bad ih =>
    obtain ⟨u', run, mirror⟩ := ih base knows alike trivial (sees.part .plusHead)
    exact ⟨u', .plusStop run (mirror.failed.trans bad), mirror⟩
  | @plusStill inner s s' _ good still ih =>
    obtain ⟨u', run, mirror⟩ := ih base knows alike trivial (sees.part .plusHead)
    have still' : u'.pos = u.pos := by rw [mirror.alike.pos, alike.pos, still]
    refine ⟨_, .plusStill run (mirror.failed.trans good) still', ?_⟩
    rw [mirror.value]
    exact mirror.given good _
  | @plusNext inner s s' s'' _ good moved _ ih ihRest =>
    obtain ⟨t, run, first⟩ := ih base knows alike trivial (sees.part .plusHead)
    have good' := first.failed.trans good
    have moved' : t.pos ≠ u.pos := by rwa [first.alike.pos, alike.pos]
    -- What the first repetition has bound is known to the others.
    obtain ⟨u', runRest, rest⟩ := ihRest (fun name hn => .inl (base name hn))
      (Pattern.knows_mono (fun _ => .inl) inner knows) (first.more good) trivial
      (first.value ▸ sees.part (.plusTail run good' moved'))
    exact ⟨u', .plusNext run good' moved' (first.value ▸ runRest),
      rest.alike.fewer fun _ => .inl, rest.value, rest.failed,
      fun _ name hn => rest.alike.lookup name (.inr hn), first.late.trans rest.late⟩
  | paren _ ih =>
    obtain ⟨u', run, mirror⟩ := ih base knows alike trivial (sees.part .paren)
    exact ⟨u', .paren run, mirror⟩
  | capture _ ih =>
    obtain ⟨u', run, mirror⟩ := ih base knows alike trivial (sees.part .capture)
    exact ⟨_, .capture run, mirror.captured alike⟩

/-! ## The mirror image of what a run comes to -/

/-- Two states agree as it takes for a task to run alike from both, with what is known by then. -/
structure Reflects (callee known₀ : String → Prop) (ok : RuleAt → Prop) (task : Task)
    (s u : MatchState) : Prop where
  agrees : task.Agrees ok s u
  alike : ∃ known : String → Prop, (∀ name, known₀ name → known name) ∧
    task.Knows callee known ∧ Alike ok known s u

/-- What a task comes to from one state it comes to from every state that agrees with it. -/
theorem Calls.mirrored
    (rules : ∀ name body, callee name → g.body? name = some body → body.Knows callee known₀)
    {task part : Task} {s t u : MatchState} (h : Calls g input task s part t)
    (reflects : Reflects callee known₀ ok task s u) (sees : Sees g input ok task u) :
    ∃ v, Calls g input task u part v ∧ Reflects callee known₀ ok part t v := by
  obtain ⟨agrees, known, base, knows, alike⟩ := reflects
  cases h with
  | altsHead => exact ⟨u, .altsHead, trivial, known, base, knows.1, alike⟩
  | altsTail h bad =>
    obtain ⟨v, run, first⟩ := h.mirrored rules base knows.1 alike trivial (sees.part .altsHead)
    exact ⟨_, .altsTail run (first.failed.trans bad), trivial, known, base, knows.2,
      first.alike.move _⟩
  | termsHead => exact ⟨u, .termsHead, trivial, known, base, knows.1, alike⟩
  | termsTail h good =>
    obtain ⟨v, run, first⟩ := h.mirrored rules base knows.1 alike trivial (sees.part .termsHead)
    exact ⟨v, .termsTail run (first.failed.trans good), ⟨first.value, first.failed⟩, _,
      fun name hn => .inl (base name hn), knows.2, first.more good⟩
  | repeatedHead => exact ⟨u, .repeatedHead, trivial, known, base, knows, alike⟩
  | repeatedTail h good moved =>
    obtain ⟨v, run, first⟩ := h.mirrored rules base knows alike trivial (sees.part .repeatedHead)
    have moved' : v.pos ≠ u.pos := by rwa [first.alike.pos, alike.pos]
    exact ⟨v, first.value ▸ .repeatedTail run (first.failed.trans good) moved', trivial, known,
      base, knows, first.alike⟩
  | @growHead inner key =>
    exact ⟨_, .growHead, trivial, known, base, knows, alike.move key.2⟩
  | @growTail inner key s s' h further =>
    obtain ⟨v, run, first⟩ :=
      h.mirrored rules base knows (alike.move key.2) trivial (sees.part .growHead)
    have further' : v.outgrows key = true := by
      rw [← further, first.outgrows agrees]
    exact ⟨_, .growTail run further', agrees, known, base, knows, first.reseeded key⟩
  | choice =>
    refine ⟨u, ?_, trivial, known, base, knows, alike⟩
    rw [← alike.pos]
    exact .choice
  | seq => exact ⟨_, .seq, ⟨rfl, rfl⟩, known, base, knows, alike.succeed .null⟩
  | scope => exact ⟨_, .scope, ⟨rfl, rfl⟩, known, base, knows, alike.pushed⟩
  | label => exact ⟨u, .label, trivial, known, base, knows, alike⟩
  | @once inner rule s unseeded blocked =>
    have hkey : ok (rule, s.pos) := alike.pos ▸ sees.here
    exact ⟨_, .once (by rw [alike.seed hkey, unseeded]) (by rw [alike.blocked, blocked]), trivial,
      known, base, knows, alike.seeded rule⟩
  | @grown inner rule s unseeded unblocked =>
    have hkey : ok (rule, s.pos) := alike.pos ▸ sees.here
    refine ⟨growing g rule u, ?_, hkey, known, base, knows, alike.growing g rule⟩
    rw [← alike.pos]
    exact .grown (by rw [alike.seed hkey, unseeded]) (by rw [alike.blocked, unblocked])
  | miss unknown =>
    exact ⟨_, .miss (by rw [alike.pos, alike.memo, unknown]), trivial, known, base, knows,
      alike.clean⟩
  | @rule name body _ found =>
    exact ⟨_, .rule found, trivial, known, base,
      Pattern.knows_mono base body (rules name body knows found), alike.entering name⟩
  | not =>
    exact ⟨_, .not, trivial, known, base, knows, alike.clean⟩
  | opt => exact ⟨u, .opt, trivial, known, base, knows, alike⟩
  | star => exact ⟨u, .star, trivial, known, base, knows, alike⟩
  | plusHead => exact ⟨u, .plusHead, trivial, known, base, knows, alike⟩
  | @plusTail inner s s' h good moved =>
    obtain ⟨v, run, first⟩ := h.mirrored rules base knows alike trivial (sees.part .plusHead)
    have moved' : v.pos ≠ u.pos := by rwa [first.alike.pos, alike.pos]
    exact ⟨v, first.value ▸ .plusTail run (first.failed.trans good) moved', trivial, known, base,
      knows, first.alike⟩
  | paren => exact ⟨u, .paren, trivial, known, base, knows, alike⟩
  | capture => exact ⟨u, .capture, trivial, known, base, knows, alike⟩

/-- Where a task meets left-recursive bodies from one state it meets them from every state that
agrees with it. -/
theorem Sees.mirrored
    (rules : ∀ name body, callee name → g.body? name = some body → body.Knows callee known₀)
    {task : Task} {s u : MatchState} (sees : Sees g input ok task u)
    (reflects : Reflects callee known₀ ok task s u) : Sees g input ok task s := by
  intro inner rule t h
  generalize hpart : Task.whole (.leftrec inner rule) = part at h
  induction h generalizing u with
  | refl =>
    subst hpart
    obtain ⟨-, known, -, -, alike⟩ := reflects
    exact alike.pos ▸ sees.here
  | step call _ ih =>
    obtain ⟨v, call', reflects'⟩ := call.mirrored rules reflects sees
    exact ih (sees.part call') reflects' hpart

/-- Whatever is so of an outcome of a task is so from both of two states or from neither, if they
agree on all names and on the seeds that the second run meets. -/
theorem exists_run_congr {task : Task} {s u : MatchState} {P : MatchState → Prop}
    (alike : Alike ok (fun _ => True) s u) (agrees : task.Agrees ok s u)
    (sees : Sees g input ok task u)
    (hP : ∀ v w : MatchState, v.outcome = w.outcome → (P v ↔ P w)) :
    (∃ s', Run g input task s s' ∧ P s') ↔ ∃ u', Run g input task u u' ∧ P u' := by
  have all (p : Pattern) : p.Knows (fun _ => True) fun _ => True :=
    Pattern.knows_of_all (fun _ => trivial) (fun _ => trivial) p
  have knows : task.Knows (fun _ => True) fun _ => True := by
    cases task with
    | alts _ ps => exact Pattern.knowsEach_of_all (fun _ => trivial) (fun _ => trivial) ps
    | terms ps => exact Pattern.knowsTerms_of_all (fun _ => trivial) (fun _ => trivial) ps
    | _ => exact all _
  have agrees' : task.Agrees ok u s := by
    cases task with
    | terms _ => exact ⟨agrees.1.symm, agrees.2.symm⟩
    | grow _ _ => exact agrees
    | _ => trivial
  have sees' : Sees g input ok task s := sees.mirrored
    (fun _ body _ _ => all body) ⟨agrees, fun _ => True, fun _ _ => trivial, knows, alike⟩
  constructor
  · rintro ⟨s', run, h⟩
    obtain ⟨u', run', mirror⟩ := run.mirrored (fun _ body _ _ => all body) (fun _ h => h) knows
      alike agrees sees
    exact ⟨u', run', (hP _ _ mirror.outcome).2 h⟩
  · rintro ⟨u', run, h⟩
    obtain ⟨s', run', mirror⟩ := run.mirrored (fun _ body _ _ => all body) (fun _ h => h) knows
      alike.symm agrees' sees'
    exact ⟨s', run', (hP _ _ mirror.outcome).2 h⟩

end Match

end Pegboard
