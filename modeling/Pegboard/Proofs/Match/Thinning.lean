import Mathlib.Data.List.Forall2
import Pegboard.Proofs.Grammar.Parts
import Pegboard.Proofs.Match.Counterpart
import Pegboard.Proofs.Match.Literal
import Pegboard.Proofs.Match.Simplification

/-!
# Alternatives that never match

A literal that comes after one of its prefixes among the alternatives of a choice never matches: it
is tried only where the prefix has failed, and it fails there as well, at the same character.  Such
alternatives may be missing.  With and without them a grammar gives the same values up to the same
offsets, and where it fails it tells the same offset.

What is said about the failure may differ.  Of several failures at one offset it is the last that is
remembered, and the one that is missing may have been the last.  Where a choice fails, the current
offset may differ as well, for it is left where the last alternative gave up.  But then a failure
has been recorded, and nobody looks at the offset.  So two runs are compared up to that.

## Main Definitions

* `Pattern.Thins`: in a pattern, literals are missing that come after one of their prefixes.
* `Told`: two outcomes differ at most in what is said about a failure.
* `Abreast`, `Arrived`: states before two runs and after them.

## Main Results

* `Run.thinned`: a run is followed by a run in the grammar where alternatives are missing.
-/

namespace Pegboard

/-! ## Missing alternatives -/

/-- The second pattern is the first one, apart from literals that are missing among the alternatives
after one of their prefixes.  A choice of a single literal may be the literal. -/
inductive Pattern.Thins : Pattern → Pattern → Prop where
  | missing {before after : List Pattern} {earlier later : String} (first : .lit earlier ∈ before)
      (starts : earlier.toList <+: later.toList) :
      Thins (.choice (before ++ .lit later :: after)) (.choice (before ++ after))
  | sole {earlier later : String} (starts : earlier.toList <+: later.toList) :
      Thins (.choice [.lit earlier, .lit later]) (.lit earlier)
  | choice {ps qs} (h : List.Forall₂ Thins ps qs) : Thins (.choice ps) (.choice qs)
  | seq {ps qs} (h : List.Forall₂ Thins ps qs) : Thins (.seq ps) (.seq qs)
  | scope {rule ps qs} (h : List.Forall₂ Thins ps qs) : Thins (.scope rule ps) (.scope rule qs)
  | label {name p q} (h : Thins p q) : Thins (.label p name) (.label q name)
  | leftrec {rule p q} (h : Thins p q) : Thins (.leftrec p rule) (.leftrec q rule)
  | memo {rule p q} (h : Thins p q) : Thins (.memo p rule) (.memo q rule)
  | not {p q} (h : Thins p q) : Thins (.not p) (.not q)
  | opt {p q} (h : Thins p q) : Thins (.opt p) (.opt q)
  | star {p q} (h : Thins p q) : Thins (.star p) (.star q)
  | plus {p q} (h : Thins p q) : Thins (.plus p) (.plus q)
  | paren {p q} (h : Thins p q) : Thins (.paren p) (.paren q)
  | capture {p q} (h : Thins p q) : Thins (.capture p) (.capture q)
  | apply (name) : Thins (.apply name) (.apply name)
  | lit (text) : Thins (.lit text) (.lit text)
  | range (lo hi) : Thins (.range lo hi) (.range lo hi)
  | pred (e) : Thins (.pred e) (.pred e)
  | eq (e) : Thins (.eq e) (.eq e)
  | action (e) : Thins (.action e) (.action e)
  | pos : Thins .pos .pos
  | empty : Thins .empty .empty

namespace Pattern

theorem thins_self (p : Pattern) : p.Thins p := by
  induction p using induction_parts with
  | node p ih =>
    have each {ps : List Pattern} (h : ∀ q ∈ ps, q.Thins q) : List.Forall₂ Thins ps ps :=
      List.forall₂_same.2 h
    cases p with
    | choice => exact .choice (each ih)
    | seq => exact .seq (each ih)
    | scope => exact .scope (each ih)
    | label => exact .label (ih _ (.head _))
    | leftrec => exact .leftrec (ih _ (.head _))
    | memo => exact .memo (ih _ (.head _))
    | not => exact .not (ih _ (.head _))
    | opt => exact .opt (ih _ (.head _))
    | star => exact .star (ih _ (.head _))
    | plus => exact .plus (ih _ (.head _))
    | paren => exact .paren (ih _ (.head _))
    | capture => exact .capture (ih _ (.head _))
    | apply name => exact .apply name
    | lit text => exact .lit text
    | range lo hi => exact .range lo hi
    | pred e => exact .pred e
    | eq e => exact .eq e
    | action e => exact .action e
    | pos => exact .pos
    | empty => exact .empty

theorem thins_all (ps : List Pattern) : List.Forall₂ Thins ps ps :=
  List.forall₂_same.2 fun p _ => p.thins_self

end Pattern

namespace Match

variable {g g' : Grammar} {input : Array Char} {s u s' u' : MatchState}

/-! ## Failures at the same offset -/

theorem pos_merge_congr {a b a' b' : Option Failure} (h : a'.map Failure.pos = a.map Failure.pos)
    (h' : b'.map Failure.pos = b.map Failure.pos) :
    (Failure.merge a' b').map Failure.pos = (Failure.merge a b).map Failure.pos := by
  rcases a with _ | a <;> rcases a' with _ | a' <;> simp at h <;>
    rcases b with _ | b <;> rcases b' with _ | b' <;> simp at h'
  · rfl
  · exact congrArg some h'
  · exact congrArg some h
  · simp only [Failure.merge, h, h']
    split
    · exact congrArg some h'
    · exact congrArg some h

theorem merge_eq_none {a b : Option Failure} (h : Failure.merge a b = none) :
    a = none ∧ b = none := by
  rcases a with _ | a <;> rcases b with _ | b
  · exact ⟨rfl, rfl⟩
  · contradiction
  · contradiction
  · rw [Failure.merge] at h
    split at h <;> contradiction

/-- A failure that is no further than one that is remembered changes nothing but what is said. -/
theorem pos_merge_of_le {a b : Failure} (h : b.pos ≤ a.pos) :
    (Failure.merge (some a) (some b)).map Failure.pos = some a.pos := by
  rw [Failure.merge]
  split
  · next le => exact congrArg some (Nat.le_antisymm h le)
  · rfl

/-- What is remembered of failures never recedes. -/
theorem exists_merge_left {a b : Option Failure} {f : Failure} (h : f ∈ a) :
    ∃ f' ∈ Failure.merge a b, f.pos ≤ f'.pos := by
  obtain rfl := Option.mem_def.1 h
  cases b with
  | none => exact ⟨f, rfl, Nat.le_refl _⟩
  | some b =>
    rw [Failure.merge]
    split
    · next le => exact ⟨b, rfl, le⟩
    · exact ⟨f, rfl, Nat.le_refl _⟩

/-- A failure is remembered, unless there is one that is further. -/
theorem exists_merge_right (a : Option Failure) (b : Failure) :
    ∃ f ∈ Failure.merge a (some b), b.pos ≤ f.pos := by
  cases a with
  | none => exact ⟨b, rfl, Nat.le_refl _⟩
  | some a =>
    rw [Failure.merge]
    split
    · exact ⟨b, rfl, Nat.le_refl _⟩
    · exact ⟨a, rfl, by omega⟩

/-- Whatever a pattern does, the failures that it meets are added to those before. -/
theorem Run.late {p : Pattern} (h : Run g input (.whole p) s s') :
    ∃ later, s'.furthest = Failure.merge s.furthest later := by
  have all (q : Pattern) : q.Knows (fun _ => True) fun _ => True :=
    Pattern.knows_of_all (fun _ => trivial) (fun _ => trivial) q
  obtain ⟨u, -, mirror⟩ := h.mirrored (fun _ body _ _ => all body) (fun _ h => h) (all p)
    (Alike.refl (fun _ => True) _ s) trivial fun _ _ _ _ => trivial
  obtain ⟨later, hlater, -⟩ := mirror.late
  exact ⟨later, hlater⟩

/-! ## States that differ in what is said about failures -/

/-- Two outcomes, with the furthest failures on the way to them, differ at most in what is said
about a failure: in its cause, and in the current offset if the outcome is a failure that is
recorded. -/
structure Told (o : Outcome) (f : Option Failure) (o' : Outcome) (f' : Option Failure) : Prop where
  failed : o'.failed = o.failed
  value : o.failed = false → o'.value = o.value
  pos : o.failed = false ∨ f = none → o'.pos = o.pos
  furthest : f'.map Failure.pos = f.map Failure.pos

/-- Two outcomes that were kept differ at most in what is said about a failure. -/
def KeptAlike (e e' : MemoEntry) : Prop := Told e.outcome e.furthest e'.outcome e'.furthest

/-- Two states agree on the bindings, the seeds and the blocked rules, and on what is told of the
kept outcomes. -/
structure Near (s u : MatchState) : Prop where
  scopes : u.scopes = s.scopes
  seeds : u.seeds = s.seeds
  blocked : u.blocked = s.blocked
  memo : ∀ key, Option.Rel KeptAlike (s.memo.get? key) (u.memo.get? key)

/-- Two states from which a task is to run alike. -/
structure Abreast (s u : MatchState) : Prop where
  near : Near s u
  pos : u.pos = s.pos
  furthest : u.furthest.map Failure.pos = s.furthest.map Failure.pos

/-- Two states in which runs of a task have ended alike. -/
structure Arrived (s u : MatchState) : Prop where
  near : Near s u
  told : Told s.outcome s.furthest u.outcome u.furthest

theorem told_same (o : Outcome) {f f' : Option Failure}
    (h : f'.map Failure.pos = f.map Failure.pos) : Told o f o f' :=
  ⟨rfl, fun _ => rfl, fun _ => rfl, h⟩

namespace Abreast

theorem refl (s : MatchState) : Abreast s s where
  near := ⟨rfl, rfl, rfl, fun key => by
    cases s.memo.get? key with
    | none => exact .none
    | some e => exact .some (told_same e.outcome rfl)⟩
  pos := rfl
  furthest := rfl

theorem move (h : Abreast s u) (pos : Nat) : Abreast { s with pos := pos } { u with pos := pos } :=
  ⟨⟨h.near.scopes, h.near.seeds, h.near.blocked, h.near.memo⟩, rfl, h.furthest⟩

/-- The states before a part whose failures are recorded apart. -/
theorem clean (h : Abreast s u) :
    Abreast { s with furthest := none } { u with furthest := none } :=
  ⟨⟨h.near.scopes, h.near.seeds, h.near.blocked, h.near.memo⟩, h.pos, rfl⟩

theorem succeed (h : Abreast s u) (value : Value) :
    Abreast (s.succeed value) (u.succeed value) :=
  ⟨⟨h.near.scopes, h.near.seeds, h.near.blocked, h.near.memo⟩, h.pos, h.furthest⟩

theorem pushed (h : Abreast s u) :
    Abreast ({ s with scopes := s.scopes.push }.succeed .null)
      ({ u with scopes := u.scopes.push }.succeed .null) :=
  ⟨⟨congrArg Scopes.push h.near.scopes, h.near.seeds, h.near.blocked, h.near.memo⟩, h.pos,
    h.furthest⟩

theorem seeded (h : Abreast s u) (rule : String) : Abreast (s.seeded rule) (u.seeded rule) := by
  refine ⟨⟨h.near.scopes, ?_, h.near.blocked, h.near.memo⟩, h.pos, h.furthest⟩
  rw [MatchState.seeded, MatchState.seeded, h.pos, h.near.seeds]

theorem growing (h : Abreast s u) (rule : String)
    (assoc : g'.isLeftAssoc rule = g.isLeftAssoc rule) :
    Abreast (growing g rule s) (Match.growing g' rule u) := by
  have seeded := h.seeded rule
  refine ⟨⟨seeded.near.scopes, seeded.near.seeds, ?_, seeded.near.memo⟩, seeded.pos,
    seeded.furthest⟩
  show (if _ then rule :: u.blocked else u.blocked) = if _ then rule :: s.blocked else s.blocked
  rw [assoc, h.near.blocked]

theorem entering (h : Abreast s u) (rule : String) :
    Abreast (s.entering rule) (u.entering rule) := by
  unfold MatchState.entering
  rw [h.near.blocked]
  split
  · exact h
  · exact ⟨⟨h.near.scopes, h.near.seeds, rfl, h.near.memo⟩, h.pos, h.furthest⟩

/-- Coming to one outcome with one further failure. -/
theorem after (h : Abreast s u) (outcome : Outcome) (failure : Option Failure) :
    Arrived (s.after outcome failure) (u.after outcome failure) :=
  ⟨⟨h.near.scopes, h.near.seeds, h.near.blocked, h.near.memo⟩,
    told_same outcome (pos_merge_congr h.furthest rfl)⟩

theorem fail (h : Abreast s u) (cause : Option FailureCause) :
    Arrived (s.fail cause) (u.fail cause) := by
  rw [MatchState.fail_eq_after, MatchState.fail_eq_after, h.pos]
  exact h.after _ _

/-- Two states abreast with one outcome have arrived. -/
theorem arrived (h : Abreast s u) (value : u.value = s.value) (failed : u.failed = s.failed) :
    Arrived s u :=
  ⟨h.near, failed, fun _ => value, fun _ => h.pos, h.furthest⟩

/-- Taking over outcomes that are told alike. -/
theorem hit (h : Abreast s u) {e e' : MemoEntry} (told : KeptAlike e e') :
    Arrived ((s.adopt e.outcome).mergeFailure e.furthest)
      ((u.adopt e'.outcome).mergeFailure e'.furthest) where
  near := ⟨h.near.scopes, h.near.seeds, h.near.blocked, h.near.memo⟩
  told := ⟨told.failed, told.value, fun hpos => told.pos (hpos.imp_right fun none =>
    (merge_eq_none none).2), pos_merge_congr h.furthest told.furthest⟩

/-- What is found at one place in the kept outcomes of both. -/
theorem kept? (h : Abreast s u) (rule : String) :
    Option.Rel KeptAlike (s.memo.get? (rule, s.pos)) (u.memo.get? (rule, u.pos)) :=
  h.pos ▸ h.near.memo (rule, s.pos)

end Abreast

namespace Arrived

theorem failed (h : Arrived s u) : u.failed = s.failed := h.told.failed

theorem value (h : Arrived s u) (good : s.failed = false) : u.value = s.value := h.told.value good

theorem pos (h : Arrived s u) (good : s.failed = false) : u.pos = s.pos := h.told.pos (.inl good)

/-- A run that succeeds may be gone on from. -/
theorem abreast (h : Arrived s u) (good : s.failed = false) : Abreast s u :=
  ⟨h.near, h.pos good, h.told.furthest⟩

/-- Whoever goes back after a run finds two states alike. -/
theorem back (h : Arrived s u) (pos : Nat) :
    Abreast { s with pos := pos } { u with pos := pos } :=
  ⟨⟨h.near.scopes, h.near.seeds, h.near.blocked, h.near.memo⟩, rfl, h.told.furthest⟩

theorem succeed (h : Arrived s u) (pos : Nat) (value : Value) :
    Arrived ({ s with pos := pos }.succeed value) ({ u with pos := pos }.succeed value) :=
  ⟨⟨h.near.scopes, h.near.seeds, h.near.blocked, h.near.memo⟩,
    told_same _ h.told.furthest⟩

theorem outgrows (h : Arrived s u) (key : RuleAt) : u.outgrows key = s.outgrows key := by
  rw [MatchState.outgrows, MatchState.outgrows, h.near.seeds, h.failed]
  cases hs : s.failed with
  | true => rfl
  | false => rw [h.pos hs]

theorem reseeded (h : Arrived s u) (good : s.failed = false) (key : RuleAt) :
    Abreast (s.reseeded key) (u.reseeded key) := by
  have same : u.outcome = s.outcome := by
    rw [MatchState.outcome, MatchState.outcome, h.value good, h.failed, h.pos good]
  refine ⟨⟨h.near.scopes, ?_, h.near.blocked, h.near.memo⟩, h.pos good, h.told.furthest⟩
  rw [MatchState.reseeded, MatchState.reseeded, same, h.near.seeds]

theorem unseeded (h : Arrived s u) (key : RuleAt) :
    Arrived { s with seeds := s.seeds.erase key } { u with seeds := u.seeds.erase key } :=
  ⟨⟨h.near.scopes, congrArg (Table.erase · key) h.near.seeds, h.near.blocked,
    h.near.memo⟩, h.told⟩

theorem grown {rule : String} (h : Arrived s' u') (pos : u.pos = s.pos)
    (assoc : g'.isLeftAssoc rule = g.isLeftAssoc rule) :
    Arrived (grown g rule s s') (Match.grown g' rule u u') := by
  refine ⟨⟨h.near.scopes, ?_, ?_, h.near.memo⟩, ?_⟩
  · show u'.seeds.erase (rule, u.pos) = s'.seeds.erase (rule, s.pos)
    rw [h.near.seeds, pos]
  · show (if _ then u'.blocked.erase rule else u'.blocked)
      = if _ then s'.blocked.erase rule else s'.blocked
    rw [assoc, h.near.blocked]
  · have same : (u'.seeds.get? (rule, u.pos)).getD (.failing u.pos)
        = (s'.seeds.get? (rule, s.pos)).getD (.failing s.pos) := by rw [h.near.seeds, pos]
    show Told ((s'.seeds.get? (rule, s.pos)).getD (.failing s.pos)) s'.furthest
      ((u'.seeds.get? (rule, u.pos)).getD (.failing u.pos)) u'.furthest
    rw [same]
    exact told_same _ h.told.furthest

theorem labelled (h : Arrived s u) (name : String) :
    Arrived (s.labelled name) (u.labelled name) := by
  unfold MatchState.labelled
  rw [h.failed]
  split
  · exact h
  · next good =>
    have good : s.failed = false := by simpa using good
    refine ⟨⟨?_, h.near.seeds, h.near.blocked, h.near.memo⟩, rfl, h.told.value, h.told.pos,
      h.told.furthest⟩
    show u.scopes.bind name u.value = s.scopes.bind name s.value
    rw [h.near.scopes, h.value good]

theorem popped (h : Arrived s u) :
    Arrived { s with scopes := s.scopes.pop } { u with scopes := u.scopes.pop } :=
  ⟨⟨congrArg Scopes.pop h.near.scopes, h.near.seeds, h.near.blocked, h.near.memo⟩, h.told⟩

theorem leaving (h : Arrived s' u') (around : Near s u) (rule : String) :
    Arrived (s.leaving rule s') (u.leaving rule u') := by
  unfold MatchState.leaving
  rw [around.blocked]
  split
  · exact h
  · exact ⟨⟨h.near.scopes, h.near.seeds, rfl, h.near.memo⟩, h.told⟩

theorem looked (h : Arrived s' u') (start : Abreast s u) :
    Arrived (looked s s') (Match.looked u u') := by
  have back : Abreast { s' with furthest := s.furthest, pos := s.pos }
      { u' with furthest := u.furthest, pos := u.pos } :=
    ⟨⟨h.near.scopes, h.near.seeds, h.near.blocked, h.near.memo⟩, start.pos,
      start.furthest⟩
  unfold Match.looked
  rw [h.failed]
  split
  · exact ⟨(back.succeed .null).near, start.pos ▸ told_same _ start.furthest⟩
  · exact back.fail none

theorem optional (h : Arrived s' u') (pos : u.pos = s.pos) :
    Arrived (optional s s') (Match.optional u u') := by
  unfold Match.optional
  rw [h.failed, pos]
  split
  · exact h.succeed s.pos .null
  · exact h

theorem captured (h : Arrived s' u') (pos : u.pos = s.pos) :
    Arrived (captured input s s') (Match.captured input u u') := by
  unfold Match.captured
  rw [h.failed]
  split
  · exact h
  · next good =>
    have good : s'.failed = false := by simpa using good
    have pos' : u'.pos = s'.pos := h.pos good
    rw [pos, pos']
    refine ⟨⟨h.near.scopes, h.near.seeds, h.near.blocked, h.near.memo⟩, ?_⟩
    exact ⟨rfl, fun _ => rfl, fun _ => pos', h.told.furthest⟩

/-- What is kept of two outcomes that are told alike. -/
theorem kept (h : Arrived s' u') (start : Abreast s u) (rule : String) :
    Arrived (kept rule s s') (Match.kept rule u u') := by
  refine ⟨⟨h.near.scopes, h.near.seeds, h.near.blocked, fun key => ?_⟩, ?_⟩
  · show Option.Rel KeptAlike ((s'.memo.insert (rule, s.pos) _).get? key)
      ((u'.memo.insert (rule, u.pos) _).get? key)
    rw [start.pos]
    by_cases hkey : key = (rule, s.pos)
    · rw [hkey, Table.get?_insert_self, Table.get?_insert_self]
      exact .some h.told
    · rw [Table.get?_insert_of_ne _ _ hkey, Table.get?_insert_of_ne _ _ hkey]
      exact h.near.memo key
  · exact ⟨h.failed, h.told.value, fun hpos => h.told.pos (hpos.imp_right fun none =>
      (merge_eq_none none).2), pos_merge_congr start.furthest h.told.furthest⟩

end Arrived

/-! ## Literals behind a prefix -/

theorem literalFrom_of_starts {cs cs' : List Char} (starts : cs <+: cs') {pos : Nat}
    (h : ¬ cs <+: input.toList.drop pos) : ∃ miss, ∀ (text : String) (s : MatchState),
      literalFrom input text pos cs s = s.failAt miss none ∧
        literalFrom input text pos cs' s = s.failAt miss none := by
  induction cs generalizing pos cs' with
  | nil => exact absurd List.nil_prefix h
  | cons c cs ih =>
    obtain ⟨rest, rfl⟩ := starts
    by_cases hc : input[pos]? = some c
    · obtain ⟨miss, hmiss⟩ := ih (List.prefix_append cs rest)
        fun hcs => h (cons_prefix_drop_iff.2 ⟨hc, hcs⟩)
      refine ⟨miss, fun text s => ?_⟩
      rw [literalFrom, if_pos hc, List.cons_append, literalFrom, if_pos hc]
      exact hmiss text s
    · refine ⟨pos, fun text s => ?_⟩
      rw [literalFrom, if_neg hc, List.cons_append, literalFrom, if_neg hc]
      exact ⟨rfl, rfl⟩

/-- The literal `later` fails at the current offset, no further than a failure that is recorded. -/
def Hopeless (input : Array Char) (later : String) (s : MatchState) : Prop :=
  ∃ miss, (∃ f ∈ s.furthest, miss ≤ f.pos) ∧
    ∀ t : MatchState, t.pos = s.pos → literal input later t = t.failAt miss none

/-- Where a literal has failed, every literal that begins with it fails as well. -/
theorem hopeless_of_starts {earlier later : String} (starts : earlier.toList <+: later.toList)
    (run : Run g input (.whole (.lit earlier)) s s') (bad : s'.failed = true) :
    Hopeless input later { s' with pos := s.pos } := by
  cases run with
  | atom h =>
    have h : literal input earlier s = s' := Option.some.inj h
    have missing : ¬ Stands input earlier s.pos := by
      intro stands
      rw [literal_of_stands stands] at h
      subst h
      contradiction
    obtain ⟨miss, hmiss⟩ := literalFrom_of_starts starts missing
    rw [literal, (hmiss earlier s).1] at h
    subst h
    refine ⟨miss, exists_merge_right s.furthest _, fun t ht => ?_⟩
    rw [literal, ht]
    exact (hmiss later t).2

namespace Hopeless

variable {later : String}

/-- A literal is as hopeless after another alternative has failed. -/
theorem after_run (h : Hopeless input later s) {p : Pattern} (run : Run g input (.whole p) s s') :
    Hopeless input later { s' with pos := s.pos } := by
  obtain ⟨miss, ⟨f, hf, le⟩, fails⟩ := h
  obtain ⟨more, hmore⟩ := run.late
  obtain ⟨f', hf', le'⟩ := exists_merge_left (b := more) hf
  exact ⟨miss, ⟨f', hmore ▸ hf', Nat.le_trans le le'⟩, fails⟩

/-- A hopeless literal fails, and it leaves nothing behind but what is said about failures. -/
theorem unnoticed (h : Hopeless input later s) (run : Run g input (.whole (.lit later)) s s')
    (near : Near s u) (furthest : u.furthest.map Failure.pos = s.furthest.map Failure.pos) :
    s'.failed = true ∧ s'.furthest ≠ none ∧ Near s' u ∧
      u.furthest.map Failure.pos = s'.furthest.map Failure.pos := by
  obtain ⟨miss, ⟨f, hf, le⟩, fails⟩ := h
  obtain hf := Option.mem_def.1 hf
  cases run with
  | atom run =>
    have run : literal input later s = s' := Option.some.inj run
    rw [fails s rfl] at run
    subst run
    have same : (Failure.merge s.furthest (some ⟨miss, none⟩)).map Failure.pos
        = s.furthest.map Failure.pos := by
      rw [hf]
      exact pos_merge_of_le le
    refine ⟨rfl, fun none => ?_, ⟨near.scopes, near.seeds, near.blocked, near.memo⟩,
      furthest.trans same.symm⟩
    have recorded := (merge_eq_none none).1
    rw [hf] at recorded
    contradiction

/-- A hopeless literal fails, and a run that goes back after it is abreast of one that was never
given it. -/
theorem passed (h : Hopeless input later s) (run : Run g input (.whole (.lit later)) s s')
    (abreast : Abreast s u) : s'.failed = true ∧ Abreast { s' with pos := s.pos } u := by
  obtain ⟨bad, -, near, furthest⟩ := h.unnoticed run abreast.near abreast.furthest
  exact ⟨bad, ⟨near.scopes, near.seeds, near.blocked, near.memo⟩, abreast.pos, furthest⟩

/-- A hopeless literal after a failure makes no difference to where a run has arrived. -/
theorem arrived {pos : Nat} (h : Hopeless input later { s with pos := pos })
    (run : Run g input (.whole (.lit later)) { s with pos := pos } s') (bad : s.failed = true)
    (first : Arrived s u) : Arrived s' u := by
  obtain ⟨failed, recorded, near, furthest⟩ := h.unnoticed run
    ⟨first.near.scopes, first.near.seeds, first.near.blocked, first.near.memo⟩
    first.told.furthest
  have failed' : u.failed = true := first.failed.trans bad
  have notGood : s'.outcome.failed ≠ false := by
    rw [show s'.outcome.failed = true from failed]
    exact Bool.noConfusion
  exact ⟨near, failed'.trans failed.symm, fun good => absurd good notGood,
    fun hpos => (hpos.elim notGood recorded).elim, furthest⟩

end Hopeless

/-- The literal `later` is behind alternatives of which one is a prefix of it, or one was and has
failed. -/
def Doomed (input : Array Char) (before : List Pattern) (later : String) (s : MatchState) : Prop :=
  (∃ earlier, .lit earlier ∈ before ∧ earlier.toList <+: later.toList) ∨ Hopeless input later s

theorem Doomed.hopeless {later : String} (h : Doomed input [] later s) : Hopeless input later s :=
  h.resolve_left fun ⟨_, first, _⟩ => by contradiction

theorem Doomed.next {p : Pattern} {before : List Pattern} {later : String}
    (h : Doomed input (p :: before) later s) (run : Run g input (.whole p) s s')
    (bad : s'.failed = true) : Doomed input before later { s' with pos := s.pos } := by
  rcases h with ⟨earlier, first, starts⟩ | hopeless
  · rcases List.mem_cons.1 first with rfl | first
    · exact .inr (hopeless_of_starts starts run bad)
    · exact .inl ⟨earlier, first, starts⟩
  · exact .inr (hopeless.after_run run)

/-! ## Runs -/

/-- Two tasks, to be carried out in the states `s` and `u`, are the same apart from alternatives
that are missing in the second. -/
inductive Task.Thins (input : Array Char) (s u : MatchState) : Task → Task → Prop where
  | whole {p q} (h : p.Thins q) : Thins input s u (.whole p) (.whole q)
  | alts {start ps qs} (here : s.pos = start) (h : List.Forall₂ Pattern.Thins ps qs) :
      Thins input s u (.alts start ps) (.alts start qs)
  | fewer {start before later after ps qs} (here : s.pos = start)
      (doomed : Doomed input before later s) (ne : qs ≠ [])
      (hps : ps = before ++ .lit later :: after) (hqs : qs = before ++ after) :
      Thins input s u (.alts start ps) (.alts start qs)
  | terms {ps qs} (value : u.value = s.value) (failed : u.failed = s.failed)
      (h : List.Forall₂ Pattern.Thins ps qs) : Thins input s u (.terms ps) (.terms qs)
  | repeated {p q items} (h : p.Thins q) :
      Thins input s u (.repeated p items) (.repeated q items)
  | grow {p q key} (h : p.Thins q) : Thins input s u (.grow p key) (.grow q key)

/-- Two grammars are the same apart from alternatives that are missing in the second. -/
structure GrammarThins (g g' : Grammar) : Prop where
  assoc : g'.leftAssoc = g.leftAssoc
  body? : ∀ name, Option.Rel Pattern.Thins (g.body? name) (g'.body? name)

theorem GrammarThins.isLeftAssoc (h : GrammarThins g g') (rule : String) :
    g'.isLeftAssoc rule = g.isLeftAssoc rule := by
  rw [Grammar.isLeftAssoc, Grammar.isLeftAssoc, h.assoc]

theorem GrammarThins.unknown (h : GrammarThins g g') {name : String}
    (missing : g.body? name = none) : g'.body? name = none := by
  rcases none_or_some_of_rel (h.body? name) with ⟨-, missing'⟩ | ⟨_, _, found, -⟩
  · exact missing'
  · rw [missing] at found
    contradiction

theorem GrammarThins.found (h : GrammarThins g g') {name : String} {body : Pattern}
    (found : g.body? name = some body) :
    ∃ body', g'.body? name = some body' ∧ body.Thins body' := by
  rcases none_or_some_of_rel (h.body? name) with ⟨missing, -⟩ | ⟨_, body', known, found', thins⟩
  · rw [missing] at found
    contradiction
  · cases found.symm.trans known
    exact ⟨body', found', thins⟩

/-- A pattern without parts has no alternatives that could be missing. -/
theorem eq_of_atom? {p q : Pattern} (thins : p.Thins q) (h : atom? g input p s = some s') :
    q = p := by
  cases thins <;> first | rfl | contradiction

/-- **A run is followed where alternatives are missing.**  What a task does in a grammar, the same
task does in the grammar without literals that come after one of their prefixes, up to what is said
about failures. -/
theorem Run.thinned (grammar : GrammarThins g g') {task task' : Task}
    (h : Run g input task s s') (thins : task.Thins input s u task') (abreast : Abreast s u) :
    ∃ u', Run g' input task' u u' ∧ Arrived s' u' := by
  induction h generalizing u task' with
  | altsNil =>
    cases thins with
    | alts _ h =>
      cases h
      exact ⟨_, .altsNil, abreast.fail none⟩
    | fewer _ _ _ hps _ => simp at hps
  | altsLast _ ih =>
    cases thins with
    | alts _ h =>
      obtain _ | ⟨hp, rest⟩ := h
      cases rest
      obtain ⟨u', run, arrived⟩ := ih (.whole hp) abreast
      exact ⟨u', .altsLast run, arrived⟩
    | @fewer _ before later after _ _ _ _ ne hps hqs =>
      -- Something is left, so the literal cannot be the only alternative.
      cases before with
      | nil =>
        obtain ⟨-, rfl⟩ := List.cons.inj hps
        exact absurd hqs ne
      | cons b before => simp at hps
  | altsTaken run good ih =>
    cases thins with
    | alts _ h =>
      obtain _ | ⟨hp, _ | ⟨hq, rest⟩⟩ := h
      obtain ⟨u', run, arrived⟩ := ih (.whole hp) abreast
      exact ⟨u', .altsTaken run (arrived.failed.trans good), arrived⟩
    | @fewer _ before later after _ qs here doomed ne hps hqs =>
      cases before with
      | nil =>
        obtain ⟨rfl, -⟩ := List.cons.inj hps
        have bad := (doomed.hopeless.passed run abreast).1
        rw [good] at bad
        contradiction
      | cons b before =>
        obtain ⟨rfl, -⟩ := List.cons.inj hps
        obtain ⟨u', run', arrived⟩ := ih (.whole (Pattern.thins_self _)) abreast
        rw [hqs, List.cons_append]
        exact ⟨u', run'.taken (arrived.failed.trans good), arrived⟩
  | @altsNext start p q ps s s' s'' run bad rest ih ihRest =>
    cases thins with
    | alts here h =>
      obtain _ | ⟨hp, _ | ⟨hq, hps⟩⟩ := h
      obtain ⟨t, run, first⟩ := ih (.whole hp) abreast
      obtain ⟨u', runRest, arrived⟩ := ihRest (.alts rfl (.cons hq hps)) (first.back start)
      exact ⟨u', .altsNext run (first.failed.trans bad) runRest, arrived⟩
    | @fewer _ before later after _ qs here doomed ne hps hqs =>
      subst here
      cases before with
      | nil =>
        -- The literal has failed, and the alternatives after it are all there.
        obtain ⟨rfl, rfl⟩ := List.cons.inj hps
        rw [hqs]
        exact ihRest (.alts rfl (Pattern.thins_all _)) (doomed.hopeless.passed run abreast).2
      | cons b before =>
        obtain ⟨rfl, hrest⟩ := List.cons.inj hps
        obtain ⟨t, run', first⟩ := ih (.whole (Pattern.thins_self _)) abreast
        have doomed := doomed.next run bad
        rw [hqs, List.cons_append]
        cases hleft : before ++ after with
        | nil =>
          -- The literal is the last alternative, and the one before it is now.
          obtain ⟨rfl, rfl⟩ := List.append_eq_nil_iff.1 hleft
          obtain ⟨rfl, rfl⟩ := List.cons.inj hrest
          have last : Run g input (.whole (.lit later)) { s' with pos := s.pos } s'' := by
            cases rest with
            | altsLast last => exact last
          exact ⟨t, .altsLast run', doomed.hopeless.arrived last bad first⟩
        | cons q' qs' =>
          obtain ⟨u', runRest, arrived⟩ :=
            ihRest (.fewer rfl doomed (List.cons_ne_nil _ _) hrest hleft.symm)
              (first.back s.pos)
          exact ⟨u', .altsNext run' (first.failed.trans bad) runRest, arrived⟩
  | termsNil =>
    cases thins with
    | terms value failed h =>
      cases h
      exact ⟨u, .termsNil, abreast.arrived value failed⟩
  | termsStop _ bad ih =>
    cases thins with
    | terms _ _ h =>
      obtain _ | ⟨hp, rest⟩ := h
      obtain ⟨u', run, arrived⟩ := ih (.whole hp) abreast
      exact ⟨u', .termsStop run (arrived.failed.trans bad), arrived⟩
  | termsNext _ good _ ih ihRest =>
    cases thins with
    | terms _ _ h =>
      obtain _ | ⟨hp, rest⟩ := h
      obtain ⟨t, run, first⟩ := ih (.whole hp) abreast
      obtain ⟨u', runRest, arrived⟩ :=
        ihRest (.terms (first.value good) first.failed rest) (first.abreast good)
      exact ⟨u', .termsNext run (first.failed.trans good) runRest, arrived⟩
  | repeatedStop _ bad ih =>
    cases thins with
    | repeated hp =>
      obtain ⟨u', run, arrived⟩ := ih (.whole hp) abreast
      refine ⟨_, .repeatedStop run (arrived.failed.trans bad), ?_⟩
      rw [abreast.pos]
      exact arrived.succeed _ _
  | repeatedStill _ good still ih =>
    cases thins with
    | repeated hp =>
      obtain ⟨u', run, arrived⟩ := ih (.whole hp) abreast
      have still' : u'.pos = u.pos := by rw [arrived.pos good, abreast.pos, still]
      refine ⟨_, .repeatedStill run (arrived.failed.trans good) still', ?_⟩
      rw [arrived.value good]
      exact ((arrived.abreast good).succeed _).arrived rfl rfl
  | repeatedNext _ good moved _ ih ihRest =>
    cases thins with
    | repeated hp =>
      obtain ⟨t, run, first⟩ := ih (.whole hp) abreast
      have moved' : t.pos ≠ u.pos := by rwa [first.pos good, abreast.pos]
      obtain ⟨u', runRest, arrived⟩ := ihRest (.repeated hp) (first.abreast good)
      exact ⟨u', .repeatedNext run (first.failed.trans good) moved'
        (first.value good ▸ runRest), arrived⟩
  | @growStop inner key s s' _ stop ih =>
    cases thins with
    | grow hp =>
      obtain ⟨u', run, arrived⟩ := ih (.whole hp) (abreast.move key.2)
      exact ⟨u', .growStop run (by rw [arrived.outgrows, stop]), arrived⟩
  | @growNext inner key s s' s'' _ further _ ih ihRest =>
    cases thins with
    | grow hp =>
      obtain ⟨t, run, first⟩ := ih (.whole hp) (abreast.move key.2)
      obtain ⟨u', runRest, arrived⟩ :=
        ihRest (.grow hp) (first.reseeded (Comparison.failed_of_outgrows further) key)
      exact ⟨u', .growNext run (by rw [first.outgrows, further]) runRest, arrived⟩
  | @atom p s s' h =>
    cases thins with
    | whole hp =>
      obtain rfl := eq_of_atom? hp h
      obtain ⟨outcome, failure, effect, -, -⟩ := atom?_effect h
      have there := (atom?_of_unknown h (fun _ => grammar.unknown) u).trans
        (effect u abreast.pos fun name _ => by rw [abreast.near.scopes])
      rw [effect _ rfl fun _ _ => rfl, Option.some.injEq] at h
      subst h
      exact ⟨_, .atom there, abreast.after _ _⟩
  | @choice alts s s' _ ih =>
    obtain ⟨hp⟩ := thins
    cases hp with
    | @missing before after earlier later first starts =>
      have ne : before ++ after ≠ [] :=
        List.append_ne_nil_of_left_ne_nil (List.ne_nil_of_mem first) _
      obtain ⟨u', run, arrived⟩ :=
        ih (.fewer rfl (.inl ⟨earlier, first, starts⟩) ne rfl rfl) abreast
      rw [← abreast.pos] at run
      exact ⟨u', .choice run, arrived⟩
    | @sole earlier later starts =>
      have thins : Task.Thins input s u (.alts s.pos ([.lit earlier] ++ .lit later :: []))
          (.alts s.pos ([.lit earlier] ++ [])) :=
        .fewer rfl (.inl ⟨earlier, .head _, starts⟩) (List.cons_ne_nil _ _) rfl rfl
      obtain ⟨u', run, arrived⟩ := ih thins abreast
      cases run with
      | altsLast run => exact ⟨u', run, arrived⟩
    | choice h =>
      obtain ⟨u', run, arrived⟩ := ih (.alts rfl h) abreast
      rw [← abreast.pos] at run
      exact ⟨u', .choice run, arrived⟩
  | seq _ ih =>
    obtain ⟨hp⟩ := thins
    cases hp with
    | seq h =>
      obtain ⟨u', run, arrived⟩ :=
        ih (u := u.succeed .null) (.terms rfl rfl h) (abreast.succeed .null)
      exact ⟨u', .seq run, arrived⟩
  | scope _ ih =>
    obtain ⟨hp⟩ := thins
    cases hp with
    | scope h =>
      obtain ⟨u', run, arrived⟩ :=
        ih (u := { u with scopes := u.scopes.push }.succeed .null) (.terms rfl rfl h)
          abreast.pushed
      exact ⟨_, .scope run, arrived.popped⟩
  | label _ ih =>
    obtain ⟨hp⟩ := thins
    cases hp with
    | label h =>
      obtain ⟨u', run, arrived⟩ := ih (.whole h) abreast
      exact ⟨_, .label run, arrived.labelled _⟩
  | @seed inner rule s seed found =>
    obtain ⟨hp⟩ := thins
    cases hp with
    | leftrec h =>
      have found' : u.seeds.get? (rule, u.pos) = some seed := by
        rw [abreast.near.seeds, abreast.pos, found]
      exact ⟨_, .seed found', ⟨abreast.near.scopes, abreast.near.seeds,
        abreast.near.blocked, abreast.near.memo⟩, told_same seed abreast.furthest⟩
  | @once inner rule s s' unseeded blocked _ ih =>
    obtain ⟨hp⟩ := thins
    cases hp with
    | leftrec h =>
      have unseeded' : u.seeds.get? (rule, u.pos) = none := by
        rw [abreast.near.seeds, abreast.pos, unseeded]
      have blocked' : u.blocked.contains rule = true := by rw [abreast.near.blocked, blocked]
      obtain ⟨u', run, arrived⟩ := ih (.whole h) (abreast.seeded rule)
      refine ⟨_, .once unseeded' blocked' run, ?_⟩
      rw [abreast.pos]
      exact arrived.unseeded _
  | @grown inner rule s s' unseeded unblocked _ ih =>
    obtain ⟨hp⟩ := thins
    cases hp with
    | leftrec h =>
      have unseeded' : u.seeds.get? (rule, u.pos) = none := by
        rw [abreast.near.seeds, abreast.pos, unseeded]
      have unblocked' : u.blocked.contains rule = false := by
        rw [abreast.near.blocked, unblocked]
      have assoc := grammar.isLeftAssoc rule
      obtain ⟨u', run, arrived⟩ := ih (.grow h) (abreast.growing rule assoc)
      rw [← abreast.pos] at run
      exact ⟨_, .grown unseeded' unblocked' run, arrived.grown abreast.pos assoc⟩
  | @hit inner rule s entry found =>
    obtain ⟨hp⟩ := thins
    cases hp with
    | memo h =>
      rcases none_or_some_of_rel (abreast.kept? rule) with
        ⟨unknown, -⟩ | ⟨_, entry', kept, found', told⟩
      · rw [unknown] at found
        contradiction
      · cases found.symm.trans kept
        exact ⟨_, .hit found', abreast.hit told⟩
  | @miss inner rule s s' unknown _ ih =>
    obtain ⟨hp⟩ := thins
    cases hp with
    | memo h =>
      rcases none_or_some_of_rel (abreast.kept? rule) with ⟨-, unknown'⟩ | ⟨_, _, found, -⟩
      · obtain ⟨u', run, arrived⟩ := ih (.whole h) abreast.clean
        exact ⟨_, .miss unknown' run, arrived.kept abreast rule⟩
      · rw [unknown] at found
        contradiction
  | @rule name body s s' found _ ih =>
    obtain ⟨hp⟩ := thins
    cases hp with
    | apply name =>
      obtain ⟨body', found', h⟩ := grammar.found found
      obtain ⟨u', run, arrived⟩ := ih (.whole h) (abreast.entering name)
      exact ⟨_, .rule found' run, arrived.leaving abreast.near name⟩
  | not _ ih =>
    obtain ⟨hp⟩ := thins
    cases hp with
    | not h =>
      obtain ⟨u', run, arrived⟩ := ih (.whole h) abreast.clean
      exact ⟨_, .not run, arrived.looked abreast⟩
  | opt _ ih =>
    obtain ⟨hp⟩ := thins
    cases hp with
    | opt h =>
      obtain ⟨u', run, arrived⟩ := ih (.whole h) abreast
      exact ⟨_, .opt run, arrived.optional abreast.pos⟩
  | star _ ih =>
    obtain ⟨hp⟩ := thins
    cases hp with
    | star h =>
      obtain ⟨u', run, arrived⟩ := ih (.repeated h) abreast
      exact ⟨u', .star run, arrived⟩
  | plusStop _ bad ih =>
    obtain ⟨hp⟩ := thins
    cases hp with
    | plus h =>
      obtain ⟨u', run, arrived⟩ := ih (.whole h) abreast
      exact ⟨u', .plusStop run (arrived.failed.trans bad), arrived⟩
  | plusStill _ good still ih =>
    obtain ⟨hp⟩ := thins
    cases hp with
    | plus h =>
      obtain ⟨u', run, arrived⟩ := ih (.whole h) abreast
      have still' : u'.pos = u.pos := by rw [arrived.pos good, abreast.pos, still]
      refine ⟨_, .plusStill run (arrived.failed.trans good) still', ?_⟩
      rw [arrived.value good]
      exact ((arrived.abreast good).succeed _).arrived rfl rfl
  | plusNext _ good moved _ ih ihRest =>
    obtain ⟨hp⟩ := thins
    cases hp with
    | plus h =>
      obtain ⟨t, run, first⟩ := ih (.whole h) abreast
      have moved' : t.pos ≠ u.pos := by rwa [first.pos good, abreast.pos]
      obtain ⟨u', runRest, arrived⟩ := ihRest (.repeated h) (first.abreast good)
      exact ⟨u', .plusNext run (first.failed.trans good) moved' (first.value good ▸ runRest),
        arrived⟩
  | paren _ ih =>
    obtain ⟨hp⟩ := thins
    cases hp with
    | paren h =>
      obtain ⟨u', run, arrived⟩ := ih (.whole h) abreast
      exact ⟨u', .paren run, arrived⟩
  | capture _ ih =>
    obtain ⟨hp⟩ := thins
    cases hp with
    | capture h =>
      obtain ⟨u', run, arrived⟩ := ih (.whole h) abreast
      exact ⟨_, .capture run, arrived.captured abreast.pos⟩

end Match

/-! ## Results -/

/-- Two results accept the same value up to the same offset, or reject at the same offset. -/
def MatchResult.SameButMessage : MatchResult → MatchResult → Prop
  | .accepted value pos, .accepted value' pos' => value' = value ∧ pos' = pos
  | .rejected _ pos, .rejected _ pos' => pos' = pos
  | _, _ => False

namespace Match

/-- States that have arrived alike stand for the same result, but for the message. -/
theorem Arrived.finish {s u : MatchState} (h : Arrived s u) (source : String)
    (input : Array Char) :
    (finish source input s).SameButMessage (Match.finish source input u) := by
  unfold Match.finish
  rw [h.failed]
  cases hs : s.failed with
  | false => exact ⟨h.value hs, h.pos hs⟩
  | true =>
    show (u.furthest.getD ⟨u.pos, none⟩).pos = (s.furthest.getD ⟨s.pos, none⟩).pos
    have furthest := h.told.furthest
    cases hf : s.furthest with
    | none =>
      rw [hf, Option.map_none, Option.map_eq_none_iff] at furthest
      rw [furthest]
      exact h.told.pos (.inr hf)
    | some f =>
      rw [hf, Option.map_some, Option.map_eq_some_iff] at furthest
      obtain ⟨f', hf', same⟩ := furthest
      rw [hf']
      exact same

end Match

/-- **Alternatives that never match make no difference.**  If a match with a grammar has a result,
so has the match with the grammar where literals are missing that come after one of their prefixes,
and it is the same but for the message. -/
theorem Grammar.run_thinned {g g' : Grammar} (thins : Match.GrammarThins g g')
    (start : g'.start = g.start) {n : Nat} {source : String} {input : Array Char}
    {result : MatchResult} (h : g.run n source input = some result) :
    (∃ m other, g'.run m source input = some other) ∧
      ∀ m other, g'.run m source input = some other → result.SameButMessage other := by
  obtain ⟨s, hs, rfl⟩ := Option.map_eq_some_iff.1 h
  obtain ⟨u, run, arrived⟩ :=
    (Match.run_start_iff.2 ⟨n, hs⟩).thinned thins (.whole (.apply _)) (.refl _)
  rw [← start] at run
  obtain ⟨m, hm⟩ := Match.run_start_iff.1 run
  refine ⟨⟨m, _, Option.map_eq_some_iff.2 ⟨u, hm, rfl⟩⟩, fun k other hother => ?_⟩
  obtain ⟨v, hv, rfl⟩ := Option.map_eq_some_iff.1 hother
  rw [Match.final?_unique hv hm]
  exact arrived.finish source input

end Pegboard
