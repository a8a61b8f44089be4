import Pegboard.Match.Result
import Pegboard.Proofs.Match.Active

/-!
# Memoization

A memoized grammar keeps the outcome of a rule at an offset, and gives it again in place of another
evaluation.  That is right if the outcome does not depend on anything else: not on the bindings of
whoever applies the rule, not on the seeds that grow around it, and not on the rules that are
blocked.

Blocked rules are no concern, since a rule whose outcomes are kept sees none.  The other two are what
`Bodies.Cacheable` asks for.

## Main Definitions

* `Bodies.Cacheable`: the outcomes that are kept depend on nothing but the offset.
* `Justified`: a kept outcome is that of an evaluation.
* `Plain`: the task without memoization that a task stands for.

## Main Results

* `Justified.replay`: a rule gives what was kept for it.
* `Run.plain`: a run with memoization is one without.
* `run_eq_of_cacheable`: matching with memoization has the result of matching without.
-/

namespace Pegboard

namespace Bodies

/-- The outcomes that are kept depend on nothing but the offset. -/
structure Cacheable (bodies : Bodies) : Prop where
  /-- Nothing is memoized yet. -/
  notMemo : ∀ b ∈ bodies, b.2.Everywhere Pattern.NotMemo
  /-- A memoizable rule looks up only names that it has bound by then, or that no label binds. -/
  knows : ∀ name ∈ bodies.memoizable, ∀ body, bodies.body? name = some body →
    body.Knows (fun _ => True) bodies.Unbound
  /-- A rule that is kept, applied where the seed of another one grows, does not come back to the
  seed before anything is consumed. -/
  apart : ∀ rule, bodies.Kept rule → ∀ seed, bodies.Within seed rule →
    ∀ first, bodies.LeftCall rule first → ¬ bodies.LeftPath first seed

/-- The rules that a memoizable rule may apply: other memoizable ones and builtin ones. -/
def Callee (bodies : Bodies) (name : String) : Prop :=
  name ∈ bodies.memoizable ∨ bodies.body? name = none

theorem Cacheable.callee {bodies : Bodies} (h : bodies.Cacheable) (name : String) (body : Pattern)
    (callee : bodies.Callee name) (found : bodies.body? name = some body) :
    body.Knows bodies.Callee bodies.Unbound := by
  rcases callee with memoizable | hnone
  · refine Pattern.knows_of_nodes body (fun q hq => ⟨fun other hother _ => ?_, fun _ _ => id⟩)
      (h.knows name memoizable body found)
    exact memoizable_applied memoizable found (Pattern.mem_applied_iff.2 (hother ▸ hq))
  · rw [hnone] at found
    contradiction

end Bodies

namespace MatchState

/-- The state without kept outcomes. -/
def plain (s : MatchState) : MatchState := { s with memo := [] }

theorem entering_of_free {s : MatchState} {rule : String} (free : s.blocked = []) :
    s.entering rule = s := by
  rw [entering, free]
  rfl

theorem leaving_of_free {s s' : MatchState} {rule : String} (free : s.blocked = []) :
    s.leaving rule s' = s' := by
  rw [leaving, free]
  rfl

theorem plain_entering (s : MatchState) (rule : String) :
    (s.entering rule).plain = s.plain.entering rule := by
  unfold entering
  exact apply_ite plain _ _ _

theorem plain_leaving (s : MatchState) (rule : String) (s' : MatchState) :
    (s.leaving rule s').plain = s.plain.leaving rule s'.plain := by
  unfold leaving
  exact apply_ite plain _ _ _

theorem plain_labelled (s : MatchState) (name : String) :
    (s.labelled name).plain = s.plain.labelled name := by
  cases hf : s.failed <;> simp [labelled, plain, hf]

theorem plain_looked (s s' : MatchState) :
    (Match.looked s s').plain = Match.looked s.plain s'.plain := by
  cases hf : s'.failed <;> simp [Match.looked, plain, hf, fail, failAt, succeed, mergeFailure]

theorem plain_optional (s s' : MatchState) :
    (Match.optional s s').plain = Match.optional s.plain s'.plain := by
  cases hf : s'.failed <;> simp [Match.optional, plain, hf, succeed]

theorem plain_captured (input : Array Char) (s s' : MatchState) :
    (Match.captured input s s').plain = Match.captured input s.plain s'.plain := by
  cases hf : s'.failed <;> simp [Match.captured, plain, hf, succeed]

theorem leaving_memo (s : MatchState) (rule : String) (s' : MatchState) :
    (s.leaving rule s').memo = s'.memo := by
  obtain ⟨blocked, h⟩ := s.leaving_eq rule s'
  rw [h]

theorem labelled_memo (s : MatchState) (name : String) : (s.labelled name).memo = s.memo := by
  obtain ⟨frame, h⟩ := s.labelled_eq name
  rw [h]

theorem looked_memo (s s' : MatchState) : (Match.looked s s').memo = s'.memo := by
  obtain ⟨outcome, furthest, h⟩ := Match.looked_eq s s'
  rw [h]
  rfl

theorem optional_memo (s s' : MatchState) : (Match.optional s s').memo = s'.memo := by
  obtain ⟨outcome, h⟩ := Match.optional_eq s s'
  rw [h]
  rfl

theorem captured_memo (input : Array Char) (s s' : MatchState) :
    (Match.captured input s s').memo = s'.memo := by
  obtain ⟨value, h⟩ := Match.captured_eq input s s'
  rw [h]

end MatchState

namespace Match

open Pattern

variable {g : Grammar} {input : Array Char}

/-- What is taken for granted of a grammar that is to be memoized. -/
structure Memoizing (g : Grammar) : Prop where
  closed : ∀ b ∈ g.bodies, b.2.Closed
  cacheable : g.bodies.Cacheable
  free : ∀ rule, g.bodies.Kept rule → g.isLeftAssoc rule = false

namespace Memoizing

theorem closed_body (h : Memoizing g) (name : String) (body : Pattern)
    (found : g.body? name = some body) : body.Closed :=
  h.closed _ (Bodies.mem_of_body? found)

theorem notMemo_body (h : Memoizing g) {name : String} {body : Pattern}
    (found : g.body? name = some body) : All NotMemo [body] :=
  all_body h.cacheable.notMemo found

end Memoizing

/-! ## Kept outcomes -/

/-- A state in which the body of a rule is evaluated of which outcomes are kept. -/
structure Entered (g : Grammar) (rule : String) (s : MatchState) : Prop where
  blocked : s.blocked = []
  memo : s.memo = []
  unbinding : Unbinding g.bodies s.scopes
  behind : ∀ key, s.seeds.get? key ≠ none → key.2 ≤ s.pos
  within : ∀ seed, s.seeds.get? (seed, s.pos) ≠ none → g.bodies.Within seed rule

theorem Sound.entered {rule : String} {s : MatchState} (sound : Sound g (.whole (.apply rule)) s)
    (blocked : s.blocked = []) (memo : s.memo = []) : Entered g rule s :=
  ⟨blocked, memo, sound.unbinding, sound.behind, fun seed h => sound.within seed rule h rfl⟩

/-- A kept outcome is that of an evaluation without memoization. -/
def Justified (g : Grammar) (input : Array Char) (key : RuleAt) (entry : MemoEntry) : Prop :=
  ∃ inner u u', g.body? key.1 = some inner ∧ Entered g key.1 u ∧ u.pos = key.2 ∧
    u.furthest = none ∧ Run g input (.whole inner) u u' ∧ entry = ⟨u'.outcome, u'.furthest⟩

/-- All kept outcomes are justified. -/
def Recorded (g : Grammar) (input : Array Char) (memo : Table MemoEntry) : Prop :=
  ∀ key entry, memo.get? key = some entry → Justified g input key entry

theorem recorded_nil (g : Grammar) (input : Array Char) : Recorded g input [] := by
  intro key entry h
  contradiction

theorem Recorded.insert {memo : Table MemoEntry} {key : RuleAt} {entry : MemoEntry}
    (h : Recorded g input memo) (justified : Justified g input key entry) :
    Recorded g input (memo.insert key entry) := by
  intro other found hfound
  by_cases hkey : other = key
  · subst hkey
    rw [Table.get?_insert_self, Option.some.injEq] at hfound
    exact hfound ▸ justified
  · rw [Table.get?_insert_of_ne _ _ hkey] at hfound
    exact h other found hfound

/-- The evaluation of a rule whose outcomes are kept meets no seed that was there before. -/
theorem Entered.unseeded (memoizing : Memoizing g) {rule : String} (kept : g.bodies.Kept rule)
    {inner : Pattern} (found : g.body? rule = some inner) {s u : MatchState}
    (entered : Entered g rule u) (hpos : u.pos = s.pos)
    (ready : Ready g.bodies.mayBeEmpty (.whole inner) s) {p : Pattern} {seed : String}
    {v : MatchState} (h : Reaches g input (.whole inner) s (.whole (.leftrec p seed)) v) :
    u.seeds.get? (seed, v.pos) = none := by
  have ahead : s.pos ≤ v.pos := (h.ready g.bodies.mayBeEmpty_closed ready).2
  refine Classical.byContradiction fun active => ?_
  have behind : v.pos ≤ u.pos := entered.behind _ active
  have hv : v.pos = s.pos := by omega
  have again : Task.opens g.bodies.mayBeEmpty seed (.whole (.leftrec p seed)) := .inl rfl
  obtain ⟨first, opens, path⟩ := h.path ready hv again
  rw [hv, ← hpos] at active
  exact memoizing.cacheable.apart rule kept seed (entered.within seed active) first
    ⟨inner, found, opens⟩ path

/-- A run of a closed pattern without memoization changes nothing but the outcome and the furthest
failure. -/
theorem Run.eq_adopt (memoizing : Memoizing g) {name : String} {body : Pattern}
    (found : g.body? name = some body) {s s' : MatchState} (h : Run g input (.whole body) s s') :
    s' = { s.adopt s'.outcome with furthest := s'.furthest } := by
  have hscopes : s'.scopes = s.scopes :=
    h.scopes_of_closed memoizing.closed_body (memoizing.closed_body name body found)
  have hmemo : s'.memo = s.memo :=
    h.memo_of_notMemo memoizing.cacheable.notMemo (memoizing.notMemo_body found)
  have hseeds : s'.seeds = s.seeds := h.seeds_eq
  have hblocked : s'.blocked = s.blocked := h.blocked_eq
  obtain ⟨pos, value, failed, furthest, scopes, seeds, blocked, memo⟩ := s'
  simp only at hscopes hmemo hseeds hblocked
  subst hscopes hmemo hseeds hblocked
  rfl

/-- A rule whose outcomes are kept gives what was kept for it, with the failures on the way. -/
theorem Justified.replay (memoizing : Memoizing g) {rule : String} (kept : g.bodies.Kept rule)
    {inner : Pattern} (found : g.body? rule = some inner) {s : MatchState} {entry : MemoEntry}
    (justified : Justified g input (rule, s.pos) entry) (entered : Entered g rule s)
    (ready : Ready g.bodies.mayBeEmpty (.whole inner) s) :
    Run g input (.whole inner) s (s.after entry.outcome entry.furthest) := by
  obtain ⟨inner', u, u', found', entered', hpos, hfurthest, run, rfl⟩ := justified
  cases found.symm.trans found'
  have alike : Alike (fun key => u.seeds.get? key = none ∧ s.seeds.get? key = none)
      g.bodies.Unbound u s := by
    refine ⟨hpos.symm, ?_, ?_, fun key hkey => ?_, fun name hname => ?_⟩
    · rw [entered.blocked, entered'.blocked]
    · rw [entered.memo, entered'.memo]
    · rw [hkey.1, hkey.2]
    · rw [entered.unbinding name hname, entered'.unbinding name hname]
  have sees : Sees g input (fun key => u.seeds.get? key = none ∧ s.seeds.get? key = none)
      (.whole inner) s := by
    intro p seed v h
    exact ⟨entered'.unseeded memoizing kept found hpos ready h,
      entered.unseeded memoizing kept found rfl ready h⟩
  obtain ⟨s', run', mirror⟩ := run.mirrored memoizing.cacheable.callee (fun _ h => h)
    (memoizing.cacheable.callee rule inner (.inl kept.1) found) alike trivial sees
  obtain ⟨later, hu, hs⟩ := mirror.late
  have hlater : later = u'.furthest := by rw [hu, hfurthest, Failure.none_merge]
  have hend : s' = s.after u'.outcome u'.furthest := by
    rw [run'.eq_adopt memoizing found, mirror.outcome, hs, hlater]
    rfl
  rwa [← hend]

/-! ## Runs with memoization -/

/-- The task without memoization that a task stands for.  A wrapped body stands for the application
of its rule. -/
inductive Plain (g : Grammar) : Task → MatchState → Task → Prop where
  | same {task s} (all : All NotMemo task.patterns) : Plain g task s task
  | body {inner rule s} (found : g.body? rule = some inner) (kept : g.bodies.Kept rule)
      (free : s.blocked = []) : Plain g (.whole (.memo inner rule)) s (.whole (.apply rule))

theorem atom?_plain {p : Pattern} {s s' : MatchState} (h : atom? g.memoize input p s = some s') :
    atom? g input p s.plain = some s'.plain := by
  have hatom : atom? g.memoize input p = atom? g input p := by
    cases p with
    | apply name =>
      funext t
      cases hbody : g.body? name with
      | none => rw [atom?, atom?, Grammar.body?_memoize_of_none hbody, hbody]
      | some body =>
        rcases Grammar.body?_memoize hbody with ⟨-, hmemo⟩ | hmemo
        · simp only [atom?, hmemo, hbody]
        · simp only [atom?, hmemo, hbody]
    | _ => rfl
  rw [hatom] at h
  obtain ⟨outcome, failure, effect, -, -⟩ := atom?_effect h
  rw [effect s rfl fun _ _ => rfl, Option.some.injEq] at h
  rw [effect s.plain rfl fun _ _ => rfl, ← h]
  rfl

/-- If no rule is blocked, applying a rule is evaluating its body. -/
theorem run_apply_iff {name : String} {body : Pattern} {s s' : MatchState}
    (found : g.body? name = some body) (free : s.blocked = []) :
    Run g input (.whole (.apply name)) s s' ↔ Run g input (.whole body) s s' := by
  constructor
  · intro h
    cases h with
    | atom h => simp [atom?, found] at h
    | @rule _ body' _ t found' h =>
      cases found.symm.trans found'
      rwa [MatchState.leaving_of_free free, ← MatchState.entering_of_free free]
  · intro h
    have run : Run g input (.whole (.apply name)) s (s.leaving name s') :=
      .rule found (by rwa [MatchState.entering_of_free free])
    rwa [MatchState.leaving_of_free free] at run

/-- A pattern is sound in a state that differs in nothing that soundness has to do with. -/
theorem Sound.of_fields {p : Pattern} {s t : MatchState} (h : Sound g (.whole p) s)
    (pos : t.pos = s.pos) (seeds : t.seeds = s.seeds) (memo : t.memo = s.memo)
    (scopes : t.scopes = s.scopes) (blocked : ∀ name ∈ t.blocked, name ∈ s.blocked) :
    Sound g (.whole p) t := by
  have origin : Task.origin (.whole p) t = Task.origin (.whole p) s := pos
  refine ⟨⟨h.ready.placed.of_tables seeds memo, h.ready.wrapped, trivial⟩, h.nodes,
    fun name hn => h.unblocked name (blocked name hn), ?_, fun key => ?_, fun seed name => ?_⟩
  · rw [scopes]
    exact h.unbinding
  · rw [seeds, origin]
    exact h.behind key
  · rw [seeds, origin]
    exact h.within seed name

/-- A rule is sound where its body is evaluated. -/
theorem Sound.entering {rule : String} {s : MatchState} (h : Sound g (.whole (.apply rule)) s) :
    Sound g (.whole (.apply rule)) (s.entering rule) := by
  refine h.of_fields (s.entering_pos rule) (s.entering_seeds rule) (s.entering_memo rule)
    (s.entering_scopes rule) fun name hn => ?_
  unfold MatchState.entering at hn
  split at hn
  · exact hn
  · contradiction

/-- The body of a sound rule is sound, if no rule is blocked. -/
theorem Sound.body {rule : String} {body : Pattern} {s : MatchState}
    (h : Sound g (.whole (.apply rule)) s) (found : g.body? rule = some body)
    (free : s.blocked = []) : Sound g (.whole body) s := by
  have call : Calls g #[] (.whole (.apply rule)) s (.whole body) (s.entering rule) := .rule found
  have next := call.sound h
  rwa [MatchState.entering_of_free free] at next

/-- Where the body of a rule is evaluated whose outcomes are kept, no rule is blocked. -/
theorem Sound.entering_blocked (memoizing : Memoizing g) {rule : String} {s : MatchState}
    (h : Sound g (.whole (.apply rule)) s) (kept : g.bodies.Kept rule) :
    (s.entering rule).blocked = [] := by
  unfold MatchState.entering
  split
  · next hfree =>
    rcases Bool.or_eq_true_iff.1 hfree with hempty | hmem
    · exact List.isEmpty_iff.1 hempty
    · have hassoc := h.unblocked rule (List.contains_iff_mem.1 hmem)
      rw [memoizing.free rule kept] at hassoc
      contradiction
  · rfl

/-- A wrapped body gives, and keeps, what the body gives without memoization. -/
theorem Run.plain (memoizing : Memoizing g) {task : Task} {s s' : MatchState}
    (h : Run g.memoize input task s s') {plain : Task} (stands : Plain g task s plain)
    (sound : Sound g plain s.plain) (recorded : Recorded g input s.memo) :
    Run g input plain s.plain s'.plain ∧ Recorded g input s'.memo := by
  induction h generalizing plain with
  | altsNil =>
    rcases stands with ⟨all⟩
    exact ⟨.altsNil, recorded⟩
  | altsLast _ ih =>
    rcases stands with ⟨all⟩
    obtain ⟨run, recorded⟩ := ih (.same all.head) (sound.part input .altsHead) recorded
    exact ⟨.altsLast run, recorded⟩
  | altsTaken _ ok ih =>
    rcases stands with ⟨all⟩
    obtain ⟨run, recorded⟩ := ih (.same all.head) (sound.part input .altsHead) recorded
    exact ⟨.altsTaken run ok, recorded⟩
  | altsNext _ bad _ ih ihRest =>
    rcases stands with ⟨all⟩
    obtain ⟨run, recorded⟩ := ih (.same all.head) (sound.part input .altsHead) recorded
    obtain ⟨rest, recorded⟩ :=
      ihRest (.same all.tail) (sound.part input (.altsTail run bad)) recorded
    exact ⟨.altsNext run bad rest, recorded⟩
  | termsNil =>
    rcases stands with ⟨all⟩
    exact ⟨.termsNil, recorded⟩
  | termsStop _ bad ih =>
    rcases stands with ⟨all⟩
    obtain ⟨run, recorded⟩ := ih (.same all.head) (sound.part input .termsHead) recorded
    exact ⟨.termsStop run bad, recorded⟩
  | termsNext _ ok _ ih ihRest =>
    rcases stands with ⟨all⟩
    obtain ⟨run, recorded⟩ := ih (.same all.head) (sound.part input .termsHead) recorded
    obtain ⟨rest, recorded⟩ :=
      ihRest (.same all.tail) (sound.part input (.termsTail run ok)) recorded
    exact ⟨.termsNext run ok rest, recorded⟩
  | repeatedStop _ bad ih =>
    rcases stands with ⟨all⟩
    obtain ⟨run, recorded⟩ := ih (.same all) (sound.part input .repeatedHead) recorded
    exact ⟨.repeatedStop run bad, recorded⟩
  | repeatedStill _ ok still ih =>
    rcases stands with ⟨all⟩
    obtain ⟨run, recorded⟩ := ih (.same all) (sound.part input .repeatedHead) recorded
    exact ⟨.repeatedStill run ok still, recorded⟩
  | repeatedNext _ ok moved _ ih ihRest =>
    rcases stands with ⟨all⟩
    obtain ⟨run, recorded⟩ := ih (.same all) (sound.part input .repeatedHead) recorded
    obtain ⟨rest, recorded⟩ :=
      ihRest (.same all) (sound.part input (.repeatedTail run ok moved)) recorded
    exact ⟨.repeatedNext run ok moved rest, recorded⟩
  | growStop _ stop ih =>
    rcases stands with ⟨all⟩
    obtain ⟨run, recorded⟩ := ih (.same all) (sound.part input .growHead) recorded
    exact ⟨.growStop run stop, recorded⟩
  | @growNext inner key s s' _ _ further _ ih ihRest =>
    rcases stands with ⟨all⟩
    obtain ⟨run, recorded⟩ := ih (.same all) (sound.part input .growHead) recorded
    have next : Sound g (.grow inner key) (s'.plain.reseeded key) :=
      sound.part input (@Calls.growTail g input inner key s.plain s'.plain run further)
    obtain ⟨rest, recorded⟩ := ihRest (.same all) next recorded
    exact ⟨.growNext run further rest, recorded⟩
  | @atom p s s' h =>
    have hmemo : s'.memo = s.memo := by
      obtain ⟨outcome, failure, effect, -, -⟩ := atom?_effect h
      rw [effect s rfl fun _ _ => rfl, Option.some.injEq] at h
      rw [← h]
      rfl
    rcases stands with ⟨all⟩ | ⟨found, kept, free⟩
    · exact ⟨.atom (atom?_plain h), hmemo ▸ recorded⟩
    · contradiction
  | choice _ ih =>
    rcases stands with ⟨all⟩
    obtain ⟨run, recorded⟩ := ih (.same all.parts) (sound.part input .choice) recorded
    exact ⟨.choice run, recorded⟩
  | seq _ ih =>
    rcases stands with ⟨all⟩
    obtain ⟨run, recorded⟩ := ih (.same all.parts) (sound.part input .seq) recorded
    exact ⟨.seq run, recorded⟩
  | @scope rule ps s s' _ ih =>
    rcases stands with ⟨all⟩
    obtain ⟨run, recorded⟩ := ih (.same all.parts) (sound.part input .scope) recorded
    have run' : Run g input (.whole (.scope rule ps)) s.plain
        { s'.plain with scopes := s'.plain.scopes.pop } := .scope run
    exact ⟨run', recorded⟩
  | @label inner name s s' _ ih =>
    rcases stands with ⟨all⟩
    obtain ⟨run, recorded⟩ := ih (.same all.parts) (sound.part input .label) recorded
    rw [MatchState.plain_labelled, MatchState.labelled_memo]
    exact ⟨.label run, recorded⟩
  | seed found =>
    rcases stands with ⟨all⟩
    exact ⟨.seed found, recorded⟩
  | @once inner rule s s' unseeded blocked _ ih =>
    rcases stands with ⟨all⟩
    have next : Sound g (.whole inner) (s.plain.seeded rule) :=
      sound.part input (@Calls.once g input inner rule s.plain unseeded blocked)
    obtain ⟨run, recorded⟩ := ih (.same all.parts) next recorded
    have run' : Run g input (.whole (.leftrec inner rule)) s.plain
        { s'.plain with seeds := s'.plain.seeds.erase (rule, s.plain.pos) } :=
      .once unseeded blocked run
    exact ⟨run', recorded⟩
  | @grown inner rule s s' unseeded unblocked _ ih =>
    rcases stands with ⟨all⟩
    have next : Sound g (.grow inner (rule, s.pos)) (growing g rule s.plain) :=
      sound.part input (@Calls.grown g input inner rule s.plain unseeded unblocked)
    obtain ⟨run, recorded⟩ := ih (.same all.parts) next recorded
    have run' : Run g input (.whole (.leftrec inner rule)) s.plain
        (Match.grown g rule s.plain s'.plain) := .grown unseeded unblocked run
    exact ⟨run', recorded⟩
  | @hit inner rule s entry found =>
    rcases stands with ⟨all⟩ | ⟨hbody, hkept, free⟩
    · exact all.here.elim
    · have run := (recorded _ entry found).replay memoizing hkept hbody (s := s.plain)
        (sound.entered free rfl) (sound.body hbody free).ready
      exact ⟨(run_apply_iff (s := s.plain) hbody free).2 run, recorded⟩
  | @miss inner rule s s' unknown _ ih =>
    rcases stands with ⟨all⟩ | ⟨hbody, hkept, free⟩
    · exact all.here.elim
    · have entered : Entered g rule s.plain := sound.entered free rfl
      have next : Sound g (.whole inner) { s.plain with furthest := none } :=
        (sound.body hbody free).of_fields rfl rfl rfl rfl fun _ hn => hn
      obtain ⟨inside, recorded⟩ := ih (.same (memoizing.notMemo_body hbody)) next recorded
      have justified : Justified g input (rule, s.pos) ⟨s'.outcome, s'.furthest⟩ :=
        ⟨inner, { s.plain with furthest := none }, s'.plain, hbody, ⟨entered.blocked, entered.memo,
          entered.unbinding, entered.behind, entered.within⟩, rfl, rfl, inside, rfl⟩
      have run := justified.replay memoizing hkept hbody (s := s.plain) entered
        (sound.body hbody free).ready
      have hend : (kept rule s s').plain = s.plain.after s'.outcome s'.furthest := by
        show { s'.plain with furthest := Failure.merge s.furthest s'.furthest } = _
        rw [inside.eq_adopt memoizing hbody]
        rfl
      rw [hend]
      exact ⟨(run_apply_iff (s := s.plain) hbody free).2 run, recorded.insert justified⟩
  | @rule name body s s' found _ ih =>
    rcases stands with ⟨all⟩
    rw [MatchState.plain_leaving, MatchState.leaving_memo]
    rw [MatchState.plain_entering, MatchState.entering_memo] at ih
    cases hbody : g.body? name with
    | none =>
      rw [Grammar.body?_memoize_of_none hbody] at found
      contradiction
    | some written =>
      rcases Grammar.body?_memoize hbody with ⟨kept, hmemoized⟩ | hmemoized
      · rw [hmemoized, Option.some.injEq] at found
        subst found
        have free : (s.plain.entering name).blocked = [] := sound.entering_blocked memoizing kept
        have free' : (s.entering name).blocked = [] := by
          rwa [← MatchState.plain_entering] at free
        obtain ⟨run, recorded⟩ := ih (.body hbody kept free') sound.entering recorded
        exact ⟨.rule hbody ((run_apply_iff hbody free).1 run), recorded⟩
      · rw [hmemoized, Option.some.injEq] at found
        subst found
        obtain ⟨run, recorded⟩ :=
          ih (.same (memoizing.notMemo_body hbody)) (sound.part input (.rule hbody)) recorded
        exact ⟨.rule hbody run, recorded⟩
  | @not inner s s' _ ih =>
    rcases stands with ⟨all⟩
    obtain ⟨run, recorded⟩ := ih (.same all.parts) (sound.part input .not) recorded
    rw [MatchState.plain_looked, MatchState.looked_memo]
    exact ⟨.not run, recorded⟩
  | @opt inner s s' _ ih =>
    rcases stands with ⟨all⟩
    obtain ⟨run, recorded⟩ := ih (.same all.parts) (sound.part input .opt) recorded
    rw [MatchState.plain_optional, MatchState.optional_memo]
    exact ⟨.opt run, recorded⟩
  | star _ ih =>
    rcases stands with ⟨all⟩
    obtain ⟨run, recorded⟩ := ih (.same all.parts) (sound.part input .star) recorded
    exact ⟨.star run, recorded⟩
  | plusStop _ bad ih =>
    rcases stands with ⟨all⟩
    obtain ⟨run, recorded⟩ := ih (.same all.parts) (sound.part input .plusHead) recorded
    exact ⟨.plusStop run bad, recorded⟩
  | plusStill _ ok still ih =>
    rcases stands with ⟨all⟩
    obtain ⟨run, recorded⟩ := ih (.same all.parts) (sound.part input .plusHead) recorded
    exact ⟨.plusStill run ok still, recorded⟩
  | plusNext _ ok moved _ ih ihRest =>
    rcases stands with ⟨all⟩
    obtain ⟨run, recorded⟩ := ih (.same all.parts) (sound.part input .plusHead) recorded
    obtain ⟨rest, recorded⟩ :=
      ihRest (.same all.parts) (sound.part input (.plusTail run ok moved)) recorded
    exact ⟨.plusNext run ok moved rest, recorded⟩
  | paren _ ih =>
    rcases stands with ⟨all⟩
    obtain ⟨run, recorded⟩ := ih (.same all.parts) (sound.part input .paren) recorded
    exact ⟨.paren run, recorded⟩
  | @capture inner s s' _ ih =>
    rcases stands with ⟨all⟩
    obtain ⟨run, recorded⟩ := ih (.same all.parts) (sound.part input .capture) recorded
    rw [MatchState.plain_captured, MatchState.captured_memo]
    exact ⟨.capture run, recorded⟩

/-! ## Whole matches -/

/-- A whole match is a run of the body of the starting rule. -/
theorem run_of_final? {n : Nat} {body : Pattern} {s : MatchState}
    (found : g.body? g.start = some body) (h : final? g input n = some s) :
    Run g input (.whole body) .initial s := by
  rw [final?, found] at h
  exact run_of_eval h

/-- A run of the body of the starting rule is a whole match. -/
theorem exists_final?_of_run {body : Pattern} {s : MatchState}
    (found : g.body? g.start = some body) (run : Run g input (.whole body) .initial s) :
    ∃ n, final? g input n = some s := by
  obtain ⟨n, h⟩ := run_iff_eval.1 run
  refine ⟨n, ?_⟩
  rw [final?, found]
  exact h

/-- A whole match with memoization ends in the state of one without, but for what was kept. -/
theorem final?_memoize (memoizing : Memoizing g) {n m : Nat} {s t : MatchState}
    (hs : final? g.memoize input n = some s) (ht : final? g input m = some t) : t = s.plain := by
  cases hstart : g.body? g.start with
  | none =>
    have hmemo : g.memoize.body? g.memoize.start = none := by
      rw [Grammar.start_memoize, Grammar.body?_memoize_of_none hstart]
    rw [final?, hmemo, Grammar.start_memoize, Option.some.injEq] at hs
    rw [final?, hstart, Option.some.injEq] at ht
    rw [← hs, ← ht]
    rfl
  | some body =>
    have run := run_of_final? hstart ht
    have sound := sound_initial g g.start
    have recorded := recorded_nil g input
    rcases Grammar.body?_memoize hstart with ⟨kept, hmemo⟩ | hmemo
    · rw [← g.start_memoize] at hmemo
      obtain ⟨plain, -⟩ := (run_of_final? hmemo hs).plain memoizing (s := .initial)
        (.body (g.start_memoize.symm ▸ hstart) (g.start_memoize.symm ▸ kept) rfl)
        (g.start_memoize.symm ▸ sound) recorded
      rw [g.start_memoize, run_apply_iff hstart rfl] at plain
      exact run.unique plain
    · rw [← g.start_memoize] at hmemo
      obtain ⟨plain, -⟩ := (run_of_final? hmemo hs).plain memoizing (s := .initial)
        (.same (memoizing.notMemo_body hstart)) (sound.body hstart rfl) recorded
      exact run.unique plain

/-- If what is kept depends on nothing but the offset, matching with memoization has the result of
matching without. -/
theorem run_eq_of_cacheable {rs : RuleSet} {leftAssoc : List String} {g g' : Grammar}
    (plain : rs.normalize ⟨false, leftAssoc⟩ = .ok g)
    (memoized : rs.normalize ⟨true, leftAssoc⟩ = .ok g') (cacheable : g.bodies.Cacheable)
    {source : String} {n m : Nat} {a b : MatchResult} (ha : g'.run n source input = some a)
    (hb : g.run m source input = some b) : a = b := by
  obtain rfl := RuleSet.normalize_memoize plain memoized
  have memoizing : Memoizing g := by
    refine ⟨rs.closed_of_normalize plain, cacheable, fun rule kept => ?_⟩
    refine Bool.eq_false_iff.2 fun hassoc => ?_
    obtain ⟨body, found⟩ := Bodies.body?_of_memoizable kept.1
    obtain ⟨inner, rfl⟩ := rs.wrapped_of_leftAssoc plain hassoc found
    exact kept.2 inner rule found
  obtain ⟨s, hs, rfl⟩ := Option.map_eq_some_iff.1 ha
  obtain ⟨t, ht, rfl⟩ := Option.map_eq_some_iff.1 hb
  rw [final?_memoize memoizing hs ht]
  rfl

end Match

end Pegboard
