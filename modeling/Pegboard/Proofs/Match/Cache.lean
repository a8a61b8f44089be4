import Pegboard.Proofs.Match.Counterpart
import Pegboard.Proofs.Match.Progress
import Pegboard.Proofs.Normalize.Closed

/-!
# Kept outcomes are those of evaluation

Where nothing grows and no expression looks up a variable, what the body of a rule comes to is told by
the offset.  So whichever rules have their outcomes kept, an outcome that was kept is the one that the
body would have now, wherever it was recorded: in a branch that was given up, or in a lookahead.  The
failures on the way to it were recorded with it, without those that had been met before, and they are
taken into account as if the body was evaluated again.

## Main Definitions

* `Grammar.keep`: a grammar with the outcomes of some rules kept.
* `Pattern.FixedNode`: a node that neither grows nor keeps anything, nor looks up a variable.
* `Faithful`: what is kept is what evaluation comes to.

## Main Results

* `Raises.determined`: what a pattern does is told by the offset.
* `run_keep`: keeping outcomes does not change the result of a match.
-/

namespace Pegboard

/-- The grammar in which the outcomes of some rules are kept: their bodies are wrapped. -/
def Grammar.keep (kept : String → Bool) (g : Grammar) : Grammar :=
  ⟨g.bodies.mapBodies fun rule body => if kept rule then .memo body rule else body, g.leftAssoc⟩

theorem Grammar.body?_keep (kept : String → Bool) (g : Grammar) (name : String) :
    (g.keep kept).body? name
      = (g.body? name).map fun body => if kept name then .memo body name else body :=
  Bodies.body?_mapBodies (fun rule body => if kept rule then .memo body rule else body) g.bodies
    name

theorem Grammar.start_keep (kept : String → Bool) (g : Grammar) : (g.keep kept).start = g.start :=
  Bodies.start_mapBodies _ _ _ _

/-- Whether a node is no left-recursive body and none whose outcomes are kept, and its expression, if
it has one, has no variables but the callees of builtin functions. -/
def Pattern.FixedNode : Pattern → Prop
  | .leftrec _ _ => False
  | .memo _ _ => False
  | p => p.reads = []

namespace Match

variable {g : Grammar} {input : Array Char} {s t s' t' : MatchState} {log log' : List Failure}

theorem reads_of_fixed {p : Pattern} (fixed : p.FixedNode) : p.reads = [] := by
  cases p <;> first | exact fixed | rfl

theorem notMemo_of_fixed (p : Pattern) (fixed : p.FixedNode) : p.NotMemo := by
  cases p <;> first | exact fixed | trivial

/-- Whether a task has fixed nodes only and is to be carried out where no rule is blocked. -/
def Task.Fixed (task : Task) (s : MatchState) : Prop :=
  All Pattern.FixedNode task.patterns ∧ s.blocked = []

/-- With fixed rules, all that a fixed task comes to is fixed. -/
theorem Calls.fixed (rules : ∀ b ∈ g.bodies, b.2.Everywhere Pattern.FixedNode) {task part : Task}
    (h : Calls g input task s part t) (fixed : task.Fixed s) : part.Fixed t := by
  obtain ⟨all, free⟩ := fixed
  constructor
  · rcases h.rule_or_all with ⟨name, body, rfl, found, rfl, -⟩ | keeps
    · exact all_body rules found
    · exact keeps _ all
  · cases h with
    | altsTail h | termsTail h | repeatedTail h | growTail h | plusTail h =>
      exact h.blocked_eq.trans free
    | grown => exact all.here.elim
    | rule =>
      unfold MatchState.entering
      split
      · exact free
      · rfl
    | _ => exact free

theorem fixed_body (rules : ∀ b ∈ g.bodies, b.2.Everywhere Pattern.FixedNode) {name : String}
    {body : Pattern} (found : g.body? name = some body)
    (fixed : Task.Fixed (.whole (.apply name)) s) : Task.Fixed (.whole body) (s.entering name) := by
  have call : Calls g #[] (.whole (.apply name)) s (.whole body) (s.entering name) := .rule found
  exact call.fixed rules fixed

/-! ## What is told by the offset -/

/-- Runs that are to agree on outcomes and failures, whatever the bindings, the seeds and the kept
outcomes are. -/
def offsetOnly : Comparison := ⟨fun _ => False, fun _ => True, True⟩

theorem corresponds_offsetOnly (rules : ∀ b ∈ g.bodies, b.2.Everywhere Pattern.FixedNode) :
    offsetOnly.Corresponds g g input fun _ task s => task.Fixed s where
  assoc _ := rfl
  unknown _ h := h
  part fixed call := call.fixed rules fixed
  sees fixed := fixed.1.here.elim
  reads fixed name hn := by
    rw [reads_of_fixed fixed.1.here] at hn
    contradiction
  rule found _ fixed akin follow :=
    .apply found akin (follow _ _ (fixed_body rules found fixed) (akin.entering _))

/-- What a fixed pattern does is told by the offset: its outcome, and the failure that is furthest
among those that it raises. -/
theorem Raises.determined (rules : ∀ b ∈ g.bodies, b.2.Everywhere Pattern.FixedNode) {p : Pattern}
    (h : Raises g input (.whole p) s log s') (h' : Raises g input (.whole p) t log' t')
    (all : All Pattern.FixedNode [p]) (hpos : t.pos = s.pos) (hs : s.blocked = [])
    (ht : t.blocked = []) :
    t'.outcome = s'.outcome ∧ Failure.last none log' = Failure.last none log := by
  -- Both are compared with the run from one state in which no failure was met.
  have here : offsetOnly.Akin (fun _ => False) s { t with furthest := none } :=
    ⟨hpos, ht.trans hs.symm, fun _ hk => hk.elim, fun _ hn => hn.elim, trivial⟩
  have there : offsetOnly.Akin (fun _ => False) t { t with furthest := none } :=
    ⟨rfl, rfl, fun _ _ => rfl, fun _ _ => rfl, trivial⟩
  obtain ⟨u, run, ended, furthest⟩ :=
    h.followed (corresponds_offsetOnly rules) ⟨all, hs⟩ here trivial
  obtain ⟨u', run', ended', furthest'⟩ :=
    h'.followed (corresponds_offsetOnly rules) ⟨all, ht⟩ there trivial
  obtain rfl := run'.unique run
  obtain ⟨value, pos⟩ := ended.result fun _ => trivial
  obtain ⟨value', pos'⟩ := ended'.result fun _ => trivial
  refine ⟨?_, furthest'.symm.trans furthest⟩
  rw [MatchState.outcome, MatchState.outcome, ← value', ← pos', ← ended'.failed, value, pos,
    ended.failed]

/-! ## What is kept -/

/-- What is kept of a rule at an offset is what its body comes to there, whenever it is evaluated. -/
def Faithful (g : Grammar) (input : Array Char) (key : RuleAt) (entry : MemoEntry) : Prop :=
  ∀ body t log t', g.body? key.1 = some body → Raises g input (.whole body) t log t' →
    t.pos = key.2 → t.blocked = [] →
    t'.outcome = entry.outcome ∧ Failure.last none log = entry.furthest

/-- Whether all that is kept is faithful. -/
def AllFaithful (g : Grammar) (input : Array Char) (memo : Table MemoEntry) : Prop :=
  ∀ key entry, memo.get? key = some entry → Faithful g input key entry

theorem allFaithful_nil (g : Grammar) (input : Array Char) : AllFaithful g input [] := by
  intro key entry h
  contradiction

theorem AllFaithful.insert {memo : Table MemoEntry} {key : RuleAt} {entry : MemoEntry}
    (faithful : AllFaithful g input memo) (new : Faithful g input key entry) :
    AllFaithful g input (memo.insert key entry) := by
  intro other found h
  by_cases hkey : other = key
  · subst hkey
    rw [Table.get?_insert_self, Option.some.injEq] at h
    exact h ▸ new
  · rw [Table.get?_insert_of_ne _ _ hkey] at h
    exact faithful other found h

/-- Runs of which the second keeps outcomes, all of them faithful. -/
def caching (g : Grammar) (input : Array Char) : Comparison :=
  ⟨fun _ => False, AllFaithful g input, True⟩

variable {ok : RuleAt → Prop} {u : MatchState} {name : String} {body : Pattern}

/-- A kept outcome stands for an evaluation. -/
theorem follows_hit (found : g.body? name = some body)
    (raises : Raises g input (.whole body) s log s') (free : s.blocked = [])
    (akin : (caching g input).Akin ok s u) {entry : MemoEntry}
    (hit : u.memo.get? (name, u.pos) = some entry) {g' : Grammar} :
    (caching g input).Follows g' input ok (.whole (.memo body name)) log s' u := by
  obtain ⟨outcome, furthest⟩ :=
    akin.around.memo _ _ hit body s log s' found raises akin.pos.symm free
  refine ⟨_, .hit hit, ⟨?_, fun _ => ⟨?_, ?_⟩, ?_, fun key hk => ?_, fun _ hn => hn.elim,
    akin.around.memo⟩, ?_⟩
  · exact (congrArg Outcome.failed outcome).symm
  · exact (congrArg Outcome.value outcome).symm
  · exact (congrArg Outcome.pos outcome).symm
  · exact akin.around.blocked.trans raises.run.blocked_eq.symm
  · show u.seeds.get? key = s'.seeds.get? key
    rw [akin.around.seeds key hk, raises.run.seeds_eq]
  · show Failure.merge u.furthest entry.furthest = _
    rw [← furthest]
    exact (Failure.last_eq_merge _ _).symm

/-- An outcome that is kept is faithful. -/
theorem follows_miss (rules : ∀ b ∈ g.bodies, b.2.Everywhere Pattern.FixedNode)
    (found : g.body? name = some body) (raises : Raises g input (.whole body) s log s')
    (free : s.blocked = []) (hpos : u.pos = s.pos) (unknown : u.memo.get? (name, u.pos) = none)
    {g' : Grammar}
    (follows : (caching g input).Follows g' input ok (.whole body) log s'
      { u with furthest := none }) :
    (caching g input).Follows g' input ok (.whole (.memo body name)) log s' u := by
  obtain ⟨v, run, ended, furthest⟩ := follows
  obtain ⟨value, pos⟩ := ended.result fun _ => trivial
  refine ⟨_, .miss unknown run, ⟨ended.failed, fun _ => ⟨value, pos⟩, ended.around.blocked,
    ended.around.seeds, fun _ hn => hn.elim, ended.around.memo.insert ?_⟩, ?_⟩
  · intro body' t log' t' found' raises' ht hfree
    obtain rfl : body' = body := Option.some.inj (found'.symm.trans found)
    obtain ⟨outcome, last⟩ := raises.determined rules raises' (all_body rules found)
      (ht.trans hpos) free hfree
    refine ⟨?_, last.trans furthest.symm⟩
    rw [outcome, MatchState.outcome, MatchState.outcome, value, ended.failed, pos]
  · show Failure.merge u.furthest v.furthest = _
    rw [furthest, ← Failure.last_eq_merge]

theorem corresponds_keep (rules : ∀ b ∈ g.bodies, b.2.Everywhere Pattern.FixedNode)
    (kept : String → Bool) :
    (caching g input).Corresponds g (g.keep kept) input fun _ task s => task.Fixed s where
  assoc _ := rfl
  unknown name h := by rw [g.body?_keep, h, Option.map_none]
  part fixed call := call.fixed rules fixed
  sees fixed := fixed.1.here.elim
  reads fixed name hn := by
    rw [reads_of_fixed fixed.1.here] at hn
    contradiction
  rule {ok name body s log s' u} found raises fixed akin follow := by
    have inside := fixed_body rules found fixed
    have akin' := akin.entering name
    have found' := g.body?_keep kept name
    rw [found, Option.map_some] at found'
    refine .apply found' akin ?_
    split
    · cases hmemo : (u.entering name).memo.get? (name, (u.entering name).pos) with
      | some entry => exact follows_hit found raises inside.2 akin' hmemo
      | none =>
        exact follows_miss rules found raises inside.2 akin'.pos hmemo (follow ok _ inside
          ⟨akin'.pos, akin'.around.blocked, akin'.around.seeds, akin'.around.lookup,
            akin'.around.memo⟩)
    · exact follow ok _ inside akin'

/-- **The kept outcomes are a faithful cache.**  In a grammar without left-recursive bodies, in which
expressions have no variables but the callees of builtin functions, let the outcomes of any rules be
kept.  If a match has a result without, then it has the same result with kept outcomes: the same value
up to the same offset, or the same text about a failure at the same offset. -/
theorem run_keep (rules : ∀ b ∈ g.bodies, b.2.Everywhere Pattern.FixedNode) (kept : String → Bool)
    {n : Nat} {source : String} {result : MatchResult} (h : g.run n source input = some result) :
    ∃ m, (g.keep kept).run m source input = some result := by
  obtain ⟨s, hs, rfl⟩ := Option.map_eq_some_iff.1 h
  obtain ⟨log, raises⟩ :=
    raises_of_final? (fun b hb p hp => notMemo_of_fixed p (rules b hb p hp)) hs
  have fixed : Task.Fixed (.whole (.apply g.start)) .initial := by
    refine ⟨?_, rfl⟩
    simp [All, Task.patterns, Pattern.Everywhere, Pattern.nodes, Pattern.FixedNode, Pattern.reads]
  have akin : (caching g input).Akin (fun _ => True) .initial .initial :=
    ⟨rfl, rfl, fun _ _ => rfl, fun _ _ => rfl, allFaithful_nil g input⟩
  obtain ⟨u, run', ended, furthest⟩ :=
    raises.followed (corresponds_keep rules kept) fixed akin trivial
  rw [← g.start_keep kept] at run'
  obtain ⟨m, hm⟩ := run_start_iff.1 run'
  obtain ⟨value, pos⟩ := ended.result fun _ => trivial
  refine ⟨m, Option.map_eq_some_iff.2 ⟨u, hm, ?_⟩⟩
  rw [finish, finish, ended.failed, value, pos, furthest, ← raises.furthest]

/-- The rules `s = n '+' | ~n | n '-'` and `n = 'x'`. -/
def retryGrammar : Grammar :=
  ⟨[("s", .choice [.seq [.apply "n", .lit "+"], .not (.apply "n"), .seq [.apply "n", .lit "-"]]),
    ("n", .lit "x")], []⟩

/-- In `x*` the rule `n` is applied three times at one offset, once in a lookahead. -/
theorem run_keep_retry :
    retryGrammar.run 10 "test" #['x', '*']
      = some (.rejected "test:1 Unexpected \"*\" at column 2" 1) ∧
    ∃ m, (retryGrammar.keep (· == "n")).run m "test" #['x', '*']
      = some (.rejected "test:1 Unexpected \"*\" at column 2" 1) := by
  have h : retryGrammar.run 10 "test" #['x', '*']
    = some (.rejected "test:1 Unexpected \"*\" at column 2" 1) := rfl
  refine ⟨h, run_keep ?_ _ h⟩
  simp [retryGrammar, Pattern.Everywhere, Pattern.nodes, Pattern.nodesAll, Pattern.FixedNode,
    Pattern.reads]

end Match

end Pegboard
