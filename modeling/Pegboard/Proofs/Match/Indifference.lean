import Pegboard.Proofs.Match.Active
import Pegboard.Proofs.Match.Operators

/-!
# Values that decide nothing

How a rule associates shows in the values that it gives, and in all that is made of them.  Such a
value can decide what is matched only if something asks for it: a predicate, an equality assertion,
or an expression that may fail.  If nothing does, a match goes the same way whatever these values
are.

This module makes that precise.  A `Variation` says which rules may give other values, and which
labels may be bound to others, or not at all; a grammar is `Indifferent` to it if it decides nothing
by them.  Two runs of one task are parallel if they differ in no more than that.  Which rules are
blocked may differ as well, as long as it makes no difference to the task.  Where a task applies the
rule `r` in question, it is for the caller to say that its runs are parallel.

## Main Definitions

* `Variation`, `Pattern.Varies`: which values may differ.
* `Bodies.Indifferent`: nothing is decided by such a value.
* `Expr.Builds`: expressions that only put values together, which decide nothing.
* `Parallel`: states that differ in such values only.

## Main Results

* `Run.followed`: a run is followed by one from every parallel state.
-/

namespace Pegboard

/-- Which values may differ: those of some rules, and those that some labels are bound to.  The
labels that are `loose` may be bound at one time and unbound at another. -/
structure Variation where
  rules : String → Prop
  labels : String → Prop
  loose : String → Prop

namespace Pattern

mutual

/-- Whether the value of a pattern may differ. -/
def Varies (v : Variation) : Pattern → Prop
  | .choice alts => VariesAny v alts
  | .seq ps => VariesLast v False ps
  | .scope _ ps => VariesLast v False ps
  | .label p _ => Varies v p
  | .leftrec _ rule => v.rules rule
  | .memo _ rule => v.rules rule
  | .apply name => v.rules name
  | .opt p => Varies v p
  | .star p => Varies v p
  | .plus p => Varies v p
  | .paren p => Varies v p
  | .action e => ∃ name ∈ e.reads, v.labels name
  | .lit _ => False
  | .range _ _ => False
  | .not _ => False
  | .capture _ => False
  | .pred _ => False
  | .eq _ => False
  | .pos => False
  | .empty => False

/-- Whether the value of one of some alternatives may differ. -/
def VariesAny (v : Variation) : List Pattern → Prop
  | [] => False
  | p :: ps => Varies v p ∨ VariesAny v ps

/-- Whether the value of the last of some terms may differ; `first` says it of the value before. -/
def VariesLast (v : Variation) (first : Prop) : List Pattern → Prop
  | [] => first
  | p :: ps => VariesLast v (Varies v p) ps

end

end Pattern

/-- Two stacks of scopes bind what an expression looks up to the same values, but for the labels of
the variation, which are bound in both or in neither. -/
structure Variation.Alike (v : Variation) (e : Expr) (a b : Scopes) : Prop where
  same : ∀ name ∈ e.reads, ¬ v.labels name → b.lookup? name = a.lookup? name
  bound : ∀ name ∈ e.reads, v.labels name → (b.lookup? name).isSome = (a.lookup? name).isSome

namespace Pattern

/-- A node decides nothing by a value that may differ, and such a value goes only to labels and
rules that the variation tells of.  What is decided by an expression is whether it is true, which
text it asks for, or whether it has a value at all. -/
def IndifferentNode (v : Variation) : Pattern → Prop
  | .label p name => p.Varies v → v.labels name
  | .leftrec p rule => p.Varies v → v.rules rule
  | .pred e => ∀ a b, v.Alike e a b → (e.eval b = .ok (.bool true) ↔ e.eval a = .ok (.bool true))
  | .eq e => ∀ a b, v.Alike e a b →
    ∀ text, e.eval b = .ok (.str text) ↔ e.eval a = .ok (.str text)
  | .action e => ∀ a b, v.Alike e a b → (e.eval b).isOk = (e.eval a).isOk
  | _ => True

end Pattern

/-- Nothing in the rules is decided by a value that may differ, and a rule looks up a loose label
only if it has bound it itself. -/
structure Bodies.Indifferent (bodies : Bodies) (v : Variation) : Prop where
  rules : ∀ b ∈ bodies, b.2.Varies v → v.rules b.1
  nodes : ∀ b ∈ bodies, b.2.Everywhere (Pattern.IndifferentNode v)
  knows : ∀ b ∈ bodies, b.2.Knows (fun _ => True) fun name => ¬ v.loose name

/-! ## Expressions that build -/

mutual

/-- Whether an expression only puts together texts and the values of variables. -/
def Expr.Builds : Expr → Prop
  | .var _ => True
  | .str _ => True
  | .arr items => Expr.BuildsAll items
  | .dec _ => False
  | .hex _ => False
  | .plus _ _ => False
  | .qual _ _ => False

/-- Whether the expressions of a list only put values together. -/
def Expr.BuildsAll : List Expr → Prop
  | [] => True
  | e :: es => e.Builds ∧ Expr.BuildsAll es

end

/-- Whether a variable has a value does not depend on what it is bound to. -/
theorem Scopes.isOk_variable {a b : Scopes} {name : String}
    (bound : (b.lookup? name).isSome = (a.lookup? name).isSome) :
    (b.variable name).isOk = (a.variable name).isOk := by
  unfold Scopes.variable
  cases ha : a.lookup? name with
  | none =>
    have hb : b.lookup? name = none := by simpa [ha] using bound
    rw [hb]
  | some value =>
    obtain ⟨value', hb⟩ := Option.isSome_iff_exists.1 (bound.trans (by rw [ha]; rfl))
    rw [hb]
    rfl

/-- Values that are put together are there if all of them are. -/
theorem Evaluated.isOk_cons (x : Evaluated Value) (xs : Evaluated (List Value)) :
    (do let v ← x; let vs ← xs; pure (v :: vs) : Evaluated (List Value)).isOk
      = (x.isOk && xs.isOk) := by
  cases x <;> cases xs <;> rfl

theorem Evaluated.isOk_seq (xs : Evaluated (List Value)) :
    (do let vs ← xs; pure (.seq vs) : Evaluated Value).isOk = xs.isOk := by
  cases xs <;> rfl

mutual

/-- Whether an expression that only puts values together has a value depends on whether its
variables have, and not on which values these are. -/
theorem Expr.isOk_of_builds {a b : Scopes} : ∀ e : Expr, e.Builds →
    (∀ name ∈ e.reads, (b.lookup? name).isSome = (a.lookup? name).isSome) →
    (e.eval b).isOk = (e.eval a).isOk
  | .var name, _, bound => Scopes.isOk_variable (bound name (.head _))
  | .str _, _, _ => rfl
  | .arr items, builds, bound => by
    rw [Expr.eval, Expr.eval, Evaluated.isOk_seq, Evaluated.isOk_seq,
      isOk_of_buildsAll items builds bound]

theorem Expr.isOk_of_buildsAll {a b : Scopes} : ∀ es : List Expr, Expr.BuildsAll es →
    (∀ name ∈ Expr.readsAll es, (b.lookup? name).isSome = (a.lookup? name).isSome) →
    (Expr.evalAll b es).isOk = (Expr.evalAll a es).isOk
  | [], _, _ => rfl
  | e :: es, builds, bound => by
    rw [Expr.evalAll, Expr.evalAll, Evaluated.isOk_cons, Evaluated.isOk_cons,
      isOk_of_builds e builds.1 fun name hn => bound name (List.mem_append_left _ hn),
      isOk_of_buildsAll es builds.2 fun name hn => bound name (List.mem_append_right _ hn)]

end

theorem Variation.Alike.isSome {v : Variation} {e : Expr} {a b : Scopes} (alike : v.Alike e a b)
    {name : String} (hname : name ∈ e.reads) :
    (b.lookup? name).isSome = (a.lookup? name).isSome := by
  by_cases hv : v.labels name
  · exact alike.bound name hname hv
  · rw [alike.same name hname hv]

/-- Nothing is decided by a node that is no predicate, no equality assertion, and no action but one
that only puts values together. -/
def Pattern.BuildsNode : Pattern → Prop
  | .pred _ => False
  | .eq _ => False
  | .action e => e.Builds
  | _ => True

/-- Rules of such nodes decide nothing by any value. -/
theorem Bodies.indifferent_of_builds {bodies : Bodies} {loose : String → Prop}
    (builds : ∀ b ∈ bodies, b.2.Everywhere Pattern.BuildsNode)
    (knows : ∀ b ∈ bodies, b.2.Knows (fun _ => True) fun name => ¬ loose name) :
    bodies.Indifferent ⟨fun _ => True, fun _ => True, loose⟩ where
  rules _ _ _ := trivial
  nodes b hb p hp := by
    have hnode : p.BuildsNode := builds b hb p hp
    cases p with
    | pred e | eq e => exact hnode.elim
    | action e => exact fun _ _ alike => e.isOk_of_builds hnode fun _ => alike.isSome
    | label p name | leftrec p rule => exact fun _ => trivial
    | _ => trivial
  knows := knows

namespace Match

/-! ## Parallel states -/

/-- Two outcomes are the same up to a value that may differ. -/
structure SameOutcome (varies : Prop) (o o' : Outcome) : Prop where
  failed : o'.failed = o.failed
  pos : o'.pos = o.pos
  value : o.failed = false → ¬ varies → o'.value = o.value

/-- Two states differ in no more than values that may differ, seeds of `r`, and which rules are
blocked.  From the offset `h` on there is no seed of `r`.  The names in `known` are bound in both
states or in neither. -/
structure Parallel (v : Variation) (r : String) (h : Nat) (known : String → Prop)
    (s u : MatchState) : Prop where
  pos : u.pos = s.pos
  blocked : u.blocked = [] ∨ u.blocked = s.blocked
  seeds : ∀ key : RuleAt, key.1 ≠ r →
    Option.Rel (SameOutcome (v.rules key.1)) (s.seeds.get? key) (u.seeds.get? key)
  clear : Clear r h s ∧ Clear r h u
  lookup : ∀ name, ¬ v.labels name → u.scopes.lookup? name = s.scopes.lookup? name
  bound : ∀ name, known name → v.labels name →
    (u.scopes.lookup? name).isSome = (s.scopes.lookup? name).isSome

/-- Two runs have ended in parallel.  If they succeeded, the names in `binds` are bound in both
states or in neither as well. -/
structure Ended (v : Variation) (r : String) (h : Nat) (known binds : String → Prop)
    (varies : Prop) (s u : MatchState) : Prop where
  parallel : Parallel v r h known s u
  outcome : SameOutcome varies s.outcome u.outcome
  bound : s.failed = false → ∀ name, binds name → v.labels name →
    (u.scopes.lookup? name).isSome = (s.scopes.lookup? name).isSome

variable {v : Variation} {r : String} {h : Nat} {known binds : String → Prop} {varies : Prop}
variable {s t u s' u' : MatchState}

theorem Ended.failed (e : Ended v r h known binds varies s u) : u.failed = s.failed :=
  e.outcome.failed

theorem Ended.value (e : Ended v r h known binds varies s u) (good : s.failed = false)
    (h : ¬ varies) : u.value = s.value :=
  e.outcome.value good h

theorem Ended.imp {binds' : String → Prop} {varies' : Prop}
    (e : Ended v r h known binds varies s u)
    (hvaries : s.failed = false → ¬ varies' → ¬ varies)
    (hbinds : s.failed = false → ∀ name, binds' name → binds name) :
    Ended v r h known binds' varies' s u :=
  ⟨e.parallel, ⟨e.outcome.failed, e.outcome.pos, fun good h => e.value good (hvaries good h)⟩,
    fun good name hn => e.bound good name (hbinds good name hn)⟩

/-- Of runs that have failed there is no more to say. -/
theorem Ended.imp_of_failed {binds' : String → Prop} {varies' : Prop}
    (e : Ended v r h known binds varies s u) (bad : s.failed = true) :
    Ended v r h known binds' varies' s u :=
  e.imp (fun good => absurd bad (ne_true_of_eq_false good))
    fun good => absurd bad (ne_true_of_eq_false good)

/-- After a run that succeeded, the names that it has bound are known as well. -/
theorem Ended.more (e : Ended v r h known binds varies s u) (good : s.failed = false) :
    Parallel v r h (fun name => known name ∨ binds name) s u :=
  ⟨e.parallel.pos, e.parallel.blocked, e.parallel.seeds, e.parallel.clear, e.parallel.lookup,
    fun name hn => hn.elim (e.parallel.bound name) (e.bound good name)⟩

theorem Parallel.fewer {known' : String → Prop} (p : Parallel v r h known s u)
    (hknown : ∀ name, known' name → known name) : Parallel v r h known' s u :=
  ⟨p.pos, p.blocked, p.seeds, p.clear, p.lookup, fun name hn => p.bound name (hknown name hn)⟩

/-! ## Changes made to both states -/

namespace Parallel

/-- Parallel states with another offset. -/
theorem moved (p : Parallel v r h known s u) (pos : Nat) :
    Parallel v r h known { s with pos := pos } { u with pos := pos } :=
  ⟨rfl, p.blocked, p.seeds, p.clear, p.lookup, p.bound⟩

theorem succeed (p : Parallel v r h known s u) (value value' : Value) :
    Parallel v r h known (s.succeed value) (u.succeed value') :=
  ⟨p.pos, p.blocked, p.seeds, p.clear, p.lookup, p.bound⟩

/-- Successes whose values are the same unless they may differ. -/
theorem succeeded (p : Parallel v r h known s u) {value value' : Value}
    (same : ¬ varies → value' = value) :
    Ended v r h known (fun _ => False) varies (s.succeed value) (u.succeed value') :=
  ⟨p.succeed value value', ⟨rfl, p.pos, fun _ => same⟩, fun _ _ hn => hn.elim⟩

theorem pushed (p : Parallel v r h known s u) :
    Parallel v r h known ({ s with scopes := s.scopes.push }.succeed .null)
      ({ u with scopes := u.scopes.push }.succeed .null) :=
  ⟨p.pos, p.blocked, p.seeds, p.clear, p.lookup, p.bound⟩

/-- Outcomes that are the same up to a value, adopted in both states. -/
theorem adopt (p : Parallel v r h known s u) {o o' : Outcome} (same : SameOutcome varies o o') :
    Ended v r h known (fun _ => False) varies (s.adopt o) (u.adopt o') :=
  ⟨⟨same.pos, p.blocked, p.seeds, p.clear, p.lookup, p.bound⟩,
    ⟨same.failed, same.pos, same.value⟩, fun _ _ hn => hn.elim⟩

/-- After two outcomes that are the same up to a value. -/
theorem after (p : Parallel v r h known s u) {o o' : Outcome} (same : SameOutcome varies o o')
    (failure failure' : Option Failure) :
    Ended v r h known (fun _ => False) varies (s.after o failure) (u.after o' failure') :=
  ⟨⟨same.pos, p.blocked, p.seeds, p.clear, p.lookup, p.bound⟩,
    ⟨same.failed, same.pos, same.value⟩, fun _ _ hn => hn.elim⟩

/-- A rule other than `r` is entered in parallel. -/
theorem entering (p : Parallel v r h known s u) (name : String) :
    Parallel v r h known (s.entering name) (u.entering name) := by
  have blocked : (u.entering name).blocked = [] ∨
      (u.entering name).blocked = (s.entering name).blocked := by
    rcases p.blocked with hnone | hsame
    · left
      unfold MatchState.entering
      rw [hnone]
      exact hnone
    · right
      unfold MatchState.entering
      rw [hsame]
      split
      · exact hsame
      · rfl
  refine ⟨?_, blocked, ?_, ?_, ?_, ?_⟩
  · rw [u.entering_pos, s.entering_pos, p.pos]
  · rw [u.entering_seeds, s.entering_seeds]
    exact p.seeds
  · rw [Clear, Clear, u.entering_seeds, s.entering_seeds]
    exact p.clear
  · rw [u.entering_scopes, s.entering_scopes]
    exact p.lookup
  · rw [u.entering_scopes, s.entering_scopes]
    exact p.bound

/-- A seed of a rule other than `r`, recorded in both states. -/
theorem insert (p : Parallel v r h known s u) {key : RuleAt} (hkey : key.1 ≠ r) {o o' : Outcome}
    (same : SameOutcome (v.rules key.1) o o') :
    Parallel v r h known { s with seeds := s.seeds.insert key o }
      { u with seeds := u.seeds.insert key o' } := by
  have other (q : Nat) : ((r, q) : RuleAt) ≠ key := fun heq => hkey (heq ▸ rfl)
  refine ⟨p.pos, p.blocked, fun k hk => ?_, ⟨fun q hq => ?_, fun q hq => ?_⟩, p.lookup, p.bound⟩
  · show Option.Rel _ ((s.seeds.insert key o).get? k) ((u.seeds.insert key o').get? k)
    by_cases heq : k = key
    · rw [heq, Table.get?_insert_self, Table.get?_insert_self]
      exact .some same
    · rw [Table.get?_insert_of_ne _ _ heq, Table.get?_insert_of_ne _ _ heq]
      exact p.seeds k hk
  · exact (Table.get?_insert_of_ne _ _ (other q)).trans (p.clear.1 q hq)
  · exact (Table.get?_insert_of_ne _ _ (other q)).trans (p.clear.2 q hq)

/-- What is recorded at a key, given up in both states. -/
theorem erase (p : Parallel v r h known s u) (key : RuleAt) :
    Parallel v r h known { s with seeds := s.seeds.erase key }
      { u with seeds := u.seeds.erase key } := by
  have gone {t : MatchState} (clear : Clear r h t) :
      Clear r h { t with seeds := t.seeds.erase key } := by
    intro q hq
    by_cases heq : (r, q) = key
    · rw [heq]
      exact Table.get?_erase_self _ _
    · exact (Table.get?_erase_of_ne _ heq).trans (clear q hq)
  refine ⟨p.pos, p.blocked, fun k hk => ?_, ⟨gone p.clear.1, gone p.clear.2⟩, p.lookup, p.bound⟩
  show Option.Rel _ ((s.seeds.erase key).get? k) ((u.seeds.erase key).get? k)
  by_cases heq : k = key
  · rw [heq, Table.get?_erase_self, Table.get?_erase_self]
    exact .none
  · rw [Table.get?_erase_of_ne _ heq, Table.get?_erase_of_ne _ heq]
    exact p.seeds k hk

end Parallel

/-- A label is bound in parallel, if a value that may differ is bound only to a label that tells of
it. -/
theorem Ended.labelled (e : Ended v r h known binds varies s u) {name : String}
    (hname : varies → v.labels name) :
    Ended v r h known (fun n => name = n ∨ binds n) varies (s.labelled name) (u.labelled name) := by
  cases hf : s.failed with
  | true =>
    have hs : s.labelled name = s := if_pos hf
    have hu : u.labelled name = u := if_pos (e.failed.trans hf)
    rw [hs, hu]
    exact e.imp_of_failed hf
  | false =>
    have hs : s.labelled name = { s with scopes := s.scopes.bind name s.value } :=
      if_neg (ne_true_of_eq_false hf)
    have hu : u.labelled name = { u with scopes := u.scopes.bind name u.value } :=
      if_neg (ne_true_of_eq_false (e.failed.trans hf))
    rw [hs, hu]
    have bound (n : String) (hn : n ≠ name →
        (u.scopes.lookup? n).isSome = (s.scopes.lookup? n).isSome) :
        ((u.scopes.bind name u.value).lookup? n).isSome
          = ((s.scopes.bind name s.value).lookup? n).isSome := by
      by_cases heq : n = name
      · rw [heq, Scopes.lookup?_bind_self, Scopes.lookup?_bind_self]
        rfl
      · rw [Scopes.lookup?_bind_of_ne _ _ heq, Scopes.lookup?_bind_of_ne _ _ heq, hn heq]
    refine ⟨⟨e.parallel.pos, e.parallel.blocked, e.parallel.seeds, e.parallel.clear,
      fun n hn => ?_, fun n hn hlabel => bound n fun _ => e.parallel.bound n hn hlabel⟩, e.outcome,
      fun _ n hn hlabel => bound n fun hne =>
        e.bound hf n (hn.resolve_left fun h => hne h.symm) hlabel⟩
    show (u.scopes.bind name u.value).lookup? n = (s.scopes.bind name s.value).lookup? n
    by_cases heq : n = name
    · subst heq
      rw [Scopes.lookup?_bind_self, Scopes.lookup?_bind_self, e.value hf fun hv => hn (hname hv)]
    · rw [Scopes.lookup?_bind_of_ne _ _ heq, Scopes.lookup?_bind_of_ne _ _ heq]
      exact e.parallel.lookup n hn

/-- Whether a round has reached further than the seed is the same in parallel. -/
theorem Ended.outgrows (e : Ended v r h known binds varies s u) {key : RuleAt} (hkey : key.1 ≠ r) :
    u.outgrows key = s.outgrows key := by
  unfold MatchState.outgrows
  rw [e.failed, e.parallel.pos]
  rcases none_or_some_of_rel (e.parallel.seeds key hkey) with ⟨hs, hu⟩ | ⟨o, o', hs, hu, same⟩
  · rw [hs, hu]
  · rw [hs, hu]
    simp only [same.failed, same.pos]

/-- Where a rule does not associate to the left, no rule is blocked while it grows. -/
theorem growing_eq_seeded {g : Grammar} {rule : String} (notAssoc : g.isLeftAssoc rule = false)
    (s : MatchState) : growing g rule s = s.seeded rule := by
  rw [growing, notAssoc]
  rfl

/-- A rule other than `r` has grown in parallel. -/
theorem Ended.grown {g g' : Grammar} {rule : String} (hrule : rule ≠ r)
    (notAssoc : g.isLeftAssoc rule = false) (notAssoc' : g'.isLeftAssoc rule = false)
    (hpos : u.pos = s.pos) (e : Ended v r h known binds varies s' u') :
    Ended v r h known (fun _ => False) (v.rules rule) (grown g rule s s') (grown g' rule u u') := by
  have same : SameOutcome (v.rules rule)
      ((s'.seeds.get? (rule, s.pos)).getD (.failing s.pos))
      ((u'.seeds.get? (rule, u.pos)).getD (.failing u.pos)) := by
    rw [hpos]
    rcases none_or_some_of_rel (e.parallel.seeds (rule, s.pos) hrule) with
      ⟨hs, hu⟩ | ⟨o, o', hs, hu, same⟩
    · rw [hs, hu]
      exact ⟨rfl, rfl, fun _ _ => rfl⟩
    · rw [hs, hu]
      exact same
  rw [Match.grown, Match.grown, notAssoc, notAssoc']
  have erased := e.parallel.erase (rule, s.pos)
  rw [← hpos] at erased ⊢
  exact erased.adopt (hpos ▸ same)

/-- A lookahead succeeds or fails in parallel. -/
theorem Ended.looked (p : Parallel v r h known s u)
    (e : Ended v r h known binds varies s' u') :
    Ended v r h known (fun _ => False) False (looked s s') (looked u u') := by
  unfold Match.looked
  rw [e.failed]
  have back : Parallel v r h known { s' with furthest := s.furthest, pos := s.pos }
      { u' with furthest := u.furthest, pos := u.pos } :=
    ⟨p.pos, e.parallel.blocked, e.parallel.seeds, e.parallel.clear, e.parallel.lookup,
      e.parallel.bound⟩
  split
  · exact ⟨back.succeed .null .null, ⟨rfl, p.pos, fun _ _ => rfl⟩, fun _ _ hn => hn.elim⟩
  · rw [MatchState.fail_eq_after, MatchState.fail_eq_after, p.pos]
    exact ⟨⟨rfl, back.blocked, back.seeds, back.clear, back.lookup, back.bound⟩,
      ⟨rfl, rfl, fun _ _ => rfl⟩, fun _ _ hn => hn.elim⟩

theorem Ended.optional (p : Parallel v r h known s u)
    (e : Ended v r h known binds varies s' u') :
    Ended v r h known (fun _ => False) varies (optional s s') (optional u u') := by
  unfold Match.optional
  rw [e.failed]
  split
  · rw [p.pos]
    exact ⟨(e.parallel.moved s.pos).succeed .null .null, ⟨rfl, rfl, fun _ _ => rfl⟩,
      fun _ _ hn => hn.elim⟩
  · exact e.imp (fun _ => id) fun _ _ hn => hn.elim

/-- The text that was matched is the same. -/
theorem Ended.captured {input : Array Char} (p : Parallel v r h known s u)
    (e : Ended v r h known binds varies s' u') :
    Ended v r h known binds False (captured input s s') (captured input u u') := by
  unfold Match.captured
  rw [e.failed]
  split
  · next bad =>
    exact ⟨e.parallel, ⟨e.outcome.failed, e.outcome.pos, fun good => absurd bad
      (ne_true_of_eq_false good)⟩, e.bound⟩
  · next good =>
    rw [p.pos, e.parallel.pos]
    exact ⟨e.parallel.succeed _ _, ⟨rfl, e.parallel.pos, fun _ _ => rfl⟩,
      fun _ => e.bound (Bool.eq_false_iff.2 good)⟩

/-! ## Tasks -/

/-- Whether the value of a task may differ; `first` says it of the value before its terms. -/
def Task.Varies (v : Variation) (first : Prop) : Task → Prop
  | .whole p => p.Varies v
  | .alts _ ps => Pattern.VariesAny v ps
  | .terms ps => Pattern.VariesLast v first ps
  | .repeated inner _ => inner.Varies v
  | .grow _ _ => True

/-- What else is asked of parallel states: terms may have the outcome that was there before them. -/
def Task.Begins (first : Prop) : Task → MatchState → MatchState → Prop
  | .terms _, s, u => SameOutcome first s.outcome u.outcome
  | _, _, _ => True

/-- A grammar with the same rules as `g`, in which no rule but `r` associates to the left. -/
structure Variant (r : String) (g g' : Grammar) : Prop where
  bodies : g'.bodies = g.bodies
  others : ∀ name, name ≠ r → g'.isLeftAssoc name = false

/-- From every parallel state, and in every variant of the grammar, the task runs in parallel, and
its failures reach as far. -/
def Followed (v : Variation) (g : Grammar) (input : Array Char) (r : String) (h : Nat) (task : Task)
    (s s' : MatchState) : Prop :=
  ∃ c, s'.reach = max s.reach c ∧ ∀ g' known first u, Variant r g g' →
    (∀ name, ¬ v.loose name → known name) → task.Knows (fun _ => True) known →
    Parallel v r h known s u → task.Begins first s u →
    ∃ u', Run g' input task u u' ∧ u'.reach = max u.reach c ∧
      Ended v r h known (fun name => task.Binds name) (task.Varies v first) s' u'

/-- A node that decides nothing by a value that may differ, and that is neither a left-recursive
body of `r` nor one whose outcomes are kept. -/
structure PlainIn (v : Variation) (r : String) (p : Pattern) : Prop where
  indifferent : p.IndifferentNode v
  notBody : NotBodyOf r p
  notMemo : p.NotMemo

/-- What is asked of a task in a state: if `r` is blocked, then the task does not apply it itself,
and wherever it comes to apply it, that is from the offset `h` on, where there is no seed of it, and
in a state of those in `At`. -/
structure Suited (v : Variation) (g : Grammar) (input : Array Char) (r : String) (h : Nat)
    (At : MatchState → Prop) (task : Task) (s : MatchState) : Prop where
  plain : All (PlainIn v r) task.patterns
  key : ∀ inner key, task = .grow inner key →
    key.1 ≠ r ∧ (inner.Varies v → v.rules key.1)
  free : s.blocked = [] ∨ s.blocked = [r] ∧ All (· ≠ .apply r) task.patterns
  clear : Clear r h s
  ahead : ∀ w, Reaches g input task s (.whole (.apply r)) w → h ≤ w.pos ∧ At w

/-- A grammar is oblivious of how the rule `r` associates: it decides nothing by the values of the
variation, those of `r` among them. -/
structure Oblivious (g : Grammar) (r : String) (v : Variation) : Prop where
  indifferent : g.bodies.Indifferent v
  closed : ∀ b ∈ g.bodies, b.2.Closed
  memoless : ∀ b ∈ g.bodies, b.2.Everywhere Pattern.NotMemo
  own : ∀ name body, name ≠ r → g.body? name = some body → All (NotBodyOf r) [body]
  others : ∀ name, name ≠ r → g.isLeftAssoc name = false
  varies : v.rules r

variable {g g' : Grammar} {input : Array Char} {At : MatchState → Prop} {task task' : Task}

/-- The bodies of the other rules are plain. -/
theorem Oblivious.body (oblivious : Oblivious g r v) {name : String} {body : Pattern}
    (hname : name ≠ r) (found : g.body? name = some body) : All (PlainIn v r) [body] := by
  intro p hp
  rw [List.mem_singleton.1 hp]
  have mem := Bodies.mem_of_body? found
  intro q hq
  exact ⟨oblivious.indifferent.nodes _ mem q hq,
    oblivious.own name body hname found body (.head _) q hq, oblivious.memoless _ mem q hq⟩

/-- What a suited task comes to next is suited, unless it applies `r`. -/
theorem Suited.part (oblivious : Oblivious g r v) (suited : Suited v g input r h At task s)
    (call : Calls g input task s task' t) (other : task ≠ .whole (.apply r)) :
    Suited v g input r h At task' t := by
  have ahead (w : MatchState) (hw : Reaches g input task' t (.whole (.apply r)) w) :
      h ≤ w.pos ∧ At w := suited.ahead w (.step call hw)
  have clear : Clear r h t := by
    intro q hq
    refine Classical.byContradiction fun active => ?_
    rcases call.seeds active with before | ⟨inner, heq, -⟩
    · exact before (suited.clear q hq)
    · subst heq
      exact suited.plain.here.notBody inner rfl
  rcases call.rule_or_all with ⟨name, body, rfl, found, rfl, rfl⟩ | keeps
  · have hname : name ≠ r := fun heq => other (heq ▸ rfl)
    refine ⟨oblivious.body hname found, nofun, .inl ?_, clear, ahead⟩
    unfold MatchState.entering
    rcases suited.free with hnone | ⟨hown, -⟩
    · rw [hnone]
      exact hnone
    · rw [hown]
      simp [hname]
  · have blocked : t.blocked = s.blocked ∨ t.blocked = [] := by
      cases call with
      | altsTail h | termsTail h | repeatedTail h | growTail h | plusTail h =>
        exact .inl h.blocked_eq
      | @grown inner rule =>
        have hrule : rule ≠ r := fun heq => suited.plain.here.notBody inner (heq ▸ rfl)
        rw [growing_eq_seeded (oblivious.others rule hrule)]
        exact .inl rfl
      | @rule name =>
        unfold MatchState.entering
        split
        · exact .inl rfl
        · exact .inr rfl
      | _ => exact .inl rfl
    refine ⟨keeps _ suited.plain, fun inner key heq => ?_, ?_, clear, ahead⟩
    · cases call with
      | growHead | choice | seq | scope | label | once | miss | not | opt | star => cases heq
      | growTail =>
        cases heq
        exact suited.key _ _ rfl
      | @grown inner' rule =>
        cases heq
        exact ⟨fun heq => suited.plain.here.notBody inner (heq ▸ rfl),
          suited.plain.here.indifferent⟩
      | _ => cases heq
    · rcases suited.free with hnone | ⟨hown, all⟩
      · exact .inl (blocked.elim (·.trans hnone) id)
      · exact blocked.symm.imp id fun hsame => ⟨hsame.trans hown, keeps _ all⟩

/-! ## Runs -/

/-- A run in which the rule `r` is applied has parallel runs that end where it ends, and in which
failures reach as far. -/
def Answered (v : Variation) (g : Grammar) (input : Array Char) (r : String) (s s' : MatchState) :
    Prop :=
  ∃ c, s'.reach = max s.reach c ∧ ∀ g' u, Variant r g g' →
    Parallel v r s.pos (fun name => ¬ v.loose name) s u → u.blocked = [] →
    ∃ u', Run g' input (.whole (.apply r)) u u' ∧ u'.reach = max u.reach c ∧
      u'.failed = s'.failed ∧ u'.pos = s'.pos

theorem reach_after (s : MatchState) (o : Outcome) (failure : Option Failure) :
    (s.after o failure).reach = max s.reach (Failure.reach failure) :=
  Failure.reach_merge _ _

theorem reach_fail (s : MatchState) (cause : Option FailureCause) :
    (s.fail cause).reach = max s.reach (s.pos + 1) := by
  rw [MatchState.fail_eq_after, reach_after]
  rfl

/-- A lookahead that fails does so where it is. -/
theorem reach_looked (s s' : MatchState) :
    (looked s s').reach = max s.reach (if s'.failed then 0 else s.pos + 1) := by
  unfold looked
  split
  · exact (Nat.max_zero _).symm
  · exact reach_fail _ _

theorem reach_trans {c c' : Nat} (h : t.reach = max s.reach c) (h' : s'.reach = max t.reach c') :
    s'.reach = max s.reach (max c c') := by
  rw [h', h, Nat.max_assoc]

/-- Failures where both states are. -/
theorem Parallel.fail (p : Parallel v r h known s u) (cause cause' : Option FailureCause) :
    Ended v r h known binds varies (s.fail cause) (u.fail cause') := by
  rw [MatchState.fail_eq_after, MatchState.fail_eq_after, p.pos]
  have same : SameOutcome False ⟨.null, true, s.pos⟩ ⟨.null, true, s.pos⟩ :=
    ⟨rfl, rfl, fun _ _ => rfl⟩
  exact (p.after same _ _).imp_of_failed rfl

/-- States that are parallel for the offset `h` are parallel for every later one. -/
theorem Parallel.later (p : Parallel v r h known s u) {h' : Nat} (hle : h ≤ h') :
    Parallel v r h' known s u :=
  ⟨p.pos, p.blocked, p.seeds, ⟨fun q hq => p.clear.1 q (Nat.le_trans hle hq),
    fun q hq => p.clear.2 q (Nat.le_trans hle hq)⟩, p.lookup, p.bound⟩

/-- After runs that have left all but the outcome as it was, states are still parallel. -/
theorem Parallel.framed (p : Parallel v r h known s u) (hs : frame s' = frame s)
    (hu : frame u' = frame u) (scopes : s'.scopes = s.scopes) (scopes' : u'.scopes = u.scopes)
    (hpos : u'.pos = s'.pos) : Parallel v r h known s' u' := by
  have seeds : s'.seeds = s.seeds := congrArg Prod.fst hs
  have seeds' : u'.seeds = u.seeds := congrArg Prod.fst hu
  have blocked : s'.blocked = s.blocked := congrArg (·.2.1) hs
  have blocked' : u'.blocked = u.blocked := congrArg (·.2.1) hu
  refine ⟨hpos, ?_, ?_, ?_, ?_, ?_⟩
  · rw [blocked, blocked']
    exact p.blocked
  · rw [seeds, seeds']
    exact p.seeds
  · rw [Clear, Clear, seeds, seeds']
    exact p.clear
  · rw [scopes, scopes']
    exact p.lookup
  · rw [scopes, scopes']
    exact p.bound

/-- The values so far have no influence on repetitions but on their value. -/
theorem Run.repeated_items {inner : Pattern} {items : List Value}
    (run : Run g input (.repeated inner items) s s') (items' : List Value) :
    s'.failed = false ∧ ∃ value, Run g input (.repeated inner items') s (s'.succeed value) := by
  generalize htask : Task.repeated inner items = task at run
  induction run generalizing items items' with
  | repeatedStop run bad =>
    cases htask
    have stop : Run g input (.repeated inner items') _ _ := .repeatedStop run bad
    exact ⟨rfl, _, stop⟩
  | repeatedStill run good still =>
    cases htask
    have stop : Run g input (.repeated inner items') _ _ := .repeatedStill run good still
    exact ⟨rfl, _, stop⟩
  | repeatedNext run good moved _ _ ih =>
    cases htask
    obtain ⟨done, value, rest⟩ := ih _ rfl
    exact ⟨done, value, .repeatedNext run good moved rest⟩
  | _ => cases htask

/-- Repetitions go on in parallel from the values that each run has so far. -/
theorem Ended.repeated {known' binds' : String → Prop} {inner : Pattern} {items : List Value}
    (e : Ended v r h known binds (inner.Varies v) s u) (good : s.failed = false)
    (run : Run g input (.repeated inner (s.value :: items)) u u')
    (rest : Ended v r h known' binds' (inner.Varies v) s' u') :
    ∃ w, Run g input (.repeated inner (u.value :: items)) u w ∧ w.reach = u'.reach ∧
      Ended v r h known' binds' (inner.Varies v) s' w := by
  by_cases hv : inner.Varies v
  · obtain ⟨done, value, run'⟩ := run.repeated_items (u.value :: items)
    refine ⟨_, run', rfl, ?_, ⟨?_, rest.parallel.pos, fun _ hn => absurd hv hn⟩, rest.bound⟩
    · exact ⟨rest.parallel.pos, rest.parallel.blocked, rest.parallel.seeds, rest.parallel.clear,
        rest.parallel.lookup, rest.parallel.bound⟩
    · exact done.symm.trans rest.failed
  · rw [← e.value good hv] at run
    exact ⟨u', run, rfl, rest⟩

theorem Variant.body? (variant : Variant r g g') (name : String) :
    g'.body? name = g.body? name := by
  rw [Grammar.body?, variant.bodies]
  rfl

/-- A pattern without parts does the same in every variant of a grammar. -/
theorem Variant.atom? (variant : Variant r g g') (p : Pattern) (s : MatchState) :
    atom? g' input p s = atom? g input p s := by
  cases p with
  | apply name =>
    rw [Match.atom?, Match.atom?, variant.body?]
  | _ => rfl

/-- A predicate succeeds if it is true, and fails otherwise. -/
theorem predicate_cases (e : Expr) (s : MatchState) :
    (e.eval s.scopes = .ok (.bool true) ∧ predicate e s = s.succeed (.bool true)) ∨
      (e.eval s.scopes ≠ .ok (.bool true) ∧ ∃ cause, predicate e s = s.fail cause) := by
  unfold predicate evaluated
  cases h : e.eval s.scopes with
  | error error => exact .inr ⟨nofun, _, rfl⟩
  | ok value =>
    cases value with
    | bool b =>
      cases b with
      | true => exact .inl ⟨rfl, rfl⟩
      | false => exact .inr ⟨by simp, _, rfl⟩
    | _ => exact .inr ⟨by simp, _, rfl⟩

/-- An equality assertion matches the text that it asks for, and fails if it asks for none. -/
theorem equality_cases (input : Array Char) (e : Expr) (s : MatchState) :
    (∃ text, e.eval s.scopes = .ok (.str text) ∧ equality input e s = literal input text s) ∨
      ((∀ text, e.eval s.scopes ≠ .ok (.str text)) ∧
        ∃ cause, equality input e s = s.fail cause) := by
  unfold equality evaluated
  cases h : e.eval s.scopes with
  | error error => exact .inr ⟨nofun, _, rfl⟩
  | ok value =>
    cases value with
    | str text => exact .inl ⟨text, rfl, rfl⟩
    | _ => exact .inr ⟨by simp, _, rfl⟩

/-- An action gives the value of its expression, and fails if it has none. -/
theorem action_cases (e : Expr) (s : MatchState) :
    (∃ value, e.eval s.scopes = .ok value ∧ action e s = s.succeed value) ∨
      ((e.eval s.scopes).isOk = false ∧ ∃ cause, action e s = s.fail cause) := by
  unfold action evaluated
  cases e.eval s.scopes with
  | error error => exact .inr ⟨rfl, _, rfl⟩
  | ok value => exact .inl ⟨value, rfl, rfl⟩

/-- Where a pattern without parts fails that has an expression, it does so where it is. -/
theorem followed_of_fails {p : Pattern} (fails : ∃ cause, s' = s.fail cause)
    (also : ∀ known u, Task.Knows (fun _ => True) known (.whole p) → Parallel v r h known s u →
      ∃ cause, atom? g input p u = some (u.fail cause)) :
    Followed v g input r h (.whole p) s s' := by
  obtain ⟨cause, rfl⟩ := fails
  refine ⟨_, reach_fail _ _, fun g' known first u variant _ knows par _ => ?_⟩
  obtain ⟨cause', hu⟩ := also known u knows par
  exact ⟨_, .atom ((variant.atom? p u).trans hu), par.pos ▸ reach_fail _ _, par.fail _ _⟩

/-- What an expression looks up is bound alike in parallel states, if it is known. -/
theorem Parallel.alike (par : Parallel v r h known s u) {e : Expr}
    (knows : ∀ name ∈ e.reads, known name) : v.Alike e s.scopes u.scopes :=
  ⟨fun name _ => par.lookup name, fun name hn => par.bound name (knows name hn)⟩

/-- A predicate runs in parallel if whether it is true is not decided by a value that may differ. -/
theorem followed_predicate {e : Expr} (indifferent : (Pattern.pred e).IndifferentNode v) :
    Followed v g input r h (.whole (.pred e)) s (predicate e s) := by
  rcases predicate_cases e s with ⟨holds, hs⟩ | ⟨not, fails⟩
  · rw [hs]
    refine ⟨0, (Nat.max_zero _).symm, fun g' known first u variant _ knows par _ => ?_⟩
    have holds' := (indifferent _ _ (par.alike knows)).2 holds
    have hu := ((predicate_cases e u).resolve_right fun h => h.1 holds').2
    exact ⟨_, .atom (congrArg some hu), (Nat.max_zero _).symm, par.succeeded fun _ => rfl⟩
  · refine followed_of_fails fails fun known u knows par => ?_
    have not' := mt (indifferent _ _ (par.alike knows)).1 not
    obtain ⟨cause, hu⟩ := ((predicate_cases e u).resolve_left fun h => not' h.1).2
    exact ⟨cause, congrArg some hu⟩

/-- An equality assertion runs in parallel if the text that it asks for is not decided by a value
that may differ. -/
theorem followed_equality {e : Expr} (indifferent : (Pattern.eq e).IndifferentNode v) :
    Followed v g input r h (.whole (.eq e)) s (equality input e s) := by
  rcases equality_cases input e s with ⟨text, asks, hs⟩ | ⟨not, fails⟩
  · obtain ⟨outcome, failure, -, effect⟩ := literal_effect input text s
    rw [hs, effect s rfl]
    refine ⟨_, reach_after _ _ _, fun g' known first u variant _ knows par _ => ?_⟩
    have asks' := (indifferent _ _ (par.alike knows) text).2 asks
    have hu : equality input e u = u.after outcome failure := by
      rw [← effect u par.pos]
      rcases equality_cases input e u with ⟨text', h, hu⟩ | ⟨not, -⟩
      · cases h.symm.trans asks'
        exact hu
      · exact absurd asks' (not text)
    exact ⟨_, .atom (congrArg some hu), reach_after _ _ _,
      par.after ⟨rfl, rfl, fun _ _ => rfl⟩ _ _⟩
  · refine followed_of_fails fails fun known u knows par => ?_
    have not' text := mt (indifferent _ _ (par.alike knows) text).1 (not text)
    obtain ⟨cause, hu⟩ := ((equality_cases input e u).resolve_left fun ⟨text, h, _⟩ =>
      not' text h).2
    exact ⟨cause, congrArg some hu⟩

/-- An action runs in parallel if whether it has a value is not decided by a value that may differ.
The value itself is the same if no label is looked up that may be bound to another. -/
theorem followed_action {e : Expr} (indifferent : (Pattern.action e).IndifferentNode v) :
    Followed v g input r h (.whole (.action e)) s (action e s) := by
  rcases action_cases e s with ⟨value, has, hs⟩ | ⟨not, fails⟩
  · rw [hs]
    refine ⟨0, (Nat.max_zero _).symm, fun g' known first u variant _ knows par _ => ?_⟩
    have isOk := indifferent _ _ (par.alike knows)
    rcases action_cases e u with ⟨value', has', hu⟩ | ⟨not, -⟩
    · refine ⟨_, .atom (congrArg some hu), (Nat.max_zero _).symm, par.succeeded fun hn => ?_⟩
      have fixed : Scopes.AlikeOn e.reads s.scopes u.scopes := fun name hmem =>
        (par.lookup name fun hl => hn ⟨name, hmem, hl⟩).symm
      rw [Expr.eval_congr e fixed, has'] at has
      exact Except.ok.inj has
    · rw [isOk, has] at not
      contradiction
  · refine followed_of_fails fails fun known u knows par => ?_
    have not' := (indifferent _ _ (par.alike knows)).trans not
    rcases action_cases e u with ⟨value, has, -⟩ | ⟨-, cause, hu⟩
    · rw [has] at not'
      contradiction
    · exact ⟨cause, congrArg some hu⟩

/-- A pattern without parts binds nothing. -/
theorem not_binds_of_atom {p : Pattern} (run : atom? g input p s = some s') (name : String) :
    ¬ p.Binds name := by
  cases p <;> first | contradiction | exact id

/-- A pattern without parts that decides nothing by a value that may differ runs in parallel. -/
theorem followed_atom {p : Pattern} (indifferent : p.IndifferentNode v)
    (run : atom? g input p s = some s') : Followed v g input r h (.whole p) s s' := by
  cases p with
  | pred e => exact Option.some.inj run ▸ followed_predicate indifferent
  | eq e => exact Option.some.inj run ▸ followed_equality indifferent
  | action e => exact Option.some.inj run ▸ followed_action indifferent
  | _ =>
    -- Nothing is looked up, so the effect depends on the offset only.
    have binds := not_binds_of_atom run
    obtain ⟨outcome, failure, effect, -, -⟩ := atom?_effect run
    rw [effect _ rfl fun _ _ => rfl, Option.some.injEq] at run
    subst run
    refine ⟨_, reach_after _ _ _, fun g' known first u variant _ _ par _ => ?_⟩
    exact ⟨_, .atom ((variant.atom? _ u).trans (effect u par.pos nofun)), reach_after _ _ _,
      (par.after ⟨rfl, rfl, fun _ _ => rfl⟩ _ _).imp (fun _ h => h) fun _ => binds⟩

namespace Followed

variable {p q inner : Pattern} {ps : List Pattern} {start : Nat} {items : List Value} {key : RuleAt}
variable {name rule : String}

theorem altsNil : Followed v g input r h (.alts start []) s (s.fail none) := by
  refine ⟨_, reach_fail _ _, fun g' known first u _ _ _ par _ => ⟨_, .altsNil, ?_, par.fail _ _⟩⟩
  rw [reach_fail, par.pos]

theorem altsLast (followed : Followed v g input r h (.whole p) s s') :
    Followed v g input r h (.alts start [p]) s s' := by
  obtain ⟨c, hc, follow⟩ := followed
  refine ⟨c, hc, fun g' known first u variant base knows par _ => ?_⟩
  obtain ⟨u', run, hu, ended⟩ := follow g' known first u variant base knows.1 par trivial
  exact ⟨u', .altsLast run, hu, ended.imp (fun _ hn hv => hn (.inl hv)) fun _ _ hn => hn.1⟩

theorem altsTaken (followed : Followed v g input r h (.whole p) s s') (good : s'.failed = false) :
    Followed v g input r h (.alts start (p :: q :: ps)) s s' := by
  obtain ⟨c, hc, follow⟩ := followed
  refine ⟨c, hc, fun g' known first u variant base knows par _ => ?_⟩
  obtain ⟨u', run, hu, ended⟩ := follow g' known first u variant base knows.1 par trivial
  exact ⟨u', .altsTaken run (ended.failed.trans good), hu,
    ended.imp (fun _ hn hv => hn (.inl hv)) fun _ _ hn => hn.1⟩

theorem altsNext (followed : Followed v g input r h (.whole p) s t) (bad : t.failed = true)
    (rest : Followed v g input r h (.alts start (q :: ps)) { t with pos := start } s') :
    Followed v g input r h (.alts start (p :: q :: ps)) s s' := by
  obtain ⟨c, hc, follow⟩ := followed
  obtain ⟨c', hc', followRest⟩ := rest
  refine ⟨max c c', reach_trans hc hc', fun g' known first u variant base knows par _ => ?_⟩
  obtain ⟨w, run, hw, ended⟩ := follow g' known first u variant base knows.1 par trivial
  obtain ⟨u', runRest, hu, endedRest⟩ := followRest g' known first _ variant base knows.2
    (ended.parallel.moved start) trivial
  exact ⟨u', .altsNext run (ended.failed.trans bad) runRest, reach_trans hw hu,
    endedRest.imp (fun _ hn hv => hn (.inr hv)) fun _ _ hn => hn.2⟩

theorem termsNil : Followed v g input r h (.terms []) s s := by
  refine ⟨0, (Nat.max_zero _).symm, fun g' known first u _ _ _ par begins => ?_⟩
  exact ⟨u, .termsNil, (Nat.max_zero _).symm, par, begins, fun _ _ hn => hn.elim⟩

theorem termsStop (followed : Followed v g input r h (.whole p) s s') (bad : s'.failed = true) :
    Followed v g input r h (.terms (p :: ps)) s s' := by
  obtain ⟨c, hc, follow⟩ := followed
  refine ⟨c, hc, fun g' known first u variant base knows par _ => ?_⟩
  obtain ⟨u', run, hu, ended⟩ := follow g' known first u variant base knows.1 par trivial
  exact ⟨u', .termsStop run (ended.failed.trans bad), hu, ended.imp_of_failed bad⟩

theorem termsNext (followed : Followed v g input r h (.whole p) s t) (good : t.failed = false)
    (rest : Followed v g input r h (.terms ps) t s') :
    Followed v g input r h (.terms (p :: ps)) s s' := by
  obtain ⟨c, hc, follow⟩ := followed
  obtain ⟨c', hc', followRest⟩ := rest
  refine ⟨max c c', reach_trans hc hc', fun g' known first u variant base knows par _ => ?_⟩
  obtain ⟨w, run, hw, ended⟩ := follow g' known first u variant base knows.1 par trivial
  -- The rest of the terms may look up what the first has bound.
  obtain ⟨u', runRest, hu, endedRest⟩ := followRest g' _ (p.Varies v) w variant
    (fun name hn => .inl (base name hn)) knows.2 (ended.more good) ended.outcome
  refine ⟨u', .termsNext run (ended.failed.trans good) runRest, reach_trans hw hu,
    endedRest.parallel.fewer fun _ => .inl, endedRest.outcome, fun done name hn => ?_⟩
  exact hn.elim (fun hn => endedRest.parallel.bound name (.inr hn)) (endedRest.bound done name)

theorem repeatedStop (followed : Followed v g input r h (.whole inner) s s')
    (bad : s'.failed = true) : Followed v g input r h (.repeated inner items) s
      ({ s' with pos := s.pos }.succeed (.seq items.reverse)) := by
  obtain ⟨c, hc, follow⟩ := followed
  refine ⟨c, hc, fun g' known first u variant base knows par _ => ?_⟩
  obtain ⟨u', run, hu, ended⟩ := follow g' known first u variant base knows par trivial
  refine ⟨_, .repeatedStop run (ended.failed.trans bad), hu, ?_⟩
  rw [par.pos]
  exact (ended.parallel.moved s.pos).succeeded fun _ => rfl

theorem repeatedStill (followed : Followed v g input r h (.whole inner) s s')
    (good : s'.failed = false) (still : s'.pos = s.pos) :
    Followed v g input r h (.repeated inner items) s
      (s'.succeed (.seq (s'.value :: items).reverse)) := by
  obtain ⟨c, hc, follow⟩ := followed
  refine ⟨c, hc, fun g' known first u variant base knows par _ => ?_⟩
  obtain ⟨u', run, hu, ended⟩ := follow g' known first u variant base knows par trivial
  have still' : u'.pos = u.pos := by rw [ended.parallel.pos, par.pos, still]
  exact ⟨_, .repeatedStill run (ended.failed.trans good) still', hu,
    ended.parallel.succeeded fun hn => by rw [ended.value good hn]⟩

theorem repeatedNext (followed : Followed v g input r h (.whole inner) s t)
    (good : t.failed = false) (moved : t.pos ≠ s.pos)
    (rest : Followed v g input r h (.repeated inner (t.value :: items)) t s') :
    Followed v g input r h (.repeated inner items) s s' := by
  obtain ⟨c, hc, follow⟩ := followed
  obtain ⟨c', hc', followRest⟩ := rest
  refine ⟨max c c', reach_trans hc hc', fun g' known first u variant base knows par _ => ?_⟩
  obtain ⟨w, run, hw, ended⟩ := follow g' known first u variant base knows par trivial
  have moved' : w.pos ≠ u.pos := by rwa [ended.parallel.pos, par.pos]
  obtain ⟨u', runRest, hu, endedRest⟩ := followRest g' known first w variant base knows
    ended.parallel trivial
  obtain ⟨w', runRest, hw', endedRest⟩ := ended.repeated good runRest endedRest
  exact ⟨w', .repeatedNext run (ended.failed.trans good) moved' runRest,
    reach_trans hw (hw'.trans hu), endedRest⟩

theorem growStop (hkey : key.1 ≠ r)
    (followed : Followed v g input r h (.whole inner) { s with pos := key.2 } s')
    (stop : s'.outgrows key = false) : Followed v g input r h (.grow inner key) s s' := by
  obtain ⟨c, hc, follow⟩ := followed
  refine ⟨c, hc, fun g' known first u variant base knows par _ => ?_⟩
  obtain ⟨u', run, hu, ended⟩ :=
    follow g' known first _ variant base knows (par.moved key.2) trivial
  exact ⟨u', .growStop run ((ended.outgrows hkey).trans stop), hu,
    ended.imp (fun _ hn => absurd trivial hn) fun _ _ hn => hn.elim⟩

theorem growNext (hkey : key.1 ≠ r) (hvaries : inner.Varies v → v.rules key.1)
    (followed : Followed v g input r h (.whole inner) { s with pos := key.2 } t)
    (further : t.outgrows key = true)
    (rest : Followed v g input r h (.grow inner key) (t.reseeded key) s') :
    Followed v g input r h (.grow inner key) s s' := by
  obtain ⟨c, hc, follow⟩ := followed
  obtain ⟨c', hc', followRest⟩ := rest
  refine ⟨max c c', reach_trans hc hc', fun g' known first u variant base knows par _ => ?_⟩
  obtain ⟨w, run, hw, ended⟩ :=
    follow g' known first _ variant base knows (par.moved key.2) trivial
  have same : SameOutcome (v.rules key.1) t.outcome w.outcome :=
    ⟨ended.outcome.failed, ended.outcome.pos, fun good hn => ended.value good (mt hvaries hn)⟩
  obtain ⟨u', runRest, hu, endedRest⟩ := followRest g' known first _ variant base knows
    (ended.parallel.insert hkey same) trivial
  exact ⟨u', .growNext run ((ended.outgrows hkey).trans further) runRest, reach_trans hw hu,
    endedRest⟩

theorem choice (followed : Followed v g input r h (.alts s.pos ps) s s') :
    Followed v g input r h (.whole (.choice ps)) s s' := by
  obtain ⟨c, hc, follow⟩ := followed
  refine ⟨c, hc, fun g' known first u variant base knows par _ => ?_⟩
  obtain ⟨u', run, hu, ended⟩ := follow g' known first u variant base knows par trivial
  rw [← par.pos] at run
  exact ⟨u', .choice run, hu, ended⟩

theorem seq (followed : Followed v g input r h (.terms ps) (s.succeed .null) s') :
    Followed v g input r h (.whole (.seq ps)) s s' := by
  obtain ⟨c, hc, follow⟩ := followed
  refine ⟨c, hc, fun g' known first u variant base knows par _ => ?_⟩
  obtain ⟨u', run, hu, ended⟩ := follow g' known False _ variant base knows
    (par.succeed .null .null) ⟨rfl, par.pos, fun _ _ => rfl⟩
  exact ⟨u', .seq run, hu, ended⟩

theorem scope
    (followed : Followed v g input r h (.terms ps)
      ({ s with scopes := s.scopes.push }.succeed .null) s')
    (run : Run g input (.terms ps) ({ s with scopes := s.scopes.push }.succeed .null) s') :
    Followed v g input r h (.whole (.scope rule ps)) s { s' with scopes := s'.scopes.pop } := by
  obtain ⟨c, hc, follow⟩ := followed
  refine ⟨c, hc, fun g' known first u variant base knows par _ => ?_⟩
  obtain ⟨u', run', hu, ended⟩ := follow g' known False _ variant base knows par.pushed
    ⟨rfl, par.pos, fun _ _ => rfl⟩
  have left := popped_frame (s := s) run.framed
  have left' := popped_frame (s := u) run'.framed
  exact ⟨_, .scope run', hu, par.framed left.1 left'.1 left.2 left'.2 ended.parallel.pos,
    ⟨ended.failed, ended.parallel.pos, ended.value⟩, fun _ _ hn => hn.elim⟩

theorem label (hname : inner.Varies v → v.labels name)
    (followed : Followed v g input r h (.whole inner) s s') :
    Followed v g input r h (.whole (.label inner name)) s (s'.labelled name) := by
  obtain ⟨c, hc, follow⟩ := followed
  have reach (t : MatchState) : (t.labelled name).reach = t.reach := by
    obtain ⟨frame, h⟩ := t.labelled_eq name
    rw [h]
    rfl
  refine ⟨c, (reach s').trans hc, fun g' known first u variant base knows par _ => ?_⟩
  obtain ⟨u', run, hu, ended⟩ := follow g' known first u variant base knows par trivial
  exact ⟨_, .label run, (reach u').trans hu, ended.labelled hname⟩

theorem seed (hrule : rule ≠ r) {o : Outcome} (found : s.seeds.get? (rule, s.pos) = some o) :
    Followed v g input r h (.whole (.leftrec inner rule)) s (s.adopt o) := by
  refine ⟨0, (Nat.max_zero _).symm, fun g' known first u variant base knows par _ => ?_⟩
  rcases none_or_some_of_rel (par.seeds (rule, s.pos) hrule) with
    ⟨hs, -⟩ | ⟨o, o', hs, hu, same⟩
  · rw [hs] at found
    contradiction
  · cases hs.symm.trans found
    rw [← par.pos] at hu
    exact ⟨_, .seed hu, (Nat.max_zero _).symm, par.adopt same⟩

theorem grown (oblivious : Oblivious g r v) (hrule : rule ≠ r)
    (unseeded : s.seeds.get? (rule, s.pos) = none) (unblocked : s.blocked.contains rule = false)
    (followed : Followed v g input r h (.grow inner (rule, s.pos)) (growing g rule s) s') :
    Followed v g input r h (.whole (.leftrec inner rule)) s (Match.grown g rule s s') := by
  obtain ⟨c, hc, follow⟩ := followed
  refine ⟨c, hc, fun g' known first u variant base knows par _ => ?_⟩
  have unseeded' : u.seeds.get? (rule, u.pos) = none := by
    rw [par.pos]
    rcases none_or_some_of_rel (par.seeds (rule, s.pos) hrule) with ⟨-, hu⟩ | ⟨_, _, hs, -⟩
    · exact hu
    · rw [hs] at unseeded
      contradiction
  have unblocked' : u.blocked.contains rule = false := by
    rcases par.blocked with hnone | hsame
    · rw [hnone]
      rfl
    · rw [hsame, unblocked]
  have same : SameOutcome (v.rules rule) (.failing s.pos) (.failing u.pos) := by
    rw [par.pos]
    exact ⟨rfl, rfl, fun _ _ => rfl⟩
  have seeded : Parallel v r h known (growing g rule s) (growing g' rule u) := by
    rw [growing_eq_seeded (oblivious.others rule hrule),
      growing_eq_seeded (variant.others rule hrule)]
    rw [MatchState.seeded, MatchState.seeded, show (rule, u.pos) = (rule, s.pos) by rw [par.pos]]
    exact par.insert hrule same
  obtain ⟨u', run, hu, ended⟩ := follow g' known first _ variant base knows seeded trivial
  rw [← par.pos] at run
  exact ⟨_, .grown unseeded' unblocked' run, hu, ended.grown hrule (oblivious.others rule hrule)
    (variant.others rule hrule) par.pos⟩

theorem not (followed : Followed v g input r h (.whole inner) { s with furthest := none } s') :
    Followed v g input r h (.whole (.not inner)) s (looked s s') := by
  obtain ⟨_, -, follow⟩ := followed
  refine ⟨if s'.failed then 0 else s.pos + 1, reach_looked s s',
    fun g' known first u variant base knows par _ => ?_⟩
  obtain ⟨u', run, -, ended⟩ := follow g' known first { u with furthest := none } variant base
    knows ⟨par.pos, par.blocked, par.seeds, par.clear, par.lookup, par.bound⟩ trivial
  refine ⟨_, .not run, ?_, Ended.looked par ended⟩
  rw [reach_looked, ended.failed, par.pos]

theorem opt (followed : Followed v g input r h (.whole inner) s s') :
    Followed v g input r h (.whole (.opt inner)) s (optional s s') := by
  obtain ⟨c, hc, follow⟩ := followed
  have reach (t t' : MatchState) : (optional t t').reach = t'.reach := by
    unfold optional
    split <;> rfl
  refine ⟨c, (reach s s').trans hc, fun g' known first u variant base knows par _ => ?_⟩
  obtain ⟨u', run, hu, ended⟩ := follow g' known first u variant base knows par trivial
  exact ⟨_, .opt run, (reach u u').trans hu, Ended.optional par ended⟩

theorem star (followed : Followed v g input r h (.repeated inner []) s s') :
    Followed v g input r h (.whole (.star inner)) s s' := by
  obtain ⟨c, hc, follow⟩ := followed
  refine ⟨c, hc, fun g' known first u variant base knows par _ => ?_⟩
  obtain ⟨u', run, hu, ended⟩ := follow g' known first u variant base knows par trivial
  exact ⟨u', .star run, hu, ended⟩

theorem plusStop (followed : Followed v g input r h (.whole inner) s s') (bad : s'.failed = true) :
    Followed v g input r h (.whole (.plus inner)) s s' := by
  obtain ⟨c, hc, follow⟩ := followed
  refine ⟨c, hc, fun g' known first u variant base knows par _ => ?_⟩
  obtain ⟨u', run, hu, ended⟩ := follow g' known first u variant base knows par trivial
  exact ⟨u', .plusStop run (ended.failed.trans bad), hu, ended⟩

theorem plusStill (followed : Followed v g input r h (.whole inner) s s')
    (good : s'.failed = false) (still : s'.pos = s.pos) :
    Followed v g input r h (.whole (.plus inner)) s (s'.succeed (.seq [s'.value])) := by
  obtain ⟨c, hc, follow⟩ := followed
  refine ⟨c, hc, fun g' known first u variant base knows par _ => ?_⟩
  obtain ⟨u', run, hu, ended⟩ := follow g' known first u variant base knows par trivial
  have still' : u'.pos = u.pos := by rw [ended.parallel.pos, par.pos, still]
  refine ⟨_, .plusStill run (ended.failed.trans good) still', hu,
    ended.parallel.succeed _ _, ⟨rfl, ended.parallel.pos, fun _ hn => ?_⟩,
    fun _ => ended.bound good⟩
  show Value.seq [u'.value] = Value.seq [s'.value]
  rw [ended.value good hn]

theorem plusNext (followed : Followed v g input r h (.whole inner) s t) (good : t.failed = false)
    (moved : t.pos ≠ s.pos) (rest : Followed v g input r h (.repeated inner [t.value]) t s') :
    Followed v g input r h (.whole (.plus inner)) s s' := by
  obtain ⟨c, hc, follow⟩ := followed
  obtain ⟨c', hc', followRest⟩ := rest
  refine ⟨max c c', reach_trans hc hc', fun g' known first u variant base knows par _ => ?_⟩
  obtain ⟨w, run, hw, ended⟩ := follow g' known first u variant base knows par trivial
  have moved' : w.pos ≠ u.pos := by rwa [ended.parallel.pos, par.pos]
  -- What the first repetition has bound is known to the others.
  obtain ⟨u', runRest, hu, endedRest⟩ := followRest g' _ first w variant
    (fun name hn => .inl (base name hn)) (Pattern.knows_mono (fun _ => .inl) inner knows)
    (ended.more good) trivial
  obtain ⟨w', runRest, hw', endedRest⟩ := ended.repeated good runRest endedRest
  exact ⟨w', .plusNext run (ended.failed.trans good) moved' runRest,
    reach_trans hw (hw'.trans hu), endedRest.parallel.fewer fun _ => .inl, endedRest.outcome,
    fun _ name hn => endedRest.parallel.bound name (.inr hn)⟩

theorem paren (followed : Followed v g input r h (.whole inner) s s') :
    Followed v g input r h (.whole (.paren inner)) s s' := by
  obtain ⟨c, hc, follow⟩ := followed
  refine ⟨c, hc, fun g' known first u variant base knows par _ => ?_⟩
  obtain ⟨u', run, hu, ended⟩ := follow g' known first u variant base knows par trivial
  exact ⟨u', .paren run, hu, ended⟩

theorem capture (followed : Followed v g input r h (.whole inner) s s') :
    Followed v g input r h (.whole (.capture inner)) s (captured input s s') := by
  obtain ⟨c, hc, follow⟩ := followed
  have reach (t t' : MatchState) : (captured input t t').reach = t'.reach := by
    unfold captured
    split <;> rfl
  refine ⟨c, (reach s s').trans hc, fun g' known first u variant base knows par _ => ?_⟩
  obtain ⟨u', run, hu, ended⟩ := follow g' known first u variant base knows par trivial
  exact ⟨_, .capture run, (reach u u').trans hu, Ended.captured par ended⟩

end Followed

/-! ## Rules in parallel -/

theorem reach_entering (s : MatchState) (name : String) : (s.entering name).reach = s.reach := by
  rw [MatchState.reach, MatchState.entering_furthest, ← MatchState.reach]

theorem reach_leaving (s s' : MatchState) (name : String) :
    (s.leaving name s').reach = s'.reach := by
  obtain ⟨blocked, h⟩ := s.leaving_eq name s'
  rw [h]
  rfl

theorem outcome_leaving (s s' : MatchState) (name : String) :
    (s.leaving name s').outcome = s'.outcome := by
  obtain ⟨blocked, h⟩ := s.leaving_eq name s'
  rw [h]
  rfl

/-- Applications of a rule leave the scopes as they were, in every variant of the grammar. -/
theorem Oblivious.scopes (oblivious : Oblivious g r v) (variant : Variant r g g') {name : String}
    (run : Run g' input (.whole (.apply name)) s s') : s'.scopes = s.scopes := by
  refine run.scopes_of_closed (fun rule body found => ?_) trivial
  exact oblivious.closed _ (Bodies.mem_of_body? ((variant.body? rule).symm.trans found))

theorem Variant.refl (others : ∀ name, name ≠ r → g.isLeftAssoc name = false) : Variant r g g :=
  ⟨rfl, others⟩

/-- If `r` is answered in parallel states, a run of `r` is followed. -/
theorem followed_own (oblivious : Oblivious g r v) (run : Run g input (.whole (.apply r)) s s')
    (hle : h ≤ s.pos) (unblocked : s.blocked = []) (answered : Answered v g input r s s') :
    Followed v g input r h (.whole (.apply r)) s s' := by
  obtain ⟨c, hc, follow⟩ := answered
  refine ⟨c, hc, fun g' known first u variant base knows par _ => ?_⟩
  obtain ⟨u', run', hu, failed, pos⟩ := follow g' u variant ((par.later hle).fewer base)
    (par.blocked.elim id (·.trans unblocked))
  have scopes := oblivious.scopes (.refl oblivious.others) run
  have scopes' := oblivious.scopes variant run'
  exact ⟨u', run', hu, par.framed run.frame run'.frame scopes scopes' pos,
    ⟨failed, pos, fun _ hn => absurd oblivious.varies hn⟩, fun _ _ hn => hn.elim⟩

/-- Another rule is followed if its body is. -/
theorem followed_other (oblivious : Oblivious g r v) {name : String} {body : Pattern}
    (found : g.body? name = some body) (run : Run g input (.whole body) (s.entering name) s')
    (followed : Followed v g input r h (.whole body) (s.entering name) s') :
    Followed v g input r h (.whole (.apply name)) s (s.leaving name s') := by
  obtain ⟨c, hc, follow⟩ := followed
  have mem := Bodies.mem_of_body? found
  have whole : Run g input (.whole (.apply name)) s (s.leaving name s') := .rule found run
  refine ⟨c, ?_, fun g' known first u variant base knows par _ => ?_⟩
  · rw [reach_leaving, hc, reach_entering]
  -- What the caller has bound may differ, but the body looks up no loose label of it.
  obtain ⟨u', run', hu, ended⟩ := follow g' _ first _ variant (fun _ => id)
    (oblivious.indifferent.knows _ mem) ((par.entering name).fewer base) trivial
  have whole' : Run g' input (.whole (.apply name)) u (u.leaving name u') :=
    .rule ((variant.body? name).trans found) run'
  have scopes := oblivious.scopes (.refl oblivious.others) whole
  have scopes' := oblivious.scopes variant whole'
  have same : SameOutcome (v.rules name) (s.leaving name s').outcome
      (u.leaving name u').outcome := by
    rw [outcome_leaving, outcome_leaving]
    exact ⟨ended.outcome.failed, ended.outcome.pos, fun good hn =>
      ended.value good (mt (oblivious.indifferent.rules _ mem) hn)⟩
  refine ⟨_, whole', ?_, par.framed whole.frame whole'.frame scopes scopes' same.pos, same,
    fun _ _ hn => hn.elim⟩
  rw [reach_leaving, hu, reach_entering]

/-- **Values that decide nothing.**  If a grammar is oblivious of how `r` associates, then a run is
followed by one from every parallel state, provided that this is so of the runs of `r` that it comes
to. -/
theorem Run.followed (oblivious : Oblivious g r v)
    (oracle : ∀ s s', At s → Run g input (.whole (.apply r)) s s' → s.blocked = [] →
      Clear r s.pos s → Answered v g input r s s')
    (run : Run g input task s s') (suited : Suited v g input r h At task s) :
    Followed v g input r h task s s' := by
  induction run with
  | altsNil => exact .altsNil
  | altsLast _ ih => exact (ih (suited.part oblivious .altsHead nofun)).altsLast
  | altsTaken _ good ih => exact (ih (suited.part oblivious .altsHead nofun)).altsTaken good
  | altsNext run bad _ ih ihRest =>
    exact (ih (suited.part oblivious .altsHead nofun)).altsNext bad
      (ihRest (suited.part oblivious (.altsTail run bad) nofun))
  | termsNil => exact .termsNil
  | termsStop _ bad ih => exact (ih (suited.part oblivious .termsHead nofun)).termsStop bad
  | termsNext run good _ ih ihRest =>
    exact (ih (suited.part oblivious .termsHead nofun)).termsNext good
      (ihRest (suited.part oblivious (.termsTail run good) nofun))
  | repeatedStop _ bad ih =>
    exact (ih (suited.part oblivious .repeatedHead nofun)).repeatedStop bad
  | repeatedStill _ good still ih =>
    exact (ih (suited.part oblivious .repeatedHead nofun)).repeatedStill good still
  | repeatedNext run good moved _ ih ihRest =>
    exact (ih (suited.part oblivious .repeatedHead nofun)).repeatedNext good moved
      (ihRest (suited.part oblivious (.repeatedTail run good moved) nofun))
  | growStop _ stop ih =>
    obtain ⟨hkey, -⟩ := suited.key _ _ rfl
    exact (ih (suited.part oblivious .growHead nofun)).growStop hkey stop
  | growNext run further _ ih ihRest =>
    obtain ⟨hkey, hvaries⟩ := suited.key _ _ rfl
    exact (ih (suited.part oblivious .growHead nofun)).growNext hkey hvaries further
      (ihRest (suited.part oblivious (.growTail run further) nofun))
  | atom run => exact followed_atom suited.plain.here.indifferent run
  | choice _ ih => exact (ih (suited.part oblivious .choice nofun)).choice
  | seq _ ih => exact (ih (suited.part oblivious .seq nofun)).seq
  | scope run ih => exact (ih (suited.part oblivious .scope nofun)).scope run
  | label _ ih =>
    exact (ih (suited.part oblivious .label nofun)).label suited.plain.here.indifferent
  | @seed inner rule s o found =>
    have hrule : rule ≠ r := fun heq => suited.plain.here.notBody inner (heq ▸ rfl)
    exact .seed hrule found
  | @once inner rule s s' _ blocked _ _ =>
    -- No rule but `r` is ever blocked.
    have hrule : rule ≠ r := fun heq => suited.plain.here.notBody inner (heq ▸ rfl)
    rcases suited.free with hnone | ⟨hown, -⟩
    · rw [hnone] at blocked
      contradiction
    · rw [hown] at blocked
      simp [hrule] at blocked
  | @grown inner rule s s' unseeded unblocked _ ih =>
    have hrule : rule ≠ r := fun heq => suited.plain.here.notBody inner (heq ▸ rfl)
    exact .grown oblivious hrule unseeded unblocked
      (ih (suited.part oblivious (.grown unseeded unblocked) nofun))
  | hit => exact suited.plain.here.notMemo.elim
  | miss => exact suited.plain.here.notMemo.elim
  | @rule name body s s' found run ih =>
    by_cases hname : name = r
    · subst hname
      obtain ⟨hle, at'⟩ := suited.ahead s .refl
      have unblocked : s.blocked = [] := suited.free.resolve_right fun own => own.2.here rfl
      have clear : Clear name s.pos s := fun q hq => suited.clear q (Nat.le_trans hle hq)
      exact followed_own oblivious (.rule found run) hle unblocked
        (oracle _ _ at' (.rule found run) unblocked clear)
    · have other : Task.whole (.apply name) ≠ .whole (.apply r) := by simpa using hname
      exact followed_other oblivious found run (ih (suited.part oblivious (.rule found) other))
  | not _ ih => exact (ih (suited.part oblivious .not nofun)).not
  | opt _ ih => exact (ih (suited.part oblivious .opt nofun)).opt
  | star _ ih => exact (ih (suited.part oblivious .star nofun)).star
  | plusStop _ bad ih => exact (ih (suited.part oblivious .plusHead nofun)).plusStop bad
  | plusStill _ good still ih =>
    exact (ih (suited.part oblivious .plusHead nofun)).plusStill good still
  | plusNext run good moved _ ih ihRest =>
    exact (ih (suited.part oblivious .plusHead nofun)).plusNext good moved
      (ihRest (suited.part oblivious (.plusTail run good moved) nofun))
  | paren _ ih => exact (ih (suited.part oblivious .paren nofun)).paren
  | capture _ ih => exact (ih (suited.part oblivious .capture nofun)).capture

end Match

end Pegboard
