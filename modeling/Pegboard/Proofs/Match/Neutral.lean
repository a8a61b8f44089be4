import Pegboard.Proofs.Match.Indifference
import Pegboard.Proofs.Match.Termination

/-!
# What a rule of operators accepts

How a rule of operators associates decides which application of the rule takes which operand.  It
does not decide what is taken in all: a rule that grows on the right of its operators, and one that
matches once there, walk along the same chain of operands, if the operands are the same.

They are, if nothing in the grammar is decided by how the values are nested.  The operands may apply
the rule in turn, as long as something is consumed before, and as long as that happens through
another rule.  So this is shown from the end of the input backwards: where the rule is applied, what
it takes further on is known not to depend on how it associates.

## Main Definitions

* `Neutral`: what is asked of a rule of operators and its grammar.

## Main Results

* `Neutral.answered`: an application of the rule is answered in the same way however it associates.
-/

namespace Pegboard

/-- The view that tells where a match ends, and how far the failures on the way have reached. -/
def View.ending : View Unit := ⟨fun _ _ => True, True⟩

/-- Where a match has ended, unless it failed. -/
def Outcome.ending (o : Outcome) : Option (Unit × Nat) :=
  if o.failed then none else some ((), o.pos)

theorem View.ending_shows {o : Outcome} {a : Option (Unit × Nat)} :
    View.ending.Shows o a ↔ o.ending = a := by
  obtain ⟨value, failed, pos⟩ := o
  cases a with
  | none => cases failed <;> simp [Shows, Outcome.ending]
  | some a => cases failed <;> simp [Shows, Outcome.ending, View.ending, Prod.ext_iff]

namespace Match

variable {v : Variation} {g g' : Grammar} {input : Array Char} {r : String} {inner p : Pattern}
variable {recs base : List Pattern} {ops : List Operator} {s t u w : MatchState} {o : Outcome}

/-! ## The rule -/

/-- What is asked of a rule of operators that associates to the left, and of its grammar.  Its base
applies the rule only through other rules, and only after something was consumed. -/
structure Neutral (v : Variation) (g : Grammar) (input : Array Char) (r : String) (inner : Pattern)
    (recs base : List Pattern) (ops : List Operator) : Prop where
  rule : OperatorRule View.ending g r inner recs base ops fun _ _ _ => ()
  oblivious : Oblivious g r v
  assoc : g.isLeftAssoc r = true
  plain : All (PlainIn v r) base
  through : All (· ≠ .apply r) base
  loose : ∀ name, Operator.Labels ops name → v.loose name
  consumes : ∀ s u, Coherent g s →
    Reaches g input (.alts s.pos base) s (.whole (.apply r)) u → u.pos ≠ s.pos

/-- The labels of an operand are bound to a value that may differ. -/
theorem labels_of_operand (varies : v.rules r) {names : List String}
    (h : p.operand? r = some names) (nodes : All (Pattern.IndifferentNode v) [p]) :
    p.Varies v ∧ ∀ name ∈ names, v.labels name := by
  induction p using Pattern.operand?.induct r generalizing names with
  | case1 =>
    rw [Pattern.operand?, if_pos rfl] at h
    rw [← Option.some.inj h]
    exact ⟨varies, fun _ hn => absurd hn List.not_mem_nil⟩
  | case2 name hname =>
    rw [Pattern.operand?, if_neg hname] at h
    contradiction
  | case3 p name ih =>
    obtain ⟨names, hnames, rfl⟩ := Option.map_eq_some_iff.1 h
    obtain ⟨hp, hlabels⟩ := ih hnames nodes.parts
    refine ⟨hp, fun n hn => ?_⟩
    rcases List.mem_append.1 hn with hn | hn
    · exact hlabels n hn
    · rw [List.mem_singleton.1 hn]
      exact nodes.here hp
  | case4 p happly hlabel =>
    rw [Pattern.operand?] at h
    · contradiction
    · exact happly
    · exact hlabel

/-- The labels of the operators are bound to values that may differ. -/
theorem Neutral.labels (neutral : Neutral v g input r inner recs base ops) {name : String}
    (h : Operator.Labels ops name) : v.labels name := by
  obtain ⟨op, hop, hname⟩ := h
  have mem : some op ∈ recs.map (Pattern.operator? r) :=
    neutral.rule.operators ▸ List.mem_map_of_mem hop
  obtain ⟨p, hp, hoperator⟩ := List.mem_map.1 mem
  have nodes : All (Pattern.IndifferentNode v) [p] := fun q hq =>
    List.mem_singleton.1 hq ▸
      neutral.rule.all neutral.oblivious.indifferent.nodes p (List.mem_append_left _ hp)
  obtain ⟨ps, hps, hterms⟩ := Option.bind_eq_some_iff.1 hoperator
  obtain ⟨left, right, rfl, hleft, hright⟩ := Pattern.operatorTerms?_eq_some hterms
  have parts : All (Pattern.IndifferentNode v) (left :: .lit op.text :: right :: op.tail) := by
    cases p with
    | seq _ | scope _ _ =>
      cases hps
      exact nodes.parts
    | _ => contradiction
  have varies := neutral.oblivious.varies
  rcases hname with hname | hname
  · exact (labels_of_operand varies hleft parts.head).2 name hname
  · exact (labels_of_operand varies hright parts.tail.tail.head).2 name hname

/-- The base looks up no loose label that it has not bound itself. -/
theorem Neutral.knows (neutral : Neutral v g input r inner recs base ops) :
    Pattern.KnowsEach (fun _ => True) (fun name => ¬ v.loose name) base := by
  have knows : inner.Knows (fun _ => True) fun name => ¬ v.loose name :=
    neutral.oblivious.indifferent.knows _ (Bodies.mem_of_body? neutral.rule.found)
  have behind : ∀ ps : List Pattern, Pattern.KnowsEach (fun _ => True) (fun name => ¬ v.loose name)
      (ps ++ base) → Pattern.KnowsEach (fun _ => True) (fun name => ¬ v.loose name) base := by
    intro ps
    induction ps with
    | nil => exact id
    | cons p ps ih => exact fun h => ih h.2
  rcases neutral.rule.divided with ⟨hinner, -⟩ | h
  · rw [hinner] at knows
    exact behind recs knows
  · refine behind recs ?_
    rw [h]
    exact ⟨knows, trivial⟩

/-- A rule of operators is one in every variant of the grammar. -/
theorem OperatorRule.variant {β : Type} {V : View β} {combine : Operator → β → β → β}
    (rule : OperatorRule V g r inner recs base ops combine) (variant : Variant r g g') :
    OperatorRule V g' r inner recs base ops combine :=
  ⟨variant.bodies ▸ rule.closed, variant.bodies ▸ rule.memoless,
    (variant.body? r).trans rule.found, rule.divided, rule.operators, rule.texts, rule.makes⟩

/-! ## What a run must have come to -/

theorem ends_head {start : Nat} {ps : List Pattern} (h : Ends g input (.alts start (p :: ps)) u) :
    Ends g input (.whole p) u := by
  obtain ⟨w, run⟩ := h
  cases run with
  | altsLast run | altsTaken run _ | altsNext run _ _ => exact ⟨_, run⟩

/-- If alternatives end of which the first fails, so do the others. -/
theorem ends_rest {start : Nat} {ps : List Pattern} (h : Ends g input (.alts start (p :: ps)) u)
    (head : Run g input (.whole p) u w) (bad : w.failed = true) (hps : ps ≠ []) :
    Ends g input (.alts start ps) { w with pos := start } := by
  obtain ⟨w', run⟩ := h
  cases run with
  | altsLast _ => exact absurd rfl hps
  | altsTaken run ok =>
    rw [run.unique head, bad] at ok
    contradiction
  | altsNext run _ rest => exact ⟨_, run.unique head ▸ rest⟩

/-- While the rule grows from the failing seed, its base is tried. -/
theorem OperatorRule.base_of_failed {β : Type} {V : View β} {combine : Operator → β → β → β}
    (rule : OperatorRule V g r inner recs base ops combine)
    (free : (s.blocked.isEmpty || s.blocked.contains r) = true) {ps : List Pattern}
    (hps : ∀ p ∈ ps, p ∈ recs) (h : Growing r s o u) (hpos : u.pos = s.pos)
    (bad : o.failed = true)
    (ends : ps ++ base ≠ [] → Ends g input (.alts s.pos (ps ++ base)) u) :
    ∃ t, Growing r s o t ∧ t.pos = s.pos ∧ (base ≠ [] → Ends g input (.alts s.pos base) t) := by
  induction ps generalizing u with
  | nil => exact ⟨u, h, hpos, ends⟩
  | cons p ps ih =>
    have mem : p.operator? r ∈ ops.map some :=
      rule.operators ▸ List.mem_map_of_mem (hps p (.head _))
    obtain ⟨op, -, hop⟩ := List.mem_map.1 mem
    have trial : Trial g r p op u o := by
      refine ⟨⟨_, rule.found⟩, hop.symm, ?_, by rw [h.blocked]; exact free⟩
      rw [hpos, h.seeds, Table.get?_insert_self]
    obtain ⟨w, run, hw, -⟩ : ∃ w, Run g input (.whole p) u w ∧ _ := trial.failed bad
    exact ih (fun p hp => hps p (.tail _ hp)) (rule.growing h (hps p (.head _)) run) rfl
      (ends_rest (ends (List.cons_ne_nil _ _)) run hw)

/-- Where its own blocking does not matter, the body of a rule ends if the rule does. -/
theorem ends_body {body : Pattern} (found : g.body? r = some body)
    (free : (u.blocked.isEmpty || u.blocked.contains r) = true)
    (run : Run g input (.whole (.apply r)) u w) : Ends g input (.whole body) u := by
  cases run with
  | atom h =>
    rw [atom?, found] at h
    contradiction
  | rule found' run =>
    obtain rfl := Option.some.inj (found.symm.trans found')
    rw [entering_eq_self free] at run
    exact ⟨_, run⟩

/-- A rule that is blocked, and has no seed, has been matched once. -/
theorem ends_of_blocked (found : g.body? r = some (.leftrec inner r))
    (unseeded : u.seeds.get? (r, u.pos) = none) (blocked : u.blocked.contains r = true)
    (run : Run g input (.whole (.apply r)) u w) : Ends g input (.whole inner) (u.seeded r) := by
  obtain ⟨w', run⟩ := ends_body found (by rw [blocked, Bool.or_true]) run
  cases run with
  | atom h => contradiction
  | seed found =>
    rw [unseeded] at found
    contradiction
  | once _ _ run => exact ⟨_, run⟩
  | grown _ unblocked _ =>
    rw [blocked] at unblocked
    contradiction

/-- A rule that is not blocked, and has no seed, has grown. -/
theorem ends_of_unblocked (found : g.body? r = some (.leftrec inner r))
    (unseeded : u.seeds.get? (r, u.pos) = none) (unblocked : u.blocked = [])
    (run : Run g input (.whole (.apply r)) u w) :
    Ends g input (.grow inner (r, u.pos)) (growing g r u) := by
  obtain ⟨w', run⟩ := ends_body found (by rw [unblocked]; rfl) run
  cases run with
  | atom h => contradiction
  | seed found =>
    rw [unseeded] at found
    contradiction
  | once _ blocked _ =>
    rw [unblocked] at blocked
    contradiction
  | grown _ _ run => exact ⟨_, run⟩

/-! ## The base, however the rule associates -/

/-- The state is one that a match may come to, behind the offset `pos`. -/
structure Later (g : Grammar) (input : Array Char) (pos : Nat) (s : MatchState) : Prop where
  coherent : Coherent g s
  inside : Inside input s
  further : pos < s.pos

/-- The rule is applied in the state `s`, where no rule is blocked and no seed ahead, and what it
comes to further on does not depend on how it associates. -/
structure Applied (v : Variation) (g : Grammar) (input : Array Char) (r : String) (s : MatchState) :
    Prop where
  coherent : Coherent g s
  inside : Inside input s
  unblocked : s.blocked = []
  clear : Clear r s.pos s
  later : ∀ w w', Later g input s.pos w → Run g input (.whole (.apply r)) w w' → w.blocked = [] →
    Clear r w.pos w → Answered v g input r w w'

/-- What the base comes to at an offset while the rule grows, from every state that is parallel to
`s` and however the rule associates. -/
def EitherWay (v : Variation) (g : Grammar) (input : Array Char) (r : String) (ops : List Operator)
    (base : List Pattern) (s : MatchState) (pos : Nat) (a : Option (Unit × Nat)) (c : Nat) : Prop :=
  ∀ g' u, Variant r g g' → Parallel v r s.pos (fun name => ¬ v.loose name) s u → u.blocked = [] →
    BaseComes View.ending g' input r ops base (rounding g' r u) pos a c

theorem Parallel.refl (v : Variation) {h : Nat} (clear : Clear r h s) :
    Parallel v r h (fun name => ¬ v.loose name) s s := by
  refine ⟨rfl, .inr rfl, fun key _ => ?_, ⟨clear, clear⟩, fun _ _ => rfl, fun _ _ _ => rfl⟩
  cases s.seeds.get? key with
  | none => exact .none
  | some o => exact .some ⟨rfl, rfl, fun _ _ => rfl⟩

theorem rounding_blocked (assoc : g.isLeftAssoc r = true) (s : MatchState) :
    (rounding g r s).blocked = [r] := if_pos assoc

/-- States in which the rule grows in one way and in the other are parallel, if those are in which
it was applied. -/
theorem Parallel.beside (neutral : Neutral v g input r inner recs base ops) {h : Nat}
    (par : Parallel v r h (fun name => ¬ v.loose name) s u) {t x : MatchState}
    (ht : Beside r (Operator.Labels ops) (rounding g r s) t)
    (hx : Beside r (Operator.Labels ops) (rounding g' r u) x) (hpos : x.pos = t.pos) {k : Nat}
    (clear : Clear r k t) (clear' : Clear r k x) :
    Parallel v r k (fun name => ¬ v.loose name) t x := by
  refine ⟨hpos, ?_, fun key hkey => ?_, ⟨clear, clear'⟩, fun name hn => ?_,
    fun name hn hlabel => ?_⟩
  · rw [hx.blocked, ht.blocked, rounding_blocked neutral.assoc]
    show (if _ then [r] else []) = [] ∨ (if _ then [r] else []) = [r]
    cases g'.isLeftAssoc r with
    | true => exact .inr rfl
    | false => exact .inl rfl
  · rw [ht.seeds key hkey, hx.seeds key hkey]
    exact par.seeds key hkey
  · rw [ht.lookup name (mt neutral.labels hn), hx.lookup name (mt neutral.labels hn)]
    exact par.lookup name hn
  · have other : ¬ Operator.Labels ops name := mt (neutral.loose name) hn
    rw [ht.lookup name other, hx.lookup name other]
    exact par.bound name hn hlabel

theorem Reaches.inside {task task' : Task} (h : Reaches g input task s task' t)
    (place : task.Inside input) (inside : Inside input s) : Inside input t := by
  induction h with
  | refl => exact inside
  | step call _ ih =>
    obtain ⟨place', inside'⟩ := call.inside place inside
    exact ih place' inside'

/-- What the base comes to while the rule associates to the left, it comes to however the rule
associates. -/
theorem Neutral.eitherWay_of_ends (neutral : Neutral v g input r inner recs base ops)
    (applied : Applied v g input r s)
    (beside : Beside r (Operator.Labels ops) (rounding g r s) t) (clear : Clear r (t.pos + 1) t)
    (placed : Placed g.bodies.mayBeEmpty t) (inside : Inside input t) (hle : s.pos ≤ t.pos)
    (ends : base ≠ [] → Ends g input (.alts t.pos base) t) :
    ∃ a c, EitherWay v g input r ops base s t.pos a c ∧ ∀ b q, a = some (b, q) → t.pos ≤ q := by
  cases hbase : base with
  | nil => exact ⟨none, 0, fun _ _ _ _ _ _ _ _ _ => ⟨rfl, rfl⟩, nofun⟩
  | cons p ps =>
    rw [← hbase]
    obtain ⟨w, run⟩ := ends (hbase ▸ List.cons_ne_nil _ _)
    have blocked : t.blocked = [r] := beside.blocked.trans (rounding_blocked neutral.assoc s)
    have coherent : Coherent g t := by
      refine ⟨placed, fun name hn => ?_⟩
      rw [blocked] at hn
      rw [List.mem_singleton.1 hn]
      exact neutral.assoc
    have ready : Ready g.bodies.mayBeEmpty (.alts t.pos base) t :=
      ⟨placed, fun q hq => neutral.rule.all g.bodies.mayBeEmpty_closed.wrapper q
        (List.mem_append_right _ hq), rfl⟩
    -- Wherever the base comes to apply the rule, that is further on, so the hypothesis is of use.
    have suited : Suited v g input r (t.pos + 1) (Later g input s.pos) (.alts t.pos base) t := by
      refine ⟨neutral.plain, nofun, .inr ⟨blocked, neutral.through⟩, clear, fun x hx => ?_⟩
      obtain ⟨ready', ahead⟩ := hx.ready g.bodies.mayBeEmpty_closed ready
      have ahead : t.pos ≤ x.pos := ahead
      have moved : x.pos ≠ t.pos := neutral.consumes t x coherent hx
      exact ⟨by omega, ⟨ready'.placed, hx.blocked coherent.blocked⟩,
        hx.inside inside.pos inside, by omega⟩
    obtain ⟨c, -, follow⟩ := run.followed neutral.oblivious applied.later suited
    refine ⟨w.outcome.ending, c, fun g' u variant par unblocked x hx hpos clear' => ?_, ?_⟩
    · obtain ⟨x', run', reach, ended⟩ := follow g' _ False x variant (fun _ => id) neutral.knows
        (par.beside neutral beside hx hpos clear clear') trivial
      have shows : View.ending.Shows x'.outcome w.outcome.ending := by
        rw [View.ending_shows, Outcome.ending, Outcome.ending, ended.outcome.failed,
          ended.outcome.pos]
      rw [hbase] at run' ⊢
      exact ⟨x', run', shows, fun _ => reach⟩
    · rintro b q hq
      have advanced := run.advances g.bodies.mayBeEmpty_closed ready
      obtain ⟨-, rfl, -⟩ := View.ending_shows.2 hq
      exact advanced.ahead

/-! ## The chain that the rule walks along -/

/-- Where the base is either way, there the rule is that is blocked. -/
theorem EitherWay.once (neutral : Neutral v g input r inner recs base ops)
    (applied : Applied v g input r s) {pos : Nat} {a : Option (Unit × Nat)} {c : Nat}
    (h : EitherWay v g input r ops base s pos a c) :
    BaseComes View.ending g input r ops base (rounding g r s) pos a c ∧
      RuleComes View.ending g input r ops (rounding g r s) pos a c := by
  have hbase := h g s (.refl neutral.oblivious.others) (.refl v applied.clear) applied.unblocked
  exact ⟨hbase, neutral.rule.once (by rw [rounding_blocked neutral.assoc]; simp) hbase⟩

/-- Between the sides of an operator the state has the seeds of the state before. -/
theorem between_tables (op : Operator) (p : Pattern) (u : MatchState) (good : o.failed = false) :
    (between op p o u).seeds = u.seeds ∧ (between op p o u).memo = u.memo ∧
      (between op p o u).pos = o.pos + op.text.length ∧
      (between op p o u).blocked = u.blocked := by
  obtain ⟨scopes, h, -⟩ := between_eq op p u good
  rw [h]
  exact ⟨rfl, rfl, rfl, rfl⟩

/-- Where the right side of an operator has been matched, the base is what it is either way. -/
theorem Neutral.eitherWay_right (neutral : Neutral v g input r inner recs base ops)
    (applied : Applied v g input r s) (h : Growing r (rounding g r s) o u)
    (placed : Placed g.bodies.mayBeEmpty u) (inside : Inside input u) (good : o.failed = false)
    (ahead : s.pos ≤ o.pos) (bound : o.pos ≤ input.size) {op : Operator} (hop : op ∈ ops)
    (stands : Stands input op.text o.pos)
    (run : Run g input (.whole (.apply r)) (between op p o u) t) :
    ∃ a c, EitherWay v g input r ops base s (o.pos + op.text.length) a c ∧
      ∀ b q, a = some (b, q) → o.pos + op.text.length ≤ q := by
  obtain ⟨seeds, memo, hpos, hblocked⟩ := between_tables op p u good
  have text := neutral.rule.texts op hop
  have blocked : (between op p o u).blocked.contains r = true := by
    rw [hblocked, h.blocked, rounding_blocked neutral.assoc]
    simp
  have clear : Clear r (between op p o u).pos (between op p o u) := by
    intro q hq
    rw [hpos] at hq
    rw [seeds]
    have behind : s.pos < o.pos + op.text.length := by omega
    exact h.clear applied.clear behind q hq
  -- The rule is blocked there, so it was matched once, from the failing seed: its base was tried.
  obtain ⟨w, whole⟩ := ends_of_blocked neutral.rule.found (clear _ (Nat.le_refl _)) blocked run
  obtain ⟨x, hx, hxpos, ends⟩ := neutral.rule.base_of_failed (s := between op p o u)
    (u := (between op p o u).seeded r) (o := .failing (between op p o u).pos)
    (by rw [blocked, Bool.or_true]) (fun _ h => h) ⟨rfl, rfl, rfl, rfl⟩ rfl rfl
    fun _ => ⟨w, (run_alts_iff neutral.rule.divided).2 whole⟩
  have size : (between op p o u).pos ≤ input.size := hpos ▸ stands.le_size bound
  have beside : Beside r (Operator.Labels ops) (rounding g r s) x :=
    hx.beside (beside_between (h.beside (.refl r _ _)) (fun name hn => ⟨op, hop, .inl hn⟩) p good)
  have hplaced : Placed g.bodies.mayBeEmpty x := by
    refine ⟨?_, ?_⟩
    · rw [hx.seeds, seeds]
      exact forall_insert placed.seeds (placedAt_failing _ (r, _))
    · rw [hx.memo, memo]
      exact placed.memo
  have hinside : Inside input x := by
    refine ⟨hxpos ▸ size, ?_, ?_⟩
    · rw [hx.seeds, seeds]
      exact forall_insert inside.seeds size
    · rw [hx.memo, memo]
      exact inside.memo
  have there : x.pos = o.pos + op.text.length := hxpos.trans hpos
  rw [← hxpos] at ends
  rw [← there]
  exact neutral.eitherWay_of_ends applied beside
    (hx.clear clear (hxpos ▸ Nat.lt_succ_self _)) hplaced hinside (by omega) ends

/-- The rounds of the rule are free to match the seed: the rule that is blocked is the rule
itself. -/
theorem Neutral.free (neutral : Neutral v g input r inner recs base ops) (s : MatchState) :
    ((rounding g r s).blocked.isEmpty || (rounding g r s).blocked.contains r) = true := by
  rw [rounding_blocked neutral.assoc]
  simp

/-- Which operator is taken behind a seed is the same either way. -/
theorem Neutral.exists_tried (neutral : Neutral v g input r inner recs base ops)
    (applied : Applied v g input r s) (good : o.failed = false) (ahead : s.pos ≤ o.pos)
    (bound : o.pos ≤ input.size) {os : List Operator} (hos : ∀ op ∈ os, op ∈ ops)
    {ps : List Pattern} (hps : ∀ p ∈ ps, p ∈ recs)
    (hops : ps.map (Pattern.operator? r) = os.map some) (h : Growing r (rounding g r s) o u)
    (placed : Placed g.bodies.mayBeEmpty u) (inside : Inside input u) (hpos : u.pos = s.pos)
    (ends : ps ++ base ≠ [] → Ends g input (.alts s.pos (ps ++ base)) u) :
    ∃ res c, Tried input (EitherWay v g input r ops base s) o.pos os res c := by
  induction os generalizing ps u with
  | nil => exact ⟨none, 0, .nothing⟩
  | cons op os ih =>
    obtain ⟨p, ps, rfl, trial, hops⟩ := neutral.rule.trial (neutral.free s) h hpos hops
    have ends := ends (List.cons_ne_nil _ _)
    -- After an alternative that fails, the rest is tried in a state of the same growth.
    have rest {w : MatchState} (run : Run g input (.whole p) u w) (bad : w.failed = true) :
        ∃ res c, Tried input (EitherWay v g input r ops base s) o.pos os res c := by
      have grows := neutral.rule.growing h (hps p (.head _)) run
      exact ih (fun op hop => hos op (.tail _ hop)) (fun p hp => hps p (.tail _ hp)) hops grows
        (placed.of_tables (grows.seeds.trans h.seeds.symm) (grows.memo.trans h.memo.symm))
        (inside.move applied.inside.pos (grows.seeds.trans h.seeds.symm)
          (grows.memo.trans h.memo.symm)) rfl (ends_rest ends run bad)
    by_cases stands : Stands input op.text o.pos
    · obtain ⟨w, run⟩ := ends_head ends
      obtain ⟨t, right⟩ := trial.right_of_run good stands run
      obtain ⟨a, c, either, hle⟩ := neutral.eitherWay_right applied h placed inside good ahead bound
        (hos op (.head _)) stands right
      cases a with
      | none =>
        obtain ⟨t', right', bad, -⟩ := right_of_comes (s := rounding g r s) (.refl r _ _)
          applied.clear h good ahead (hos op (.head _))
          (neutral.rule.texts op (hos op (.head _))) p (either.once neutral applied).2
        obtain ⟨w', run', bad', -⟩ := trial.refused good stands right' bad
        obtain ⟨res, c', tried⟩ := rest run' bad'
        exact ⟨res, max c c', .refused stands either tried⟩
      | some a => exact ⟨some (op, a), c, .taken stands either (hle _ _ rfl)⟩
    · obtain ⟨miss, missed⟩ := literal_of_not_stands stands
      obtain ⟨w, run, bad, -⟩ := trial.missed (V := View.ending) good missed
      obtain ⟨res, c, tried⟩ := rest run bad
      exact ⟨res, max (miss + 1) c, .missed missed tried⟩

/-- A round behind an operand takes an operator, and then it reaches further, or it is the base. -/
theorem Neutral.round (neutral : Neutral v g input r inner recs base ops)
    (applied : Applied v g input r s) {q₀ c₀ : Nat}
    (hbase : EitherWay v g input r ops base s s.pos (some ((), q₀)) c₀)
    (run : Run g input (.whole inner) u w) (h : Growing r (rounding g r s) o u)
    (placed : Placed g.bodies.mayBeEmpty u) (inside : Inside input u) (hpos : u.pos = s.pos)
    (good : o.failed = false) (ahead : s.pos ≤ o.pos) (bound : o.pos ≤ input.size)
    (hle : q₀ ≤ o.pos) :
    ∃ res c, Tried input (EitherWay v g input r ops base s) o.pos ops res c ∧
      View.ending.Shows w.outcome (res.elim (some ((), q₀)) fun x => some ((), x.2.2)) ∧
      (w.outgrows (r, s.pos) = true ↔ res.isSome) ∧ Growing r (rounding g r s) o w := by
  have ends : Ends g input (.alts s.pos (recs ++ base)) u :=
    ⟨w, hpos ▸ (run_alts_iff neutral.rule.divided).2 run⟩
  obtain ⟨res, c, tried⟩ := neutral.exists_tried applied good ahead bound (fun _ h => h)
    (fun _ h => h) neutral.rule.operators h placed inside hpos fun _ => ends
  have seeds : View.ending.Shows o (some ((), o.pos)) := ⟨good, rfl, trivial⟩
  have rest := neutral.rule.alternatives_of_tried (s := rounding g r s) (.refl r _ _) applied.clear
    (neutral.free s) seeds ahead (tried.imp fun _ _ _ h => (h.once neutral applied).2)
    (fun _ h => h) (fun _ h => h) neutral.rule.operators h hpos
    fun _ => (hbase.once neutral applied).1
  rw [show (rounding g r s).pos = u.pos from hpos.symm] at rest
  obtain ⟨w', run', shows, -⟩ := neutral.rule.choice_comes rest
  obtain rfl := run'.unique run
  have grows : Growing r (rounding g r s) o w' := neutral.rule.round h run'
  refine ⟨res, c, tried, shows, ?_, grows⟩
  rw [show s.pos = (rounding g r s).pos from rfl, grows.outgrows_iff seeds shows]
  cases res with
  | none => simpa [Further] using hle
  | some x =>
    obtain ⟨op, b, last⟩ := x
    obtain ⟨-, -, -, mem, hlast, -⟩ := tried.replace fun _ _ h => h
    have text := neutral.rule.texts op mem
    simp only [Option.elim_some, Further, Option.isSome_some, iff_true]
    omega

/-- As long as the rule grows behind an operand, it walks along a chain that is there either way. -/
theorem Neutral.exists_chain (neutral : Neutral v g input r inner recs base ops)
    (applied : Applied v g input r s) {q₀ c₀ : Nat}
    (hbase : EitherWay v g input r ops base s s.pos (some ((), q₀)) c₀)
    (run : Run g input (.grow inner (r, s.pos)) u w)
    (fair : Fair g input (.grow inner (r, s.pos)) u)
    (h : Growing r (rounding g r s) o u) (good : o.failed = false) (ahead : s.pos ≤ o.pos)
    (bound : o.pos ≤ input.size) (hle : q₀ ≤ o.pos) :
    ∃ links last c, Chain input (EitherWay v g input r ops base s) ops o.pos links last c := by
  generalize htask : Task.grow inner (r, s.pos) = task at run
  -- The induction is on the growth: a round is a link, and the seed ends where the link does.
  induction run generalizing o with
  | @growStop _ _ u w run stop =>
    cases htask
    obtain ⟨res, c, tried, -, hfurther, -⟩ := neutral.round applied hbase run
      ⟨h.seeds, h.blocked, h.scopes, h.memo⟩ (fair.ready.placed.of_tables rfl rfl)
      (fair.inside.move fair.place rfl rfl) rfl good ahead bound hle
    cases res with
    | none => exact ⟨[], _, c, .stop tried⟩
    | some _ =>
      rw [hfurther.2 rfl] at stop
      contradiction
  | @growNext _ _ u w w' run further rest _ ih =>
    cases htask
    obtain ⟨res, c, tried, shows, hfurther, grows⟩ := neutral.round applied hbase run
      ⟨h.seeds, h.blocked, h.scopes, h.memo⟩ (fair.ready.placed.of_tables rfl rfl)
      (fair.inside.move fair.place rfl rfl) rfl good ahead bound hle
    cases res with
    | none => exact absurd (hfurther.1 further) (by simp)
    | some x =>
      obtain ⟨op, b, last⟩ := x
      obtain ⟨good', hlast, -⟩ := shows
      have hlast : w.outcome.pos = last := hlast
      obtain ⟨-, -, -, mem, hahead, -⟩ := tried.replace fun _ _ h => h
      have fair' := fair.part (.growTail run further)
      obtain ⟨links, last', c', chain⟩ := ih fair' grows.next good' (by omega)
        (by exact fair'.inside.pos) (by omega) rfl
      exact ⟨_, _, _, .link tried (hlast ▸ chain)⟩
  | _ => cases htask

/-- The growth of a rule that a match has come to is one that a match comes to. -/
theorem Neutral.fair (neutral : Neutral v g input r inner recs base ops)
    (applied : Applied v g input r s) :
    Fair g input (.grow inner (r, s.pos)) (growing g r s) := by
  have whole : Fair g input (.whole (.apply r)) s := by
    refine ⟨⟨applied.coherent.placed, ?_, trivial⟩, (sound_initial g r).nodes, trivial,
      applied.inside⟩
    exact (sound_initial g r).ready.wrapped
  have body := whole.part (.rule neutral.rule.found)
  rw [entering_eq_self (by rw [applied.unblocked]; rfl)] at body
  exact body.part (.grown (applied.clear _ (Nat.le_refl _)) (by rw [applied.unblocked]; rfl))

/-- The base and the chain behind it are there either way, if the rule ends that associates to the
left. -/
theorem Neutral.exists_walk (neutral : Neutral v g input r inner recs base ops)
    (applied : Applied v g input r s) (run : Run g input (.whole (.apply r)) s w) :
    ∃ a c, EitherWay v g input r ops base s s.pos a c ∧ ∀ q, a = some ((), q) → s.pos ≤ q ∧
      ∃ links last c', Chain input (EitherWay v g input r ops base s) ops q links last c' := by
  have fair := neutral.fair applied
  have start : Growing r (rounding g r s) (.failing s.pos) (growing g r s) := by
    refine ⟨rfl, ?_, rfl, rfl⟩
    rw [rounding, growing, applied.unblocked]
  obtain ⟨w', grow⟩ := ends_of_unblocked neutral.rule.found (applied.clear _ (Nat.le_refl _))
    applied.unblocked run
  obtain ⟨x, first⟩ : Ends g input (.whole inner) (growing g r s) := by
    cases grow with
    | growStop run _ | growNext run _ _ => exact ⟨_, run⟩
  obtain ⟨t, ht, hpos, ends⟩ := neutral.rule.base_of_failed (neutral.free s) (fun _ h => h) start
    rfl rfl fun _ => ⟨x, (run_alts_iff neutral.rule.divided).2 first⟩
  have hpos : t.pos = s.pos := hpos
  obtain ⟨a, c, either, hle⟩ := neutral.eitherWay_of_ends (t := t) applied (ht.beside (.refl r _ _))
    (ht.clear applied.clear (hpos ▸ Nat.lt_succ_self _))
    (fair.ready.placed.of_tables (ht.seeds.trans start.seeds.symm) (ht.memo.trans start.memo.symm))
    (fair.inside.move (hpos ▸ applied.inside.pos) (ht.seeds.trans start.seeds.symm)
      (ht.memo.trans start.memo.symm)) (Nat.le_of_eq hpos.symm) (hpos ▸ ends)
  rw [hpos] at either hle
  refine ⟨a, c, either, ?_⟩
  rintro q rfl
  refine ⟨hle _ _ rfl, ?_⟩
  obtain ⟨x', first', shows, -⟩ := neutral.rule.choice_of_failed (s := rounding g r s)
    (.refl r _ _) applied.clear (neutral.free s) start rfl rfl (either.once neutral applied).1
  obtain rfl := first'.unique first
  have failing : View.ending.Shows (.failing s.pos) none := rfl
  have grows : Growing r (rounding g r s) (.failing s.pos) x' := neutral.rule.round start first
  -- The base reaches further than the failing seed, so there is another round.
  have further : x'.outgrows (r, s.pos) = true :=
    (grows.outgrows_iff failing shows).2 trivial
  obtain ⟨good, rfl, -⟩ := shows
  cases grow with
  | growStop run stop =>
    rw [run.unique first, further] at stop
    contradiction
  | growNext run _ rest =>
    obtain rfl := run.unique first
    have fair' := fair.part (.growTail run further)
    exact neutral.exists_chain applied either rest fair' grows.next good (hle _ _ rfl)
      fair'.inside.pos (Nat.le_refl _)

/-- A rule walks along a chain to its end, whether it grows on the right of its operators or
matches once there. -/
theorem OperatorRule.ends_of_chain
    (rule : OperatorRule View.ending g r inner recs base ops fun _ _ _ => ())
    (unblocked : u.blocked = []) (clear : Clear r u.pos u) {q c₀ : Nat} (hle : u.pos ≤ q)
    (hbase : BaseComes View.ending g input r ops base (rounding g r u) u.pos (some ((), q)) c₀)
    {links : List (Operator × Unit)} {last c : Nat}
    (chain : Chain input (BaseComes View.ending g input r ops base (rounding g r u)) ops q links
      last c) :
    ∃ u', Run g input (.whole (.apply r)) u u' ∧ View.ending.Shows u'.outcome (some ((), last)) ∧
      View.ending.Gains (max c₀ c) u u' := by
  cases assoc : g.isLeftAssoc r with
  | true =>
    have blocked : (rounding g r u).blocked.contains r = true := by
      rw [rounding_blocked assoc]
      simp
    exact rule.left_of_chain blocked (.refl r _ _) unblocked clear chain hbase hle
  | false =>
    have free : (rounding g r u).blocked = [] := if_neg (ne_true_of_eq_false assoc)
    have beside : Beside r (Operator.Labels ops) (rounding g r u) u :=
      ⟨unblocked.trans free.symm, rfl, fun _ _ => rfl, fun _ _ => rfl⟩
    exact rule.right_of_chain assoc free chain hbase hle u beside rfl clear

/-- There is one answer to an application of the rule, from every parallel state and however the
rule associates. -/
theorem Neutral.exists_answer (neutral : Neutral v g input r inner recs base ops)
    (applied : Applied v g input r s) (run : Run g input (.whole (.apply r)) s w) :
    ∃ answer d, ∀ g' u, Variant r g g' → Parallel v r s.pos (fun name => ¬ v.loose name) s u →
      u.blocked = [] → ∃ u', Run g' input (.whole (.apply r)) u u' ∧
        View.ending.Shows u'.outcome answer ∧ View.ending.Gains d u u' ∧
        (answer = none → u'.pos = u.pos) := by
  obtain ⟨a, c, either, walk⟩ := neutral.exists_walk applied run
  -- The chain is the same either way, and so is its end, whatever nests it.
  cases a with
  | none =>
    refine ⟨none, c, fun g' u variant par unblocked => ?_⟩
    obtain ⟨u', run', shows, gains, still⟩ := (neutral.rule.variant variant).fails (.refl r _ _)
      unblocked (par.pos ▸ par.clear.2) (par.pos ▸ either g' u variant par unblocked)
    exact ⟨u', run', shows, gains, fun _ => still⟩
  | some a =>
    obtain ⟨⟨⟩, q⟩ := a
    obtain ⟨hle, links, last, c', chain⟩ := walk q rfl
    refine ⟨some ((), last), max c c', fun g' u variant par unblocked => ?_⟩
    obtain ⟨u', run', shows, gains⟩ := (neutral.rule.variant variant).ends_of_chain unblocked
      (par.pos ▸ par.clear.2) (par.pos ▸ hle) (par.pos ▸ either g' u variant par unblocked)
      (chain.imp fun _ _ _ h => h g' u variant par unblocked)
    exact ⟨u', run', shows, gains, nofun⟩

/-- An application of the rule is answered in the same way however it associates, if that is so of
all that come later. -/
theorem Neutral.answered_of_applied (neutral : Neutral v g input r inner recs base ops)
    (applied : Applied v g input r s) (run : Run g input (.whole (.apply r)) s w) :
    Answered v g input r s w := by
  obtain ⟨answer, d, all⟩ := neutral.exists_answer applied run
  obtain ⟨w', run', shows, gains, still⟩ := all g s (.refl neutral.oblivious.others)
    (.refl v applied.clear) applied.unblocked
  obtain rfl := run'.unique run
  refine ⟨d, gains trivial, fun g' u variant par unblocked => ?_⟩
  obtain ⟨u', run', shows', gains', still'⟩ := all g' u variant par unblocked
  refine ⟨u', run', gains' trivial, ?_⟩
  cases answer with
  | none =>
    have bad : w'.failed = true := shows
    have bad' : u'.failed = true := shows'
    exact ⟨by rw [bad, bad'], by rw [still rfl, still' rfl, par.pos]⟩
  | some a =>
    obtain ⟨good, hpos, -⟩ := shows
    obtain ⟨good', hpos', -⟩ := shows'
    exact ⟨good'.trans good.symm, hpos'.trans hpos.symm⟩

/-- **Applications of the rule.**  However the rule associates, an application of it is answered in
the same way.  The induction is on how much of the input is left. -/
theorem Neutral.answered (neutral : Neutral v g input r inner recs base ops)
    (coherent : Coherent g s) (inside : Inside input s) (unblocked : s.blocked = [])
    (clear : Clear r s.pos s) (run : Run g input (.whole (.apply r)) s w) :
    Answered v g input r s w := by
  induction hn : input.size - s.pos using Nat.strong_induction_on generalizing s w with
  | _ n ih =>
    refine neutral.answered_of_applied ⟨coherent, inside, unblocked, clear, ?_⟩ run
    intro t w' later run' unblocked' clear'
    have further := later.further
    have hpos := later.inside.pos
    exact ih (input.size - t.pos) (by omega) later.coherent later.inside unblocked' clear' run' rfl

end Match

end Pegboard
