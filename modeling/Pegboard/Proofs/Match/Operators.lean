import Pegboard.Proofs.Match.Growth
import Pegboard.Proofs.Match.Literal

/-!
# Operators

A rule whose alternatives apply the rule on both sides of a text, and others, its base, reads
operands with operators between them.  While it grows, the left side of an operator is the seed, and
the right side is an application at a later offset.  How much that application takes decides how the
operands associate: all that follows if the rule grows there as well, and one operand if the rule is
blocked because it associates to the left.

This module says what an operator does in a rule that grows, and from it what the rule does with a
chain of operands, in both cases.  Both consume the same chain.

## Main Definitions

* `Operator`: an alternative that applies its rule on both sides of a text.
* `Tried`: which operator is taken behind an operand.
* `Chain`: operands and operators as long as there are more.

## Main Results

* `OperatorRule.right_of_chain`: a rule that grows on the right of its operators takes the chain,
  and nests it to the right.
* `OperatorRule.left_of_chain`: one that is blocked there takes the same chain, and nests it to the
  left.
-/

namespace Pegboard

/-! ## Operators in rules -/

/-- An alternative that applies its rule on both sides of a text, with the labels of both
applications from the inside out, and the expression behind them if there is one. -/
structure Operator where
  left : List String
  text : String
  right : List String
  result? : Option Expr

namespace Operator

/-- The names that the labels of some operators bind. -/
def Labels (ops : List Operator) (name : String) : Prop :=
  ∃ op ∈ ops, name ∈ op.left ∨ name ∈ op.right

/-- The terms behind the right side. -/
def tail (op : Operator) : List Pattern := op.result?.elim [] fun e => [.action e]

/-- The value of an operator under the bindings of its labels: that of its expression, or else that
of its right side. -/
def value (op : Operator) (scopes : Scopes) (right : Value) : Evaluated Value :=
  op.result?.elim (pure right) (·.eval scopes)

/-- The labels of an operator are bound to the values of its sides, the right side coming last. -/
structure Bound (op : Operator) (scopes : Scopes) (left right : Value) : Prop where
  right : ∀ name ∈ op.right, scopes.lookup? name = some right
  left : ∀ name ∈ op.left, name ∉ op.right → scopes.lookup? name = some left

/-- Whatever its sides come to, an operator has a value, and `combine` says what it counts as. -/
def Makes {β : Type} (V : View β) (combine : β → β → β) (op : Operator) : Prop :=
  ∀ b₁ b₂ left right scopes, V.Is b₁ left → V.Is b₂ right → op.Bound scopes left right →
    ∃ v, op.value scopes right = .ok v ∧ V.Is (combine b₁ b₂) v

end Operator

namespace Pattern

/-- The labels, from the inside out, of a pattern that applies `rule` and does nothing else. -/
def operand? (rule : String) : Pattern → Option (List String)
  | .apply name => if name = rule then some [] else none
  | .label p name => (operand? rule p).map (· ++ [name])
  | _ => none

/-- The operator of `rule` that some terms are. -/
def operatorTerms? (rule : String) : List Pattern → Option Operator
  | [left, .lit text, right] => do
    let leftLabels ← left.operand? rule
    let rightLabels ← right.operand? rule
    pure ⟨leftLabels, text, rightLabels, none⟩
  | [left, .lit text, right, .action e] => do
    let leftLabels ← left.operand? rule
    let rightLabels ← right.operand? rule
    pure ⟨leftLabels, text, rightLabels, some e⟩
  | _ => none

/-- The operator of `rule` that an alternative is. -/
def operator? (rule : String) (p : Pattern) : Option Operator :=
  p.terms?.bind (operatorTerms? rule)

/-- The alternatives that a pattern is divided into: those of a choice, or the pattern alone. -/
def DividesInto (p : Pattern) (ps : List Pattern) : Prop :=
  (p = .choice ps ∧ ps ≠ []) ∨ ps = [p]

theorem DividesInto.ne_nil {p : Pattern} {ps : List Pattern} (h : p.DividesInto ps) : ps ≠ [] := by
  rcases h with ⟨-, h⟩ | rfl
  · exact h
  · exact List.cons_ne_nil _ _

/-- The terms of an operator: its two sides with the text between them, and what is behind them. -/
theorem operatorTerms?_eq_some {rule : String} {ps : List Pattern} {op : Operator}
    (h : operatorTerms? rule ps = some op) :
    ∃ left right, ps = left :: .lit op.text :: right :: op.tail ∧
      left.operand? rule = some op.left ∧ right.operand? rule = some op.right := by
  unfold operatorTerms? at h
  split at h
  · next left text right =>
    obtain ⟨names, hleft, h⟩ := Option.bind_eq_some_iff.1 h
    obtain ⟨names', hright, h⟩ := Option.bind_eq_some_iff.1 h
    cases h
    exact ⟨left, right, rfl, hleft, hright⟩
  · next left text right e =>
    obtain ⟨names, hleft, h⟩ := Option.bind_eq_some_iff.1 h
    obtain ⟨names', hright, h⟩ := Option.bind_eq_some_iff.1 h
    cases h
    exact ⟨left, right, rfl, hleft, hright⟩
  · contradiction

end Pattern

/-! ## Labels around an application -/

namespace Scopes

/-- Binds several names to one value. -/
def bindAll (scopes : Scopes) (names : List String) (value : Value) : Scopes :=
  names.foldl (fun scopes name => scopes.bind name value) scopes

theorem lookup?_bindAll_of_not_mem {names : List String} (scopes : Scopes) (value : Value)
    {name : String} (h : name ∉ names) :
    (scopes.bindAll names value).lookup? name = scopes.lookup? name := by
  induction names generalizing scopes with
  | nil => rfl
  | cons n names ih =>
    rw [List.mem_cons, not_or] at h
    exact (ih (scopes.bind n value) h.2).trans (lookup?_bind_of_ne _ _ h.1)

theorem lookup?_bindAll_of_mem {names : List String} (scopes : Scopes) (value : Value)
    {name : String} (h : name ∈ names) :
    (scopes.bindAll names value).lookup? name = some value := by
  induction names generalizing scopes with
  | nil => contradiction
  | cons n names ih =>
    by_cases hmem : name ∈ names
    · exact ih (scopes.bind n value) hmem
    · obtain rfl : name = n := (List.mem_cons.1 h).resolve_right hmem
      exact (lookup?_bindAll_of_not_mem _ value hmem).trans (lookup?_bind_self _ _ _)

end Scopes

namespace MatchState

/-- The state after a pattern with several labels. -/
def labelledAll (s : MatchState) (names : List String) : MatchState := names.foldl labelled s

theorem labelledAll_of_failed {s : MatchState} (h : s.failed = true) (names : List String) :
    s.labelledAll names = s := by
  induction names with
  | nil => rfl
  | cons n names ih =>
    have hs : s.labelled n = s := if_pos h
    rw [labelledAll, List.foldl_cons, hs]
    exact ih

theorem labelledAll_of_good {s : MatchState} (h : s.failed = false) (names : List String) :
    s.labelledAll names = { s with scopes := s.scopes.bindAll names s.value } := by
  induction names generalizing s with
  | nil => rfl
  | cons n names ih =>
    have hs : s.labelled n = { s with scopes := s.scopes.bind n s.value } :=
      if_neg (ne_true_of_eq_false h)
    rw [labelledAll, List.foldl_cons, hs]
    exact ih h

/-- The state in which the terms of a sequence or a scope start. -/
def opened (s : MatchState) : Pattern → MatchState
  | .scope _ _ => { s with scopes := s.scopes.push }.succeed .null
  | _ => s.succeed .null

end MatchState

namespace Match

variable {β : Type} {V : View β} {g : Grammar} {input : Array Char} {r : String}
variable {p inner : Pattern} {op : Operator} {s₀ s t u w : MatchState} {o : Outcome}

/-- A side of an operator runs as the application does, and then its labels are bound. -/
theorem run_operand {names : List String} (h : p.operand? r = some names) :
    Run g input (.whole p) u w ↔
      ∃ v, Run g input (.whole (.apply r)) u v ∧ w = v.labelledAll names := by
  induction p using Pattern.operand?.induct r generalizing names w with
  | case1 =>
    rw [Pattern.operand?, if_pos rfl] at h
    rw [← Option.some.inj h]
    exact ⟨fun run => ⟨w, run, rfl⟩, fun ⟨_, run, hw⟩ => by rw [hw]; exact run⟩
  | case2 name hname =>
    rw [Pattern.operand?, if_neg hname] at h
    contradiction
  | case3 p name ih =>
    obtain ⟨names, hnames, rfl⟩ := Option.map_eq_some_iff.1 h
    have snoc (v : MatchState) :
        v.labelledAll (names ++ [name]) = (v.labelledAll names).labelled name := List.foldl_append
    constructor
    · intro run
      cases run with
      | atom h => contradiction
      | label run =>
        obtain ⟨v, first, rfl⟩ := (ih hnames).1 run
        exact ⟨v, first, (snoc v).symm⟩
    · rintro ⟨v, run, rfl⟩
      rw [snoc]
      exact .label ((ih hnames).2 ⟨v, run, rfl⟩)
  | case4 p happly hlabel =>
    rw [Pattern.operand?] at h
    · contradiction
    · exact happly
    · exact hlabel

/-! ## An operator while its rule grows -/

/-- A sequence or a scope runs as its terms do. -/
theorem run_of_terms? {ps : List Pattern} (h : p.terms? = some ps)
    (run : Run g input (.terms ps) (u.opened p) w) :
    ∃ v, Run g input (.whole p) u v ∧ v.outcome = w.outcome ∧ v.furthest = w.furthest := by
  cases p with
  | seq _ =>
    cases h
    exact ⟨w, .seq run, rfl, rfl⟩
  | scope _ _ =>
    cases h
    exact ⟨_, .scope run, rfl, rfl⟩
  | _ => contradiction

/-- If a sequence or a scope runs, so do its terms. -/
theorem exists_terms_of_run {ps : List Pattern} (h : p.terms? = some ps)
    (run : Run g input (.whole p) u w) : ∃ v, Run g input (.terms ps) (u.opened p) v := by
  cases p with
  | seq _ =>
    cases h
    cases run with
    | atom h => contradiction
    | seq run => exact ⟨_, run⟩
  | scope _ _ =>
    cases h
    cases run with
    | atom h => contradiction
    | scope run => exact ⟨_, run⟩
  | _ => contradiction

theorem opened_eq (u : MatchState) (p : Pattern) : ∃ scopes,
    u.opened p = { u with scopes := scopes }.succeed .null ∧
      ∀ name, scopes.lookup? name = u.scopes.lookup? name := by
  cases p with
  | scope _ _ => exact ⟨u.scopes.push, rfl, fun _ => rfl⟩
  | _ => exact ⟨u.scopes, rfl, fun _ => rfl⟩

/-- The state in which the right side of an operator is matched, `o` being the seed on its left. -/
def between (op : Operator) (p : Pattern) (o : Outcome) (u : MatchState) : MatchState :=
  { ((u.opened p).adopt o).labelledAll op.left with pos := o.pos + op.text.length }.succeed
    (.str op.text)

theorem between_eq (op : Operator) (p : Pattern) (u : MatchState) (good : o.failed = false) :
    ∃ scopes, between op p o u
        = { u with pos := o.pos + op.text.length, scopes := scopes }.succeed (.str op.text) ∧
      (∀ name ∈ op.left, scopes.lookup? name = some o.value) ∧
      ∀ name ∉ op.left, scopes.lookup? name = u.scopes.lookup? name := by
  obtain ⟨scopes, hopened, hlookup⟩ := opened_eq u p
  refine ⟨scopes.bindAll op.left o.value, ?_, fun name h => Scopes.lookup?_bindAll_of_mem _ _ h,
    fun name h => (Scopes.lookup?_bindAll_of_not_mem _ _ h).trans (hlookup name)⟩
  rw [between, hopened, MatchState.labelledAll_of_good good]
  rfl

/-- The alternative `p` is an operator of the rule `r`, and it is tried in the state `u`, in which
`r` grows from the seed `o`. -/
structure Trial (g : Grammar) (r : String) (p : Pattern) (op : Operator) (u : MatchState)
    (o : Outcome) : Prop where
  found : ∃ inner, g.body? r = some (.leftrec inner r)
  operator : p.operator? r = some op
  seed : u.seeds.get? (r, u.pos) = some o
  free : (u.blocked.isEmpty || u.blocked.contains r) = true

/-- The terms of the operator that is tried. -/
theorem Trial.terms (trial : Trial g r p op u o) :
    ∃ left right, p.terms? = some (left :: .lit op.text :: right :: op.tail) ∧
      left.operand? r = some op.left ∧ right.operand? r = some op.right := by
  obtain ⟨ps, hps, hop⟩ := Option.bind_eq_some_iff.1 trial.operator
  obtain ⟨left, right, rfl, hleft, hright⟩ := Pattern.operatorTerms?_eq_some hop
  exact ⟨left, right, hps, hleft, hright⟩

/-- The left side of an operator is the seed. -/
theorem Trial.run_left (trial : Trial g r p op u o) {left : Pattern}
    (h : left.operand? r = some op.left) :
    Run g input (.whole left) (u.opened p) (((u.opened p).adopt o).labelledAll op.left) := by
  refine (run_operand h).2 ⟨_, ?_, rfl⟩
  obtain ⟨inner, found⟩ := trial.found
  obtain ⟨scopes, hopened, -⟩ := opened_eq u p
  rw [hopened]
  exact apply_of_seed found trial.seed trial.free

/-- Without a seed on its left an operator fails, and there is nothing more to say about it. -/
theorem Trial.failed (trial : Trial g r p op u o) (bad : o.failed = true) :
    ∃ w, Run g input (.whole p) u w ∧ w.failed = true ∧ w.furthest = u.furthest := by
  obtain ⟨left, right, hps, hleft, -⟩ := trial.terms
  have head : Run g input (.whole left) (u.opened p)
      (((u.opened p).adopt o).labelledAll op.left) := trial.run_left hleft
  rw [MatchState.labelledAll_of_failed bad] at head
  obtain ⟨w, run, hw, hfurthest⟩ := run_of_terms? hps (.termsStop head bad)
  obtain ⟨scopes, hopened, -⟩ := opened_eq u p
  rw [hopened] at hw hfurthest
  exact ⟨w, run, (congrArg Outcome.failed hw).trans bad, hfurthest⟩

/-- An operator whose text does not stand behind the seed fails where the text does. -/
theorem Trial.missed (trial : Trial g r p op u o) (good : o.failed = false) {miss : Nat}
    (missed : ∀ s : MatchState, s.pos = o.pos → literal input op.text s = s.failAt miss none) :
    ∃ w, Run g input (.whole p) u w ∧ w.failed = true ∧ V.Gains (miss + 1) u w := by
  obtain ⟨left, right, hps, hleft, -⟩ := trial.terms
  have head : Run g input (.whole left) (u.opened p)
      (((u.opened p).adopt o).labelledAll op.left) := trial.run_left hleft
  rw [MatchState.labelledAll_of_good good] at head
  obtain ⟨scopes, hopened, -⟩ := opened_eq u p
  have lit : Run g input (.whole (.lit op.text)) _ _ := .atom (congrArg some (missed
    { (u.opened p).adopt o with scopes := (u.opened p).scopes.bindAll op.left o.value } rfl))
  obtain ⟨w, run, hw, hfurthest⟩ := run_of_terms? hps (.termsNext head good (.termsStop lit rfl))
  refine ⟨w, run, congrArg Outcome.failed hw, fun told => ?_⟩
  rw [MatchState.reach, hfurthest, hopened]
  exact V.gains_mergeFailure u (some ⟨miss, none⟩) told

/-- The left side and the text of an operator lead to the state between its sides. -/
theorem Trial.run_to_right (trial : Trial g r p op u o) (good : o.failed = false)
    (stands : Stands input op.text o.pos) {left : Pattern} {ps : List Pattern}
    (h : left.operand? r = some op.left) :
    Run g input (.terms (left :: .lit op.text :: ps)) (u.opened p) w ↔
      Run g input (.terms ps) (between op p o u) w := by
  have head : Run g input (.whole left) (u.opened p)
      (((u.opened p).adopt o).labelledAll op.left) := trial.run_left h
  have hgood : (((u.opened p).adopt o).labelledAll op.left).failed = false := by
    rw [MatchState.labelledAll_of_good good]
    exact good
  have hpos : (((u.opened p).adopt o).labelledAll op.left).pos = o.pos := by
    rw [MatchState.labelledAll_of_good good]
    rfl
  have lit : Run g input (.whole (.lit op.text)) (((u.opened p).adopt o).labelledAll op.left)
      (between op p o u) := by
    refine .atom (congrArg some ?_)
    rw [literal_of_stands (by rwa [hpos]), hpos]
    rfl
  constructor
  · intro run
    cases run with
    | termsStop run bad =>
      rw [run.unique head, hgood] at bad
      contradiction
    | termsNext run _ rest =>
      rw [run.unique head] at rest
      cases rest with
      | termsStop run bad =>
        rw [run.unique lit] at bad
        contradiction
      | termsNext run _ rest =>
        rw [run.unique lit] at rest
        exact rest
  · exact fun run => .termsNext head hgood (.termsNext lit rfl run)

/-- If an operator runs whose text stands behind the seed, so does its right side. -/
theorem Trial.right_of_run (trial : Trial g r p op u o) (good : o.failed = false)
    (stands : Stands input op.text o.pos) (run : Run g input (.whole p) u w) :
    ∃ t, Run g input (.whole (.apply r)) (between op p o u) t := by
  obtain ⟨left, right, hps, hleft, hright⟩ := trial.terms
  obtain ⟨v, run⟩ := exists_terms_of_run hps run
  cases (trial.run_to_right good stands hleft).1 run with
  | termsStop run _ =>
    obtain ⟨t, run, -⟩ := (run_operand hright).1 run
    exact ⟨t, run⟩
  | termsNext run _ _ =>
    obtain ⟨t, run, -⟩ := (run_operand hright).1 run
    exact ⟨t, run⟩

/-- An operator fails if its right side does. -/
theorem Trial.refused (trial : Trial g r p op u o) (good : o.failed = false)
    (stands : Stands input op.text o.pos)
    (run : Run g input (.whole (.apply r)) (between op p o u) t) (bad : t.failed = true) :
    ∃ w, Run g input (.whole p) u w ∧ w.failed = true ∧ w.furthest = t.furthest := by
  obtain ⟨left, right, hps, hleft, hright⟩ := trial.terms
  have side : Run g input (.whole right) (between op p o u) t :=
    (run_operand hright).2 ⟨t, run, (MatchState.labelledAll_of_failed bad _).symm⟩
  obtain ⟨w, run, hw, hfurthest⟩ := run_of_terms? hps
    ((trial.run_to_right good stands hleft).2 (.termsStop side bad))
  exact ⟨w, run, (congrArg Outcome.failed hw).trans bad, hfurthest⟩

/-- An operator whose right side matches has the value of its expression, and ends there. -/
theorem Trial.taken (trial : Trial g r p op u o) (good : o.failed = false)
    (stands : Stands input op.text o.pos)
    (run : Run g input (.whole (.apply r)) (between op p o u) t) (ok : t.failed = false) {v : Value}
    (hvalue : op.value (t.scopes.bindAll op.right t.value) t.value = .ok v) :
    ∃ w, Run g input (.whole p) u w ∧ w.outcome = ⟨v, false, t.pos⟩ ∧ w.furthest = t.furthest := by
  obtain ⟨left, right, hps, hleft, hright⟩ := trial.terms
  have side : Run g input (.whole right) (between op p o u)
      { t with scopes := t.scopes.bindAll op.right t.value } :=
    (run_operand hright).2 ⟨t, run, (MatchState.labelledAll_of_good ok _).symm⟩
  have behind : ∃ w, Run g input (.terms op.tail)
      { t with scopes := t.scopes.bindAll op.right t.value } w ∧
      w.outcome = ⟨v, false, t.pos⟩ ∧ w.furthest = t.furthest := by
    cases hresult : op.result? with
    | none =>
      rw [Operator.value, hresult] at hvalue
      cases hvalue
      rw [Operator.tail, hresult]
      exact ⟨_, .termsNil, by rw [MatchState.outcome, ok], rfl⟩
    | some e =>
      rw [Operator.value, hresult] at hvalue
      have hvalue : e.eval (t.scopes.bindAll op.right t.value) = .ok v := hvalue
      rw [Operator.tail, hresult]
      refine ⟨{ t with scopes := t.scopes.bindAll op.right t.value }.succeed v,
        .termsNext (.atom ?_) rfl .termsNil, rfl, rfl⟩
      simp only [atom?, action, evaluated, hvalue]
  obtain ⟨x, rest, hx, hfurthest⟩ := behind
  obtain ⟨w, run, hw, hfurthest'⟩ := run_of_terms? hps
    ((trial.run_to_right good stands hleft).2 (.termsNext side ok rest))
  exact ⟨w, run, hw.trans hx, hfurthest'.trans hfurthest⟩

/-! ## States beside one another -/

/-- A rule has no seed at an offset or behind it. -/
def Clear (r : String) (pos : Nat) (s : MatchState) : Prop :=
  ∀ q, pos ≤ q → s.seeds.get? (r, q) = none

/-- The state `u` is one that the rule `r` may come to from `s` by matching operators: it differs in
where it is and in its last outcome and furthest failure, in the seeds of `r`, and in what the names
of the operators' labels are bound to. -/
structure Beside (r : String) (names : String → Prop) (s u : MatchState) : Prop where
  blocked : u.blocked = s.blocked
  memo : u.memo = s.memo
  seeds : ∀ key : RuleAt, key.1 ≠ r → u.seeds.get? key = s.seeds.get? key
  lookup : ∀ name, ¬ names name → u.scopes.lookup? name = s.scopes.lookup? name

theorem Beside.refl (r : String) (names : String → Prop) (s : MatchState) : Beside r names s s :=
  ⟨rfl, rfl, fun _ _ => rfl, fun _ _ => rfl⟩

/-- A state in which the rule grows is beside what the state without the seed is beside. -/
theorem Growing.beside {names : String → Prop} (h : Growing r s o u)
    (beside : Beside r names s₀ s) : Beside r names s₀ u := by
  refine ⟨h.blocked.trans beside.blocked, h.memo.trans beside.memo, fun key hkey => ?_, ?_⟩
  · rw [h.seeds, Table.get?_insert_of_ne _ _ fun heq => hkey (congrArg Prod.fst heq)]
    exact beside.seeds key hkey
  · rw [h.scopes]
    exact beside.lookup

/-- Behind its seed, the rule that grows has none. -/
theorem Growing.clear (h : Growing r s o u) (clear : Clear r s.pos s) {pos : Nat}
    (hpos : s.pos < pos) : Clear r pos u := by
  intro q hq
  rw [h.seeds, Table.get?_insert_of_ne _ _ fun heq => by
    have : q = s.pos := congrArg Prod.snd heq
    omega]
  exact clear q (by omega)

/-- Between the sides of an operator the state is beside the one before, for the labels of the
operator are all that is bound. -/
theorem beside_between {names : String → Prop} (beside : Beside r names s₀ u)
    (labels : ∀ name ∈ op.left, names name) (p : Pattern) (good : o.failed = false) :
    Beside r names s₀ (between op p o u) := by
  obtain ⟨scopes, h, -, hother⟩ := between_eq op p u good
  rw [h]
  refine ⟨beside.blocked, beside.memo, beside.seeds, fun name hname => ?_⟩
  exact (hother name fun hmem => hname (labels name hmem)).trans (beside.lookup name hname)

/-- After the right side of an operator its labels are bound as they should be. -/
theorem bound_between (p : Pattern) (u : MatchState) (good : o.failed = false) (right : Value) :
    op.Bound ((between op p o u).scopes.bindAll op.right right) o.value right := by
  obtain ⟨scopes, h, hleft, -⟩ := between_eq op p u good
  rw [h]
  refine ⟨fun name hname => Scopes.lookup?_bindAll_of_mem _ _ hname, fun name hname hnot => ?_⟩
  exact (Scopes.lookup?_bindAll_of_not_mem _ _ hnot).trans (hleft name hname)

/-! ## Alternatives in order -/

/-- A pattern runs as the alternatives do that it is divided into. -/
theorem run_alts_iff {ps : List Pattern} (h : p.DividesInto ps) :
    Run g input (.alts s.pos ps) s w ↔ Run g input (.whole p) s w := by
  rcases h with ⟨rfl, -⟩ | rfl
  · constructor
    · exact .choice
    · intro run
      cases run with
      | atom h => contradiction
      | choice run => exact run
  · constructor
    · intro run
      cases run with
      | altsLast run => exact run
    · exact .altsLast

/-- What is so of all nodes of a pattern is so of those of its alternatives. -/
theorem all_of_divided {P : Pattern → Prop} {ps : List Pattern} (h : p.DividesInto ps)
    (all : All P [p]) : All P ps := by
  rcases h with ⟨rfl, -⟩ | rfl
  · exact all.parts
  · exact all

/-- What alternatives come to that are tried after others; no alternatives at all leave the failure
of the last. -/
def Rest (V : View β) (g : Grammar) (input : Array Char) (start : Nat) (ps : List Pattern)
    (u : MatchState) (a : Option (β × Nat)) (c : Nat) : Prop :=
  match ps with
  | [] => a = none ∧ c = 0
  | p :: ps => Comes V g input (.alts start (p :: ps)) u a c

/-- An alternative that matches is taken. -/
theorem comes_of_taken {start : Nat} {ps : List Pattern} {a : Option (β × Nat)} {c : Nat}
    (run : Run g input (.whole p) u w) (good : w.failed = false) (shows : V.Shows w.outcome a)
    (gains : V.Gains c u w) : Comes V g input (.alts start (p :: ps)) u a c :=
  ⟨w, run.taken good, shows, gains⟩

/-- After an alternative that fails the others are tried. -/
theorem comes_of_next {start : Nat} {ps : List Pattern} {a : Option (β × Nat)} {c c' : Nat}
    (run : Run g input (.whole p) u w) (bad : w.failed = true) (gains : V.Gains c u w)
    (rest : Rest V g input start ps { w with pos := start } a c') :
    Comes V g input (.alts start (p :: ps)) u a (max c c') := by
  cases ps with
  | nil =>
    obtain ⟨rfl, rfl⟩ := rest
    exact ⟨w, .altsLast run, bad, by rwa [Nat.max_zero]⟩
  | cons q ps =>
    obtain ⟨w', run', shows, gains'⟩ := rest
    exact ⟨w', .altsNext run bad run', shows, View.Gains.trans gains gains'⟩

/-! ## Which operator is taken -/

/-- Of some operators, tried in order behind an operand that ends at `q`, the first is taken whose
text stands there and whose right side is there, if `Here` says what is at an offset. -/
inductive Tried (input : Array Char) (Here : Nat → Option (β × Nat) → Nat → Prop) (q : Nat) :
    List Operator → Option (Operator × β × Nat) → Nat → Prop where
  | nothing : Tried input Here q [] none 0
  | missed {op ops a c miss}
      (h : ∀ s : MatchState, s.pos = q → literal input op.text s = s.failAt miss none)
      (rest : Tried input Here q ops a c) : Tried input Here q (op :: ops) a (max (miss + 1) c)
  | refused {op ops a c c'} (stands : Stands input op.text q)
      (h : Here (q + op.text.length) none c) (rest : Tried input Here q ops a c') :
      Tried input Here q (op :: ops) a (max c c')
  | taken {op ops b last c} (stands : Stands input op.text q)
      (h : Here (q + op.text.length) (some (b, last)) c) (ahead : q + op.text.length ≤ last) :
      Tried input Here q (op :: ops) (some (op, b, last)) c

/-- What is known of a rule of operators.  Its recursive alternatives are operators, and `combine`
says what their values count as. -/
structure OperatorRule (V : View β) (g : Grammar) (r : String) (inner : Pattern)
    (recs base : List Pattern) (ops : List Operator) (combine : Operator → β → β → β) :
    Prop where
  closed : ∀ b ∈ g.bodies, b.2.Closed
  memoless : ∀ b ∈ g.bodies, b.2.Everywhere Pattern.NotMemo
  found : g.body? r = some (.leftrec inner r)
  divided : inner.DividesInto (recs ++ base)
  operators : recs.map (Pattern.operator? r) = ops.map some
  texts : ∀ op ∈ ops, 0 < op.text.length
  makes : ∀ op ∈ ops, op.Makes V (combine op)

/-- What the base comes to at an offset, from every state beside `s₀`. -/
def BaseComes (V : View β) (g : Grammar) (input : Array Char) (r : String) (ops : List Operator)
    (base : List Pattern) (s₀ : MatchState) (pos : Nat) (a : Option (β × Nat)) (c : Nat) : Prop :=
  ∀ t, Beside r (Operator.Labels ops) s₀ t → t.pos = pos → Clear r (pos + 1) t →
    Rest V g input pos base t a c

/-- What the rule comes to at an offset, from every state beside `s₀`. -/
def RuleComes (V : View β) (g : Grammar) (input : Array Char) (r : String) (ops : List Operator)
    (s₀ : MatchState) (pos : Nat) (a : Option (β × Nat)) (c : Nat) : Prop :=
  ∀ t, Beside r (Operator.Labels ops) s₀ t → t.pos = pos → Clear r pos t →
    Comes V g input (.whole (.apply r)) t a c

section Rule

variable {recs base : List Pattern} {ops : List Operator} {combine : Operator → β → β → β}
variable {q : Nat} {b : β}

/-- What is so of all nodes of all rules is so of the nodes of the alternatives. -/
theorem OperatorRule.all (rule : OperatorRule V g r inner recs base ops combine)
    {P : Pattern → Prop} (rules : ∀ b ∈ g.bodies, b.2.Everywhere P) : All P (recs ++ base) :=
  all_of_divided rule.divided (all_body rules rule.found).parts

theorem OperatorRule.closed_alternatives (rule : OperatorRule V g r inner recs base ops combine) :
    ∀ p ∈ recs ++ base, p.Closed := by
  have closed : inner.Closed := rule.closed _ (Bodies.mem_of_body? rule.found)
  rcases rule.divided with ⟨hinner, -⟩ | h
  · rw [hinner] at closed
    exact Pattern.closedAll_iff.1 closed
  · rw [h]
    exact List.forall_mem_singleton.2 closed

/-- After an alternative of the rule, the next is tried in a state of the same growth. -/
theorem OperatorRule.growing (rule : OperatorRule V g r inner recs base ops combine)
    (h : Growing r s o u) (hp : p ∈ recs) (run : Run g input (.whole p) u w) :
    Growing r s o { w with pos := s.pos } := by
  have mem : p ∈ recs ++ base := List.mem_append_left _ hp
  have hw := h.run rule.closed rule.memoless run (rule.closed_alternatives p mem) fun q hq =>
    List.mem_singleton.1 hq ▸ rule.all rule.memoless p mem
  exact ⟨hw.seeds, hw.blocked, hw.scopes, hw.memo⟩

/-- After a round of the rule, the state is one of the same growth. -/
theorem OperatorRule.round (rule : OperatorRule V g r inner recs base ops combine)
    (h : Growing r s o u) (run : Run g input (.whole inner) u w) : Growing r s o w :=
  h.run rule.closed rule.memoless run (rule.closed _ (Bodies.mem_of_body? rule.found))
    (all_body rule.memoless rule.found).parts

/-- Before there is a seed, no operator is taken. -/
theorem OperatorRule.alternatives_of_failed (rule : OperatorRule V g r inner recs base ops combine)
    (beside : Beside r (Operator.Labels ops) s₀ s) (clear : Clear r s.pos s)
    (free : (s.blocked.isEmpty || s.blocked.contains r) = true)
    {ps : List Pattern} (hps : ∀ p ∈ ps, p ∈ recs ∧ (p.operator? r).isSome)
    (h : Growing r s o u) (hpos : u.pos = s.pos) (bad : o.failed = true)
    {a : Option (β × Nat)} {c : Nat} (hbase : BaseComes V g input r ops base s₀ s.pos a c) :
    Rest V g input s.pos (ps ++ base) u a c := by
  induction ps generalizing u with
  | nil => exact hbase u (h.beside beside) hpos (h.clear clear (Nat.lt_succ_self _))
  | cons p ps ih =>
    obtain ⟨hrecs, hop⟩ := hps p (.head _)
    obtain ⟨op, hop⟩ := Option.isSome_iff_exists.1 hop
    have trial : Trial g r p op u o := by
      refine ⟨⟨_, rule.found⟩, hop, ?_, by rw [h.blocked]; exact free⟩
      rw [hpos, h.seeds, Table.get?_insert_self]
    obtain ⟨w, run, hw, hfurthest⟩ : ∃ w, Run g input (.whole p) u w ∧ _ := trial.failed bad
    have gains : V.Gains 0 u w := fun _ => by
      rw [MatchState.reach, hfurthest, Nat.max_zero]
      rfl
    have rest := ih (fun p hp => hps p (.tail _ hp)) (rule.growing h hrecs run) rfl
    have comes := comes_of_next run hw gains rest
    rwa [Nat.zero_max] at comes

/-- The first of some operators of the rule is tried in a state in which the rule grows. -/
theorem OperatorRule.trial (rule : OperatorRule V g r inner recs base ops combine)
    (free : (s.blocked.isEmpty || s.blocked.contains r) = true) (h : Growing r s o u)
    (hpos : u.pos = s.pos) {ps : List Pattern} {os : List Operator}
    (hops : ps.map (Pattern.operator? r) = (op :: os).map some) :
    ∃ p ps', ps = p :: ps' ∧ Trial g r p op u o ∧
      ps'.map (Pattern.operator? r) = os.map some := by
  cases ps with
  | nil => contradiction
  | cons p ps =>
    obtain ⟨hop, hrest⟩ := List.cons.inj hops
    refine ⟨p, ps, rfl, ⟨⟨_, rule.found⟩, hop, ?_, by rw [h.blocked]; exact free⟩, hrest⟩
    rw [hpos, h.seeds, Table.get?_insert_self]

/-- The right side of an operator comes to what the rule comes to where it is matched. -/
theorem right_of_comes (beside : Beside r (Operator.Labels ops) s₀ s) (clear : Clear r s.pos s)
    (h : Growing r s o u) (good : o.failed = false) (ahead : s.pos ≤ o.pos) (hop : op ∈ ops)
    (text : 0 < op.text.length) (p : Pattern) {a : Option (β × Nat)} {c : Nat}
    (there : RuleComes V g input r ops s₀ (o.pos + op.text.length) a c) :
    ∃ t, Run g input (.whole (.apply r)) (between op p o u) t ∧ V.Shows t.outcome a ∧
      V.Gains c u t := by
  obtain ⟨scopes, heq, -⟩ := between_eq op p u good
  have hseeds : (between op p o u).seeds = u.seeds := by rw [heq]; rfl
  have hpos : (between op p o u).pos = o.pos + op.text.length := by rw [heq]; rfl
  have hfurthest : (between op p o u).furthest = u.furthest := by rw [heq]; rfl
  obtain ⟨t, run, shows, gains⟩ := there (between op p o u)
    (beside_between (h.beside beside) (fun name hname => ⟨op, hop, .inl hname⟩) p good) hpos
    (fun k hk => by rw [hseeds]; exact h.clear clear (by omega) k hk)
  refine ⟨t, run, shows, fun told => ?_⟩
  rw [gains told, MatchState.reach, hfurthest]
  rfl

/-- A round from a seed takes the operator that is taken behind it, or else it is the base. -/
theorem OperatorRule.alternatives_of_tried (rule : OperatorRule V g r inner recs base ops combine)
    (beside : Beside r (Operator.Labels ops) s₀ s) (clear : Clear r s.pos s)
    (free : (s.blocked.isEmpty || s.blocked.contains r) = true) (seeds : V.Shows o (some (b, q)))
    (ahead : s.pos ≤ q) {os : List Operator} {res : Option (Operator × β × Nat)} {c c' : Nat}
    (tried : Tried input (RuleComes V g input r ops s₀) q os res c) (hos : ∀ op ∈ os, op ∈ ops)
    {ps : List Pattern} (hps : ∀ p ∈ ps, p ∈ recs)
    (hops : ps.map (Pattern.operator? r) = os.map some) (h : Growing r s o u)
    (hpos : u.pos = s.pos) {a : Option (β × Nat)}
    (hbase : res = none → BaseComes V g input r ops base s₀ s.pos a c') :
    Rest V g input s.pos (ps ++ base) u
      (res.elim a fun x => some (combine x.1 b x.2.1, x.2.2)) (max c (res.elim c' fun _ => 0)) := by
  obtain ⟨good, rfl, his⟩ := seeds
  -- The alternatives go along with the operators; where there are no more, the base is behind them.
  induction tried generalizing ps u with
  | nothing =>
    obtain rfl : ps = [] := List.map_eq_nil_iff.1 hops
    rw [Nat.zero_max]
    exact hbase rfl u (h.beside beside) hpos (h.clear clear (Nat.lt_succ_self _))
  | missed hmiss _ ih =>
    obtain ⟨p, ps, rfl, trial, hops⟩ := rule.trial free h hpos hops
    obtain ⟨w, run, bad, gains⟩ := trial.missed (V := V) good hmiss
    have rest := ih (fun op hop => hos op (.tail _ hop)) (fun p hp => hps p (.tail _ hp)) hops
      (rule.growing h (hps p (.head _)) run) rfl hbase
    rw [Nat.max_assoc]
    exact comes_of_next run bad gains rest
  | refused stands there _ ih =>
    obtain ⟨p, ps, rfl, trial, hops⟩ := rule.trial free h hpos hops
    obtain ⟨t, right, shows, gains⟩ := right_of_comes beside clear h good ahead
      (hos _ (.head _)) (rule.texts _ (hos _ (.head _))) p there
    obtain ⟨w, run, bad, hfurthest⟩ := trial.refused good stands right shows
    have gains' : V.Gains _ u w := fun told => by
      rw [MatchState.reach, hfurthest]
      exact gains told
    have rest := ih (fun op hop => hos op (.tail _ hop)) (fun p hp => hps p (.tail _ hp)) hops
      (rule.growing h (hps p (.head _)) run) rfl hbase
    rw [Nat.max_assoc]
    exact comes_of_next run bad gains' rest
  | @taken op os b' last c stands there _ =>
    obtain ⟨p, ps, rfl, trial, -⟩ := rule.trial free h hpos hops
    obtain ⟨t, right, ⟨ok, rfl, his'⟩, gains⟩ := right_of_comes beside clear h good ahead
      (hos _ (.head _)) (rule.texts _ (hos _ (.head _))) p there
    -- The right side has left the scopes alone, so both labels are bound to what they stand for.
    have hscopes : t.scopes = (between op p o u).scopes := right.scopes_of_closed
      (fun _ _ found => rule.closed _ (Bodies.mem_of_body? found)) trivial
    have bound : op.Bound _ o.value t.value := bound_between p u good t.value
    rw [← hscopes] at bound
    obtain ⟨v, hvalue, made⟩ := rule.makes op (hos op (.head _)) _ _ _ _ _ his his' bound
    obtain ⟨w, run, hw, hfurthest⟩ := trial.taken good stands right ok hvalue
    simp only [Option.elim_some, Nat.max_zero]
    refine comes_of_taken run (congrArg Outcome.failed hw) ?_ (fun told => ?_)
    · rw [hw]
      exact ⟨rfl, rfl, made⟩
    · rw [MatchState.reach, hfurthest]
      exact gains told

/-- If the alternatives of the rule come to an answer, so does what is inside it. -/
theorem OperatorRule.choice_comes (rule : OperatorRule V g r inner recs base ops combine)
    {a : Option (β × Nat)} {c : Nat} (h : Rest V g input u.pos (recs ++ base) u a c) :
    Comes V g input (.whole inner) u a c := by
  unfold Rest at h
  split at h
  · next hnil => exact absurd hnil rule.divided.ne_nil
  · next hcons =>
    obtain ⟨w, run, shows, gains⟩ := h
    exact ⟨w, (run_alts_iff rule.divided).1 (hcons ▸ run), shows, gains⟩

/-- From the failing seed, the rule is its base. -/
theorem OperatorRule.choice_of_failed (rule : OperatorRule V g r inner recs base ops combine)
    (beside : Beside r (Operator.Labels ops) s₀ s) (clear : Clear r s.pos s)
    (free : (s.blocked.isEmpty || s.blocked.contains r) = true) (h : Growing r s o u)
    (hpos : u.pos = s.pos) (bad : o.failed = true) {a : Option (β × Nat)} {c : Nat}
    (hbase : BaseComes V g input r ops base s₀ s.pos a c) :
    Comes V g input (.whole inner) u a c := by
  refine rule.choice_comes ?_
  rw [hpos]
  refine rule.alternatives_of_failed beside clear free (fun p hp => ⟨hp, ?_⟩) h hpos bad hbase
  have mem : p.operator? r ∈ ops.map some := rule.operators ▸ List.mem_map_of_mem hp
  obtain ⟨op, -, hop⟩ := List.mem_map.1 mem
  rw [← hop]
  rfl

/-! ## Rounds of a rule of operators -/

/-- What a round of the rule comes to at `start`, by the seed. -/
inductive OperatorRound (input : Array Char) (Here Base : Nat → Option (β × Nat) → Nat → Prop)
    (ops : List Operator) (combine : Operator → β → β → β) (start : Nat) :
    Option (β × Nat) → Option (β × Nat) → Nat → Prop where
  | first {a c} (h : Base start a c) : OperatorRound input Here Base ops combine start none a c
  | further {b q op b' last c} (ahead : start ≤ q)
      (tried : Tried input Here q ops (some (op, b', last)) c) :
      OperatorRound input Here Base ops combine start (some (b, q))
        (some (combine op b b', last)) c
  | again {b q a c c'} (ahead : start ≤ q) (tried : Tried input Here q ops none c)
      (h : Base start a c') :
      OperatorRound input Here Base ops combine start (some (b, q)) a (max c c')

/-- Where no rule is blocked, the rule comes to the end of its rounds. -/
theorem OperatorRule.apply_of_rounds (rule : OperatorRule V g r inner recs base ops combine)
    (beside : Beside r (Operator.Labels ops) s₀ (rounding g r t)) (unblocked : t.blocked = [])
    (clear : Clear r t.pos t) {last : Option (β × Nat)} {c : Nat}
    (climb : Climb (OperatorRound input (RuleComes V g input r ops s₀)
      (BaseComes V g input r ops base s₀) ops combine t.pos) none last c) :
    ∃ w, Run g input (.whole (.apply r)) t w ∧ V.Shows w.outcome last ∧ V.Gains c t w ∧
      (last = none → w.pos = t.pos) := by
  have free : ((rounding g r t).blocked.isEmpty || (rounding g r t).blocked.contains r) = true := by
    unfold rounding
    cases g.isLeftAssoc r <;> simp
  refine apply_of_climb rule.found rule.closed rule.memoless unblocked (clear _ (Nat.le_refl _))
    (fun {seed a c o v} round seeds growing hv => ?_) climb
  have clear' : Clear r (rounding g r t).pos (rounding g r t) := clear
  cases round with
  | first h => exact rule.choice_of_failed beside clear' free growing hv seeds h
  | @further b q op b' last c ahead tried =>
    refine rule.choice_comes ?_
    rw [hv, ← Nat.max_zero c]
    have base : some (op, b', last) = none →
        BaseComes V g input r ops base s₀ (rounding g r t).pos none 0 := nofun
    exact rule.alternatives_of_tried beside clear' free seeds ahead tried (fun _ h => h)
      (fun _ h => h) rule.operators growing hv base
  | again ahead tried h =>
    refine rule.choice_comes ?_
    rw [hv]
    exact rule.alternatives_of_tried beside clear' free seeds ahead tried (fun _ h => h)
      (fun _ h => h) rule.operators growing hv fun _ => h

/-- Where the rule is blocked, it is its base. -/
theorem OperatorRule.once (rule : OperatorRule V g r inner recs base ops combine)
    (blocked : s₀.blocked.contains r = true) {pos : Nat} {a : Option (β × Nat)} {c : Nat}
    (hbase : BaseComes V g input r ops base s₀ pos a c) :
    RuleComes V g input r ops s₀ pos a c := by
  rintro t beside rfl clear
  have hblocked : t.blocked.contains r = true := by rw [beside.blocked, blocked]
  have growing : Growing r t (.failing t.pos) (t.seeded r) := ⟨rfl, rfl, rfl, rfl⟩
  obtain ⟨w, run, shows, gains⟩ := rule.choice_of_failed (u := t.seeded r) beside clear
    (by rw [hblocked, Bool.or_true]) growing rfl rfl hbase
  exact ⟨_, apply_of_blocked rule.found (clear _ (Nat.le_refl _)) hblocked run, shows, gains⟩

/-! ## Chains of operands -/

/-- Operators and operands as long as there are more, from the end of the first operand on. -/
inductive Chain (input : Array Char) (Here : Nat → Option (β × Nat) → Nat → Prop)
    (ops : List Operator) : Nat → List (Operator × β) → Nat → Nat → Prop where
  | stop {q c} (tried : Tried input Here q ops none c) : Chain input Here ops q [] q c
  | link {q op b q' links last c c'} (tried : Tried input Here q ops (some (op, b, q')) c)
      (rest : Chain input Here ops q' links last c') :
      Chain input Here ops q ((op, b) :: links) last (max c c')

/-- A chain of operands nested to the right, after a first one. -/
def nestRight {ι : Type} (combine : ι → β → β → β) (b : β) : List (ι × β) → β
  | [] => b
  | (i, b') :: links => combine i b (nestRight combine b' links)

/-- A chain of operands nested to the left, after a first one. -/
def nestLeft {ι : Type} (combine : ι → β → β → β) (b : β) (links : List (ι × β)) : β :=
  links.foldl (fun b link => combine link.1 b link.2) b

variable {Here Here' : Nat → Option (β × Nat) → Nat → Prop} {links : List (Operator × β)}
variable {last c : Nat}

/-- What is taken depends on the right sides only. -/
theorem Tried.imp {os : List Operator} {res : Option (Operator × β × Nat)}
    (tried : Tried input Here q os res c) (imp : ∀ pos a c, Here pos a c → Here' pos a c) :
    Tried input Here' q os res c := by
  induction tried with
  | nothing => exact .nothing
  | missed h _ ih => exact .missed h ih
  | refused stands h _ ih => exact .refused stands (imp _ _ _ h) ih
  | taken stands h ahead => exact .taken stands (imp _ _ _ h) ahead

theorem Chain.imp (chain : Chain input Here ops q links last c)
    (imp : ∀ pos a c, Here pos a c → Here' pos a c) : Chain input Here' ops q links last c := by
  induction chain with
  | stop tried => exact .stop (tried.imp imp)
  | link tried _ ih => exact .link (tried.imp imp) ih

/-- If no operator is taken, then so it is with whatever fails where the right sides fail. -/
theorem Tried.refuse {os : List Operator} (tried : Tried input Here q os none c)
    (refuses : ∀ pos c, Here pos none c → Here' pos none c) : Tried input Here' q os none c := by
  generalize hres : (none : Option (Operator × β × Nat)) = res at tried
  induction tried with
  | nothing => exact .nothing
  | missed h _ ih => exact .missed h (ih hres)
  | refused stands h _ ih => exact .refused stands (refuses _ _ h) (ih hres)
  | taken => contradiction

/-- The operator that is taken is still taken if its right side comes to something else, as long as
the right sides of those before it fail. -/
theorem Tried.replace {os : List Operator} {op : Operator} {b : β}
    (tried : Tried input Here q os (some (op, b, last)) c)
    (refuses : ∀ pos c, Here pos none c → Here' pos none c) :
    ∃ before c', c = max before c' ∧ op ∈ os ∧ q + op.text.length ≤ last ∧
      Here (q + op.text.length) (some (b, last)) c' ∧
      ∀ b' last' d, Here' (q + op.text.length) (some (b', last')) d → last ≤ last' →
        Tried input Here' q os (some (op, b', last')) (max before d) := by
  generalize hres : some (op, b, last) = res at tried
  induction tried with
  | nothing => contradiction
  | @missed op' os a c miss h _ ih =>
    obtain ⟨before, c', rfl, mem, ahead, here, replace⟩ := ih hres
    refine ⟨max (miss + 1) before, c', (Nat.max_assoc _ _ _).symm, .tail _ mem, ahead, here,
      fun b' last' d here' hle => ?_⟩
    rw [Nat.max_assoc]
    exact .missed h (replace b' last' d here' hle)
  | @refused op' os a c₁ c₂ stands h _ ih =>
    obtain ⟨before, c', rfl, mem, ahead, here, replace⟩ := ih hres
    refine ⟨max c₁ before, c', (Nat.max_assoc _ _ _).symm, .tail _ mem, ahead, here,
      fun b' last' d here' hle => ?_⟩
    rw [Nat.max_assoc]
    exact .refused stands (refuses _ _ h) (replace b' last' d here' hle)
  | @taken op' os b' last' c stands h ahead =>
    cases hres
    refine ⟨0, c, (Nat.zero_max _).symm, .head _, ahead, h, fun b' last' d here' hle => ?_⟩
    rw [Nat.zero_max]
    exact .taken stands here' (by omega)

/-- At the end of a chain no operator is taken, and the chain does not go back. -/
theorem Chain.end_tried (chain : Chain input Here ops q links last c) :
    q ≤ last ∧ ∃ c' ≤ c, Tried input Here last ops none c' := by
  induction chain with
  | @stop q c tried => exact ⟨Nat.le_refl _, c, Nat.le_refl _, tried⟩
  | @link q op b q' links last c c' tried _ ih =>
    obtain ⟨hle, c'', hc, h⟩ := ih
    obtain ⟨-, -, -, -, ahead, -⟩ := tried.replace fun _ _ h => h
    exact ⟨by omega, c'', by omega, h⟩

/-! ## The rule and its chain -/

/-- Where the base fails, so does the rule, and it stays there. -/
theorem OperatorRule.fails (rule : OperatorRule V g r inner recs base ops combine)
    (beside : Beside r (Operator.Labels ops) s₀ (rounding g r t)) (unblocked : t.blocked = [])
    (clear : Clear r t.pos t) (hbase : BaseComes V g input r ops base s₀ t.pos none c) :
    ∃ w, Run g input (.whole (.apply r)) t w ∧ V.Shows w.outcome none ∧ V.Gains c t w ∧
      w.pos = t.pos := by
  obtain ⟨w, run, shows, gains, hpos⟩ :=
    rule.apply_of_rounds beside unblocked clear (.stop (.first hbase) id)
  exact ⟨w, run, shows, gains, hpos rfl⟩

/-- A rule that does not associate to the left makes its rounds with no rule blocked. -/
theorem beside_rounding (notAssoc : g.isLeftAssoc r = false) (unblocked : s₀.blocked = [])
    {names : String → Prop} (beside : Beside r names s₀ t) :
    Beside r names s₀ (rounding g r t) := by
  refine ⟨?_, beside.memo, beside.seeds, beside.lookup⟩
  rw [rounding, unblocked, notAssoc]
  rfl

/-- **The chain, nested to the right.**  A rule that does not associate to the left takes an operand
and the chain behind it: its right sides take all of the chain that is behind them. -/
theorem OperatorRule.right_of_chain (rule : OperatorRule V g r inner recs base ops combine)
    (notAssoc : g.isLeftAssoc r = false) (unblocked : s₀.blocked = [])
    (chain : Chain input (BaseComes V g input r ops base s₀) ops q links last c) {pos : Nat} {b : β}
    {c₀ : Nat} (hbase : BaseComes V g input r ops base s₀ pos (some (b, q)) c₀) (ahead : pos ≤ q) :
    RuleComes V g input r ops s₀ pos (some (nestRight combine b links, last)) (max c₀ c) := by
  have refuses : ∀ pos c, BaseComes V g input r ops base s₀ pos none c →
      RuleComes V g input r ops s₀ pos none c := by
    rintro _ c hbase t beside rfl clear
    obtain ⟨w, run, shows, gains, -⟩ := rule.fails (beside_rounding notAssoc unblocked beside)
      (beside.blocked.trans unblocked) clear hbase
    exact ⟨w, run, shows, gains⟩
  -- A right side is an application of the same kind further on, with the rest of the chain.
  induction chain generalizing pos b c₀ with
  | @stop q c tried =>
    rintro t beside rfl clear
    obtain ⟨w, run, shows, gains, -⟩ := rule.apply_of_rounds
      (beside_rounding notAssoc unblocked beside) (beside.blocked.trans unblocked) clear
      (.next (.first hbase) trivial
        (.stop (.again ahead (tried.refuse refuses) hbase) (Nat.lt_irrefl q)))
    rw [show max c₀ (max c c₀) = max c₀ c by omega] at gains
    exact ⟨w, run, shows, gains⟩
  | @link q op b₁ q₁ links last c₁ c₂ tried rest ih =>
    rintro t beside rfl clear
    obtain ⟨before, d, rfl, mem, hlink, here, replace⟩ := tried.replace refuses
    obtain ⟨hle, c', hc, last_tried⟩ := rest.end_tried
    have text := rule.texts op mem
    have right := ih here hlink
    -- Three rounds: the base, the operator with all that is behind it, and one that adds nothing.
    obtain ⟨w, run, shows, gains, -⟩ := rule.apply_of_rounds
      (beside_rounding notAssoc unblocked beside) (beside.blocked.trans unblocked) clear
      (.next (.first hbase) trivial
        (.next (.further ahead (replace _ _ _ right hle)) (show q < last by omega)
          (.stop (.again (by omega) (last_tried.refuse refuses) hbase)
            (show ¬ last < q by omega))))
    rw [show max c₀ (max (max before (max d c₂)) (max c' c₀)) = max c₀ (max (max before d) c₂) by
      omega] at gains
    exact ⟨w, run, shows, gains⟩

/-- Where the right sides of operators are the base, every round adds one link of the chain. -/
theorem climb_left {start q₀ c₀ : Nat} {b₀ : β} {Base : Nat → Option (β × Nat) → Nat → Prop}
    (texts : ∀ op ∈ ops, 0 < op.text.length)
    (once : ∀ pos a c, Base pos a c → Here pos a c) (hbase : Base start (some (b₀, q₀)) c₀)
    (chain : Chain input Base ops q links last c) (ahead : start ≤ q) (hle : q₀ ≤ q) :
    Climb (OperatorRound input Here Base ops combine start) (some (b, q))
      (some (nestLeft combine b links, last)) (max c c₀) := by
  -- A round for each link, and one that finds no operator and comes to the base, behind the seed.
  induction chain generalizing b with
  | stop tried =>
    exact .stop (.again ahead (tried.refuse fun pos c => once pos none c) hbase) (Nat.not_lt.2 hle)
  | @link q op b₁ q₁ links last c₁ c₂ tried rest ih =>
    obtain ⟨before, d, rfl, mem, hlink, here, replace⟩ :=
      tried.replace fun pos c => once pos none c
    have text := texts op mem
    rw [Nat.max_assoc]
    exact .next (.further ahead (replace _ _ _ (once _ _ _ here) (Nat.le_refl _)))
      (show q < q₁ by omega) (ih (by omega) (by omega))

/-- **The chain, nested to the left.**  A rule that associates to the left takes an operand and the
chain behind it: every round adds one operator, whose right side is the base. -/
theorem OperatorRule.left_of_chain (rule : OperatorRule V g r inner recs base ops combine)
    (blocked : s₀.blocked.contains r = true)
    (beside : Beside r (Operator.Labels ops) s₀ (rounding g r t)) (unblocked : t.blocked = [])
    (clear : Clear r t.pos t)
    (chain : Chain input (BaseComes V g input r ops base s₀) ops q links last c) {b : β} {c₀ : Nat}
    (hbase : BaseComes V g input r ops base s₀ t.pos (some (b, q)) c₀) (ahead : t.pos ≤ q) :
    Comes V g input (.whole (.apply r)) t (some (nestLeft combine b links, last)) (max c₀ c) := by
  obtain ⟨w, run, shows, gains, -⟩ := rule.apply_of_rounds beside unblocked clear
    (.next (.first hbase) trivial
      (climb_left rule.texts (fun _ _ _ => rule.once blocked) hbase chain ahead (Nat.le_refl q)))
  rw [show max c₀ (max c c₀) = max c₀ c by omega] at gains
  exact ⟨w, run, shows, gains⟩

end Rule

end Match

end Pegboard
