import Mathlib.Data.List.Permutation
import Pegboard.Proofs.Match.Bounds
import Pegboard.Proofs.Match.Operators

/-!
# Associativity of binary operators

The rule

    r = r:a op1 r:b -> [a, op1, b] | ... | r:a opk r:b -> [a, opk, b] | base

reads operands of the rule `base` with operators between them.  Which operands and operators it
reads does not depend on how it associates: behind every operand it takes the first operator that
stands there and has another operand behind it.  What depends on it is the tree that the rule gives,
which is nested to the right, or to the left if the rule is declared to associate to the left.

## Main Definitions

* `binaryBody`: the body of such a rule.
* `Greedy`: the operators and operands behind an operand.
* `OperatorAnswer`: what such a rule comes to.

## Main Results

* `apply_iff_operatorAnswer`: the rule comes to that, in both cases.
* `apply_ne_operatorAnswer_of_stray`: why its base must come to no left-recursive body of the rule.
-/

namespace Pegboard.Match

/-! ## The rule -/

/-- The terms `rule:a text rule:b -> [a, text, b]`. -/
def binaryTerms (rule text : String) : List Pattern :=
  [.label (.apply rule) "a", .lit text, .label (.apply rule) "b",
    .action (.arr [.var "a", .str text, .var "b"])]

/-- The body of a rule with such an alternative for each of some texts, and another rule behind
them. -/
def binaryBody (rule : String) (texts : List String) (base : String) : Pattern :=
  .choice (texts.map (fun text => .seq (binaryTerms rule text)) ++ [.seq [.apply base]])

/-- The body in the normalized grammar, without the wrapper of left recursion. -/
def binaryAlternatives (rule : String) (texts : List String) (base : String) : List Pattern :=
  texts.map (fun text => .scope rule (binaryTerms rule text)) ++ [.apply base]

variable {g : Grammar} {input : Array Char} {r base : String} {texts : List String}

/-- A pass over the alternatives for some texts and one behind them. -/
theorem rebuild_alternatives {f : Pattern → Pattern} {term : String → Pattern} {last : Pattern}
    (term' : String → Pattern) (last' : Pattern)
    (terms : ∀ text, (term text).rebuild f = term' text) (behind : last.rebuild f = last') :
    (Pattern.choice (texts.map term ++ [last])).rebuild f
      = f (.choice (texts.map term' ++ [last'])) := by
  rw [Pattern.rebuild, Pattern.rebuildAll_eq_map, List.map_append, List.map_map,
    List.map_singleton, behind]
  exact congrArg (fun alts => f (.choice (alts ++ [last'])))
    (List.map_congr_left fun text _ => terms text)

theorem insertScopes_binaryBody (r base : String) (texts : List String) :
    (binaryBody r texts base).insertScopes r = .choice (texts.map
      (fun text => .scope r (binaryTerms r text)) ++ [.seq [.apply base]]) := by
  rw [Pattern.insertScopes, binaryBody, rebuild_alternatives
    (fun text => .scope r (binaryTerms r text)) (.seq [.apply base])
    (fun text => by cbv) (by cbv)]
  rw [Pattern.scopeNode, List.map_append, List.map_map, List.map_singleton]
  rfl

/-- The passes behind the scopes leave the operators as they are. -/
theorem finish_binaryBody (r base : String) (h : texts ≠ []) :
    ((Pattern.leftrec (.choice (texts.map (fun text => .scope r (binaryTerms r text)) ++
      [.seq [.apply base]])) r).insertPositional r).simplify
      = .leftrec (.choice (binaryAlternatives r texts base)) r := by
  have labelled : (Pattern.choice (texts.map (fun text => .scope r (binaryTerms r text)) ++
      [.seq [.apply base]])).rebuild (Pattern.positionalNode r) = _ :=
    rebuild_alternatives (fun text => .scope r (binaryTerms r text)) (.seq [.apply base])
      (fun text => by cbv) (by cbv)
  have simple : (Pattern.choice (texts.map (fun text => .scope r (binaryTerms r text)) ++
      [.seq [.apply base]])).rebuild Pattern.simplifyNode = _ :=
    rebuild_alternatives (fun text => .scope r (binaryTerms r text)) (.apply base)
      (fun text => by cbv) (by cbv)
  show Pattern.leftrec (Pattern.rebuild Pattern.simplifyNode (Pattern.rebuild _ _)) r = _
  rw [labelled]
  show Pattern.leftrec (Pattern.rebuild Pattern.simplifyNode (.choice _)) r = _
  rw [simple]
  obtain ⟨text, texts, rfl⟩ := List.exists_cons_of_ne_nil h
  cases texts <;> rfl

/-- The rule is left-recursive. -/
theorem normalize_binaryBody {rs : RuleSet} {assoc : List String}
    (written : Bodies.body? rs.definitions r = some (binaryBody r texts base)) (h : texts ≠ [])
    (normalized : rs.normalize ⟨false, assoc⟩ = .ok g) :
    g.body? r = some (.leftrec (.choice (binaryAlternatives r texts base)) r) := by
  obtain ⟨-, -, rfl⟩ := RuleSet.normalize_eq_ok.1 normalized
  have inScope : rs.scopedBodies.body? r = some (.choice (texts.map
      (fun text => .scope r (binaryTerms r text)) ++ [.seq [.apply base]])) := by
    rw [RuleSet.scopedBodies, Bodies.body?_mapBodies, written, Option.map_some,
      insertScopes_binaryBody]
  have recursive : r ∈ rs.scopedBodies.leftRecursive := by
    refine Bodies.mem_leftRecursive (Bodies.mem_of_body? inScope) ?_
    obtain ⟨text, texts, rfl⟩ := List.exists_cons_of_ne_nil h
    rw [Bodies.isLeftRecursive, Bodies.leads]
    simp [binaryTerms, Pattern.leads, Pattern.leadsAny, Pattern.leadsFirst]
  show rs.finished.body? r = _
  rw [RuleSet.finished, Bodies.body?_mapBodies, inScope, Option.map_some, Bodies.finishBody,
    Bodies.wrapLeftRecursive, if_pos (List.contains_iff_mem.2 recursive),
    finish_binaryBody r base h]

/-! ## What the rule should come to -/

/-- What a rule comes to at an offset with some bindings, nothing else going on. -/
def AnswersIn (g : Grammar) (input : Array Char) (rule : String) (scopes : Scopes) (pos : Nat)
    (a : Option (Value × Nat)) : Prop :=
  ∃ n w, eval g input n (.apply rule) { MatchState.initial with pos := pos, scopes := scopes }
    = some w ∧ w.answer = a

/-- What a rule comes to at an offset if nothing is bound. -/
def AnswersAt (g : Grammar) (input : Array Char) (rule : String) (pos : Nat)
    (a : Option (Value × Nat)) : Prop :=
  AnswersIn g input rule .base pos a

/-- Behind an operand that ends at `q`, the operators and operands as long as there are more: each
time the first of the texts is taken that stands there with an operand behind it.  `Operand` says
what the operand at an offset is. -/
inductive Greedy (input : Array Char) (Operand : Nat → Option (Value × Nat) → Prop)
    (texts : List String) : Nat → List (String × Value) → Nat → Prop where
  | stop {q} (refused : ∀ text ∈ texts, Stands input text q → Operand (q + text.length) none) :
      Greedy input Operand texts q [] q
  | link {q before text after b q' links last} (split : texts = before ++ text :: after)
      (refused : ∀ other ∈ before, Stands input other q → Operand (q + other.length) none)
      (stands : Stands input text q) (operand : Operand (q + text.length) (some (b, q')))
      (rest : Greedy input Operand texts q' links last) :
      Greedy input Operand texts q ((text, b) :: links) last

/-- The value `[left, text, right]` of an operator. -/
def node (text : String) (left right : Value) : Value := .seq [left, .str text, right]

/-- What a rule of binary operators should come to at an offset: a failure if there is no operand,
and otherwise the tree of the first operand and the operators and operands behind it. -/
inductive OperatorAnswer (input : Array Char) (Operand : Nat → Option (Value × Nat) → Prop)
    (texts : List String) (tree : Value → List (String × Value) → Value) (start : Nat) :
    Option (Value × Nat) → Prop where
  | fails (h : Operand start none) : OperatorAnswer input Operand texts tree start none
  | reads {b q links last} (h : Operand start (some (b, q)))
      (chain : Greedy input Operand texts q links last) :
      OperatorAnswer input Operand texts tree start (some (tree b links, last))

theorem AnswersIn.unique {rule : String} {scopes : Scopes} {pos : Nat} {a b : Option (Value × Nat)}
    (ha : AnswersIn g input rule scopes pos a) (hb : AnswersIn g input rule scopes pos b) :
    a = b := by
  obtain ⟨n, v, hv, rfl⟩ := ha
  obtain ⟨m, w, hw, rfl⟩ := hb
  rw [(run_of_eval hv).unique (run_of_eval hw)]

/-- An operand does not go back, and it does not go past the end of the input. -/
theorem AnswersAt.bounds {rule : String} {pos q : Nat} {b : Value}
    (h : AnswersAt g input rule pos (some (b, q))) (hpos : pos ≤ input.size) :
    pos ≤ q ∧ q ≤ input.size := by
  obtain ⟨n, w, hw, answer⟩ := h
  have run := run_of_eval hw
  have hq : w.pos = q := congrArg Outcome.pos (answer_eq_some.1 answer)
  have placed : Placed (fun _ => True) { MatchState.initial with pos := pos } :=
    (placed_initial _).of_tables rfl rfl
  have advanced := run.advances g.bodies.emptyClosed_univ ⟨placed, all_wrapClosed _, trivial⟩
  have inside := run.inside trivial ((inside_initial input).move hpos rfl rfl)
  exact ⟨hq ▸ advanced.ahead, hq ▸ inside.pos⟩

/-- Behind every operand there is a greedy sequence, for every operator is a text that is not
empty. -/
theorem exists_greedy {Operand : Nat → Option (Value × Nat) → Prop}
    (nonempty : ∀ text ∈ texts, text ≠ "")
    (ends : ∀ pos ≤ input.size, ∃ a, Operand pos a)
    (bounds : ∀ {pos q b}, Operand pos (some (b, q)) → pos ≤ input.size → pos ≤ q ∧ q ≤ input.size)
    {q : Nat} (hq : q ≤ input.size) : ∃ links last, Greedy input Operand texts q links last := by
  induction hn : input.size - q using Nat.strongRecOn generalizing q with
  | ind n ih =>
    -- The first text that is not refused, if there is one.
    have search (after : List String) : ∀ before, texts = before ++ after →
        (∀ other ∈ before, Stands input other q → Operand (q + other.length) none) →
        ∃ links last, Greedy input Operand texts q links last := by
      induction after with
      | nil =>
        intro before split refused
        rw [List.append_nil] at split
        exact ⟨[], q, .stop (split ▸ refused)⟩
      | cons text after search =>
        intro before split refused
        have next (h : Stands input text q → Operand (q + text.length) none) :
            ∃ links last, Greedy input Operand texts q links last := by
          refine search (before ++ [text]) (by rw [split, List.append_assoc]; rfl)
            fun other hother => ?_
          rcases List.mem_append.1 hother with hother | hother
          · exact refused other hother
          · exact List.mem_singleton.1 hother ▸ h
        by_cases stands : Stands input text q
        · obtain ⟨a, ha⟩ := ends (q + text.length) (stands.le_size hq)
          cases a with
          | none => exact next fun _ => ha
          | some a =>
            obtain ⟨b, q'⟩ := a
            obtain ⟨hle, hsize⟩ := bounds ha (stands.le_size hq)
            have text_pos := length_pos_of_ne (nonempty text (by simp [split]))
            obtain ⟨links, last, rest⟩ := ih (input.size - q') (by omega) hsize rfl
            exact ⟨_, _, .link split refused stands ha rest⟩
        · exact next fun h => absurd h stands
    exact search texts [] rfl nofun

/-! ## The rule as one of operators -/

/-- The operator of a text. -/
def binary (text : String) : Operator :=
  ⟨["a"], text, ["b"], some (.arr [.var "a", .str text, .var "b"])⟩

theorem operator?_binary (rule text : String) :
    (Pattern.scope rule (binaryTerms rule text)).operator? rule = some (binary text) := by
  simp [Pattern.operator?, Pattern.terms?, binaryTerms, Pattern.operatorTerms?, Pattern.operand?,
    binary]

/-- An operator has the value of its node. -/
theorem binary_makes (text : String) : (binary text).Makes View.plain (node text) := by
  rintro _ _ left right scopes rfl rfl bound
  have ha : scopes.lookup? "a" = some left := bound.left "a" (by simp [binary]) (by simp [binary])
  have hb : scopes.lookup? "b" = some right := bound.right "b" (by simp [binary])
  refine ⟨node text left right, ?_, rfl⟩
  simp [Operator.value, binary, Expr.eval, Expr.evalAll, Scopes.variable, ha, hb, node, pure,
    Except.pure, bind, Except.bind]

/-- What is known of a rule of binary operators and of its base: the base never comes to the
left-recursive body of the rule, and reads none of the labels. -/
structure BinaryRule (g : Grammar) (input : Array Char) (r : String) (texts : List String)
    (base : String) : Prop where
  closed : ∀ b ∈ g.bodies, b.2.Closed
  memoless : ∀ b ∈ g.bodies, b.2.Everywhere Pattern.NotMemo
  found : g.body? r = some (.leftrec (.choice (binaryAlternatives r texts base)) r)
  nonempty : ∀ text ∈ texts, text ≠ ""
  apart : ∀ s inner u, ¬ Reaches g input (.whole (.apply base)) s (.whole (.leftrec inner r)) u
  blind : ∀ scopes pos a, (∀ name, name ≠ "a" → name ≠ "b" → scopes.lookup? name = none) →
    (AnswersIn g input base scopes pos a ↔ AnswersAt g input base pos a)

theorem BinaryRule.operatorRule (rule : BinaryRule g input r texts base) :
    OperatorRule View.plain g r (.choice (binaryAlternatives r texts base))
      (texts.map fun text => .scope r (binaryTerms r text)) [.apply base] (texts.map binary)
      (fun op => node op.text) := by
  refine ⟨rule.closed, rule.memoless, rule.found, .inl ⟨rfl, by simp⟩, ?_, fun op hop => ?_,
    fun op hop => ?_⟩
  · simp [operator?_binary]
  · obtain ⟨text, htext, rfl⟩ := List.mem_map.1 hop
    exact length_pos_of_ne (rule.nonempty text htext)
  · obtain ⟨text, -, rfl⟩ := List.mem_map.1 hop
    exact binary_makes text

/-- Where another rule is blocked, a rule comes to the same as where none is. -/
theorem exists_run_of_unblocked {name : String} (hname : name ≠ r) {t w : MatchState}
    (blocked : t.blocked = [] ∨ t.blocked = [r])
    (run : Run g input (.whole (.apply name)) { t with blocked := [] } w) :
    ∃ v, Run g input (.whole (.apply name)) t v ∧ v.outcome = w.outcome := by
  rcases blocked with blocked | blocked
  · rw [← blocked] at run
    exact ⟨w, run, rfl⟩
  · -- Entering another rule clears the blocked ones, and leaving it puts them back.
    cases run with
    | atom h =>
      obtain ⟨outcome, failure, effect, -⟩ := atom?_effect h
      refine ⟨t.after outcome failure, .atom (effect t rfl fun _ _ => rfl), ?_⟩
      rw [effect _ rfl fun _ _ => rfl, Option.some.injEq] at h
      rw [← h]
      rfl
    | @rule _ body _ v found run =>
      have entered : t.entering name = { t with blocked := [] } := by
        rw [MatchState.entering, blocked]
        simp [hname]
      refine ⟨t.leaving name v, .rule found (entered ▸ run), ?_⟩
      obtain ⟨_, h⟩ := t.leaving_eq name v
      obtain ⟨_, h'⟩ := MatchState.leaving_eq { t with blocked := [] } name v
      rw [h, h']
      rfl

/-- A state in which nothing is recorded, and no rule blocked but perhaps `r`. -/
structure Fresh (r : String) (s : MatchState) : Prop where
  blocked : s.blocked = [] ∨ s.blocked = [r]
  memo : s.memo = []
  seeds : s.seeds = []
  scopes : s.scopes = .base

/-- What the base comes to alone it comes to from every state that the operators lead to. -/
theorem BinaryRule.base_comes (rule : BinaryRule g input r texts base) {s₀ : MatchState}
    (fresh : Fresh r s₀) {pos : Nat} {a : Option (Value × Nat)}
    (h : AnswersAt g input base pos a) (c : Nat) :
    BaseComes View.plain g input r (texts.map binary) [.apply base] s₀ pos a c := by
  rintro t beside rfl -
  have named (name : String) (ha : name ≠ "a") (hb : name ≠ "b") :
      t.scopes.lookup? name = none := by
    rw [beside.lookup name, fresh.scopes]
    · rfl
    · rintro ⟨op, hop, hname⟩
      obtain ⟨text, -, rfl⟩ := List.mem_map.1 hop
      simp [binary, ha, hb] at hname
  have hname : base ≠ r := by
    rintro rfl
    exact rule.apart t _ _ (.step (.rule rule.found) .refl)
  obtain ⟨n, w, hw, answer⟩ := (rule.blind _ _ a named).2 h
  have alike : Alike (·.1 ≠ r) (fun _ => True)
      { MatchState.initial with pos := t.pos, scopes := t.scopes } { t with blocked := [] } := by
    refine ⟨rfl, rfl, beside.memo.trans fresh.memo, fun key hkey => ?_, fun _ _ => rfl⟩
    show t.seeds.get? key = Table.get? [] key
    rw [beside.seeds key hkey, fresh.seeds]
  have sees : Sees g input (·.1 ≠ r) (.whole (.apply base)) { t with blocked := [] } := by
    rintro inner _ v h rfl
    exact rule.apart _ inner v h
  have agrees : (Task.whole (.apply base)).Agrees (·.1 ≠ r)
      { MatchState.initial with pos := t.pos, scopes := t.scopes } { t with blocked := [] } :=
    trivial
  -- The seeds of `r` are all that differs from the state in which nothing goes on.
  obtain ⟨w', run, answer'⟩ := (exists_run_congr alike agrees sees (answer_congr a)).1
    ⟨w, run_of_eval hw, answer⟩
  obtain ⟨v, run, outcome⟩ :=
    exists_run_of_unblocked hname (beside.blocked ▸ fresh.blocked) run
  refine ⟨v, .altsLast run, View.plain_shows.2 ?_, False.elim⟩
  rw [outcome]
  exact answer'

/-! ## The greedy sequence as a chain -/

variable {Operand : Nat → Option (Value × Nat) → Prop}
variable {Here : Nat → Option (Value × Nat) → Nat → Prop} {q : Nat}

/-- What is tried for the texts behind some that are refused is tried for all. -/
theorem tried_append (here : ∀ pos a, Operand pos a → Here pos a 0) (before after : List String)
    {res : Option (Operator × Value × Nat)} {c : Nat}
    (refused : ∀ text ∈ before, Stands input text q → Operand (q + text.length) none)
    (tried : Tried input Here q (after.map binary) res c) :
    ∃ c, Tried input Here q ((before ++ after).map binary) res c := by
  induction before with
  | nil => exact ⟨c, tried⟩
  | cons text before ih =>
    obtain ⟨c, tried⟩ := ih fun other hother => refused other (.tail _ hother)
    by_cases stands : Stands input text q
    · exact ⟨_, .refused stands (here _ _ (refused text (.head _) stands)) tried⟩
    · obtain ⟨miss, hmiss⟩ := literal_of_not_stands stands
      exact ⟨_, .missed hmiss tried⟩

/-- A greedy sequence is a chain. -/
theorem Greedy.chain (here : ∀ pos a, Operand pos a → Here pos a 0)
    (bounds : ∀ {pos q b}, Operand pos (some (b, q)) → pos ≤ input.size → pos ≤ q ∧ q ≤ input.size)
    {links : List (String × Value)} {last : Nat} (hq : q ≤ input.size)
    (greedy : Greedy input Operand texts q links last) :
    ∃ c, Chain input Here (texts.map binary) q (links.map fun l => (binary l.1, l.2)) last c := by
  induction greedy with
  | stop refused =>
    obtain ⟨c, tried⟩ := tried_append here texts [] refused .nothing
    rw [List.append_nil] at tried
    exact ⟨c, .stop tried⟩
  | @link q before text after b q' links last split refused stands operand _ ih =>
    obtain ⟨ahead, hsize⟩ := bounds operand (stands.le_size hq)
    have taken : Tried input Here q ((text :: after).map binary) (some (binary text, b, q')) 0 :=
      .taken stands (here _ _ operand) ahead
    obtain ⟨c, tried⟩ := tried_append here before _ refused taken
    obtain ⟨c', rest⟩ := ih hsize
    rw [← split] at tried
    exact ⟨_, .link tried rest⟩

/-! ## The rule and the tree -/

/-- The tree that a rule gives, by whether it associates to the left. -/
def operatorTree (left : Bool) : Value → List (String × Value) → Value :=
  if left then nestLeft node else nestRight node

theorem nestRight_binary (b : Value) (links : List (String × Value)) :
    nestRight (fun op : Operator => node op.text) b (links.map fun l => (binary l.1, l.2))
      = nestRight node b links := by
  induction links generalizing b with
  | nil => rfl
  | cons link links ih => exact congrArg (node link.1 b) (ih link.2)

theorem nestLeft_binary (b : Value) (links : List (String × Value)) :
    nestLeft (fun op : Operator => node op.text) b (links.map fun l => (binary l.1, l.2))
      = nestLeft node b links :=
  List.foldl_map

/-- The rule comes to what it should. -/
theorem BinaryRule.answers (rule : BinaryRule g input r texts base) {start : Nat}
    (hstart : start ≤ input.size) {a : Option (Value × Nat)}
    (h : OperatorAnswer input (AnswersAt g input base) texts (operatorTree (g.isLeftAssoc r))
      start a) : AnswersAt g input r start a := by
  let t : MatchState := { MatchState.initial with pos := start }
  have fresh : Fresh r (rounding g r t) := by
    refine ⟨?_, rfl, rfl, rfl⟩
    rw [rounding]
    cases g.isLeftAssoc r
    · exact .inl rfl
    · exact .inr rfl
  have clear : Clear r t.pos t := fun _ _ => rfl
  suffices comes : Comes View.plain g input (.whole (.apply r)) t a 0 by
    obtain ⟨w, run, shows, -⟩ := comes
    obtain ⟨n, hn⟩ := run_iff_eval.1 run
    exact ⟨n, w, hn, View.plain_shows.1 shows⟩
  have here (pos : Nat) (a : Option (Value × Nat)) (h : AnswersAt g input base pos a) :
      BaseComes View.plain g input r (texts.map binary) [.apply base] (rounding g r t) pos a 0 :=
    rule.base_comes fresh h 0
  cases h with
  | fails h =>
    obtain ⟨w, run, shows, -⟩ :=
      rule.operatorRule.fails (Beside.refl _ _ _) rfl clear (here _ _ h)
    exact ⟨w, run, shows, False.elim⟩
  | @reads b q links last h greedy =>
    obtain ⟨ahead, hsize⟩ := h.bounds hstart
    obtain ⟨c, chain⟩ := greedy.chain here AnswersAt.bounds hsize
    cases hassoc : g.isLeftAssoc r with
    | false =>
      have unblocked : (rounding g r t).blocked = [] := by rw [rounding, hassoc]; rfl
      have same : rounding g r t = t := by rw [rounding, hassoc]; rfl
      obtain ⟨w, run, shows, -⟩ := rule.operatorRule.right_of_chain hassoc unblocked chain
        (here _ _ h) ahead t (by rw [same]; exact Beside.refl _ _ _) rfl clear
      rw [nestRight_binary] at shows
      exact ⟨w, run, shows, False.elim⟩
    | true =>
      have blocked : (rounding g r t).blocked.contains r = true := by
        rw [rounding, hassoc]
        simp
      obtain ⟨w, run, shows, -⟩ := rule.operatorRule.left_of_chain blocked (Beside.refl _ _ _) rfl
        clear chain (here _ _ h) ahead
      rw [nestLeft_binary] at shows
      exact ⟨w, run, shows, False.elim⟩

/-- **Binary operators associate.**  A rule of binary operators, whose base never comes to the
left-recursive body of the rule, reads no label and ends at every offset, ends at every offset as
well.  It fails exactly if there is no operand; otherwise it takes the first operand and the greedy
sequence of operators and operands behind it, and gives their tree, which is nested to the right, or
to the left if the rule is declared to associate to the left. -/
theorem apply_iff_operatorAnswer {rs : RuleSet} {assoc : List String}
    (written : Bodies.body? rs.definitions r = some (binaryBody r texts base))
    (htexts : texts ≠ []) (nonempty : ∀ text ∈ texts, text ≠ "")
    (normalized : rs.normalize ⟨false, assoc⟩ = .ok g)
    (memoless : ∀ b ∈ g.bodies, b.2.Everywhere Pattern.NotMemo)
    (apart : ∀ s inner u, ¬ Reaches g input (.whole (.apply base)) s (.whole (.leftrec inner r)) u)
    (blind : ∀ scopes pos a, (∀ name, name ≠ "a" → name ≠ "b" → scopes.lookup? name = none) →
      (AnswersIn g input base scopes pos a ↔ AnswersAt g input base pos a))
    (ends : ∀ pos ≤ input.size, ∃ a, AnswersAt g input base pos a) {start : Nat}
    (hstart : start ≤ input.size) :
    (∃ a, AnswersAt g input r start a) ∧ ∀ a, AnswersAt g input r start a ↔
      OperatorAnswer input (AnswersAt g input base) texts (operatorTree (assoc.contains r))
        start a := by
  have rule : BinaryRule g input r texts base :=
    ⟨rs.closed_of_normalize normalized, memoless, normalize_binaryBody written htexts normalized,
      nonempty, apart, blind⟩
  have hassoc : g.isLeftAssoc r = assoc.contains r := by
    obtain ⟨-, -, rfl⟩ := RuleSet.normalize_eq_ok.1 normalized
    rfl
  have answers {a : Option (Value × Nat)} (h : OperatorAnswer input (AnswersAt g input base) texts
      (operatorTree (assoc.contains r)) start a) : AnswersAt g input r start a :=
    rule.answers hstart (hassoc ▸ h)
  have exists_answer : ∃ a, OperatorAnswer input (AnswersAt g input base) texts
      (operatorTree (assoc.contains r)) start a := by
    obtain ⟨a, h⟩ := ends start hstart
    cases a with
    | none => exact ⟨none, .fails h⟩
    | some a =>
      obtain ⟨b, q⟩ := a
      obtain ⟨links, last, greedy⟩ := exists_greedy nonempty ends AnswersAt.bounds
        (AnswersAt.bounds h hstart).2
      exact ⟨_, .reads h greedy⟩
  obtain ⟨b, hb⟩ := exists_answer
  refine ⟨⟨b, answers hb⟩, fun a => ⟨fun h => ?_, answers⟩⟩
  rw [AnswersIn.unique h (answers hb)]
  exact hb

/-- A rule reads no label if it applies only rules, itself among them, that look up only other names
or names that they have bound themselves. -/
theorem answersIn_iff_of_knows {callee : String → Prop}
    (rules : ∀ name body, callee name → g.body? name = some body →
      body.Knows callee fun name => name ≠ "a" ∧ name ≠ "b")
    (hbase : callee base) {scopes : Scopes}
    (named : ∀ name, name ≠ "a" → name ≠ "b" → scopes.lookup? name = none) (pos : Nat)
    (a : Option (Value × Nat)) :
    AnswersIn g input base scopes pos a ↔ AnswersAt g input base pos a := by
  have moves {scopes scopes' : Scopes}
      (same : ∀ name, name ≠ "a" ∧ name ≠ "b" → scopes'.lookup? name = scopes.lookup? name)
      (h : AnswersIn g input base scopes pos a) : AnswersIn g input base scopes' pos a := by
    obtain ⟨n, w, hw, answer⟩ := h
    have alike : Alike (fun _ => True) (fun name => name ≠ "a" ∧ name ≠ "b")
        { MatchState.initial with pos := pos, scopes := scopes }
        { MatchState.initial with pos := pos, scopes := scopes' } :=
      ⟨rfl, rfl, rfl, fun _ _ => rfl, same⟩
    obtain ⟨w', run, mirror⟩ := (run_of_eval hw).mirrored rules (fun _ h => h) hbase alike trivial
      fun _ _ _ _ => trivial
    obtain ⟨m, hm⟩ := run_iff_eval.1 run
    exact ⟨m, w', hm, (answer_congr a w' w mirror.outcome).2 answer⟩
  exact ⟨moves fun name h => (named name h.1 h.2).symm, moves fun name h => named name h.1 h.2⟩

/-! ## Sums of digits -/

/-- The rules `e = e:a '+' e:b -> [a, '+', b] | e:a '-' e:b -> [a, '-', b] | n` and `n = digit`. -/
def digitSums : RuleSet :=
  .ofDefinitions [("e", binaryBody "e" ["+", "-"] "n"), ("n", .choice [.seq [.apply "digit"]])]

/-- The grammar of these rules. -/
def digitSumsGrammar (assoc : List String) : Grammar :=
  ⟨[("e", .leftrec (.choice (binaryAlternatives "e" ["+", "-"] "n")) "e"), ("n", .apply "digit")],
    assoc⟩

section DigitSums

variable {assoc : List String}

/-- The operands apply no rule but the one of digits. -/
theorem digitSums_apart (s : MatchState) (inner : Pattern) (u : MatchState) :
    ¬ Reaches (digitSumsGrammar assoc) input (.whole (.apply "n")) s
      (.whole (.leftrec inner "e")) u := by
  intro h
  have all : All (fun q => q = .apply "n" ∨ q = .apply "digit") [.apply "n"] := by
    simp [All, Pattern.Everywhere, Pattern.nodes]
  refine absurd (h.all (fun name body hname found => ?_) all).here (by simp)
  rcases hname with hname | hname <;> cases hname <;> cases found
  simp [Pattern.Everywhere, Pattern.nodes]

theorem digitSums_knows (name : String) (body : Pattern) (hname : name = "n" ∨ name = "digit")
    (found : (digitSumsGrammar assoc).body? name = some body) :
    body.Knows (fun name => name = "n" ∨ name = "digit") fun name => name ≠ "a" ∧ name ≠ "b" := by
  rcases hname with rfl | rfl <;> cases found
  exact .inr rfl

/-- An operand is decided by the character at its offset. -/
theorem digitSums_operand (pos : Nat) : AnswersAt (digitSumsGrammar assoc) input "n" pos
    (builtin input .digit { MatchState.initial with pos := pos }).answer :=
  ⟨3, _, rfl, rfl⟩

end DigitSums

/-- The rule reads the whole of `1+2-3`, and it gives the tree that it should in both cases. -/
theorem apply_iff_operatorAnswer_digitSums :
    digitSums.normalize ⟨false, []⟩ = .ok (digitSumsGrammar []) ∧
      digitSums.normalize ⟨false, ["e"]⟩ = .ok (digitSumsGrammar ["e"]) ∧
      AnswersAt (digitSumsGrammar []) #['1', '+', '2', '-', '3'] "e" 0
        (some (node "+" (.str "1") (node "-" (.str "2") (.str "3")), 5)) ∧
      AnswersAt (digitSumsGrammar ["e"]) #['1', '+', '2', '-', '3'] "e" 0
        (some (node "-" (node "+" (.str "1") (.str "2")) (.str "3"), 5)) := by
  have right : digitSums.normalize ⟨false, []⟩ = .ok (digitSumsGrammar []) := by cbv
  have left : digitSums.normalize ⟨false, ["e"]⟩ = .ok (digitSumsGrammar ["e"]) := by cbv
  have answers {assoc : List String}
      (normalized : digitSums.normalize ⟨false, assoc⟩ = .ok (digitSumsGrammar assoc)) :
      AnswersAt (digitSumsGrammar assoc) #['1', '+', '2', '-', '3'] "e" 0
        (some (operatorTree (assoc.contains "e") (.str "1") [("+", .str "2"), ("-", .str "3")],
          5)) := by
    have memoless : ∀ b ∈ (digitSumsGrammar assoc).bodies, b.2.Everywhere Pattern.NotMemo := by
      simp [digitSumsGrammar, binaryAlternatives, binaryTerms, Pattern.Everywhere, Pattern.nodes,
        Pattern.nodesAll, Pattern.NotMemo]
    refine ((apply_iff_operatorAnswer rfl (by simp) (by decide) normalized memoless digitSums_apart
      (fun _ pos a named => answersIn_iff_of_knows digitSums_knows (.inl rfl) named pos a)
      (fun pos _ => ⟨_, digitSums_operand pos⟩) (Nat.zero_le _)).2 _).2 ?_
    have stop : Greedy #['1', '+', '2', '-', '3']
        (AnswersAt (digitSumsGrammar assoc) #['1', '+', '2', '-', '3'] "n") ["+", "-"] 5 [] 5 := by
      refine .stop fun text htext stands => absurd stands ?_
      simp only [List.mem_cons, List.not_mem_nil, or_false] at htext
      rcases htext with rfl | rfl <;> decide
    have minus : Greedy #['1', '+', '2', '-', '3']
        (AnswersAt (digitSumsGrammar assoc) #['1', '+', '2', '-', '3'] "n") ["+", "-"] 3
        [("-", .str "3")] 5 := by
      refine .link (show ["+", "-"] = ["+"] ++ "-" :: [] from rfl) (fun other hother stands => ?_)
        (by decide) (digitSums_operand 4) stop
      rw [List.mem_singleton.1 hother] at stands
      exact absurd stands (by decide)
    exact .reads (digitSums_operand 0) (.link (show ["+", "-"] = [] ++ "+" :: ["-"] from rfl)
      (by simp) (by decide) (digitSums_operand 2) minus)
  exact ⟨right, left, answers right, answers left⟩

/-! ## A stray seed -/

/-- The rules `e = e:a '+' e:b -> [a, '+', b] | n` and `n`, whose body, in interchange form, is a
left-recursive body of `e`. -/
def straySums : RuleSet :=
  .ofDefinitions [("e", binaryBody "e" ["+"] "n"), ("n", .leftrec (.lit "x") "e")]

/-- The grammar of these rules. -/
def straySumsGrammar : Grammar :=
  ⟨[("e", .leftrec (.choice (binaryAlternatives "e" ["+"] "n")) "e"),
    ("n", .leftrec (.leftrec (.lit "x") "e") "n")], []⟩

/-- The operand consumes input whenever it matches, for it is a text. -/
theorem straySums_consumes {pos q : Nat} {b : Value}
    (h : AnswersAt straySumsGrammar #['x'] "n" pos (some (b, q))) : pos < q := by
  obtain ⟨n, w, hw, answer⟩ := h
  have hw' : w.outcome = ⟨b, false, q⟩ := answer_eq_some.1 answer
  have closed : straySumsGrammar.bodies.EmptyClosed (· = BuiltinRule.end.name) := by
    refine ⟨fun name body found h => ?_, ?_, fun _ => rfl⟩
    · have mem : (name, body) ∈ straySumsGrammar.bodies := Bodies.mem_of_body? found
      simp only [straySumsGrammar, List.mem_cons, List.not_mem_nil, or_false, Prod.mk.injEq] at mem
      rcases mem with ⟨rfl, rfl⟩ | ⟨rfl, rfl⟩ <;>
        simp [binaryAlternatives, binaryTerms, Pattern.nullable, Pattern.nullableAny,
          Pattern.nullableAll, BuiltinRule.name] at h
    · simp [straySumsGrammar, binaryAlternatives, binaryTerms, Pattern.Everywhere, Pattern.nodes,
        Pattern.nodesAll, Pattern.WrapClosed, Pattern.nullable, Pattern.nullableAny,
        Pattern.nullableAll, BuiltinRule.name]
  have placed : Placed (· = BuiltinRule.end.name) { MatchState.initial with pos := pos } :=
    (placed_initial _).of_tables rfl rfl
  have advanced := (run_of_eval hw).advances closed
    ⟨placed, by simp [All, Task.patterns, Pattern.Everywhere, Pattern.nodes, Pattern.WrapClosed],
      trivial⟩
  have ahead : pos ≤ w.pos := advanced.ahead
  have moved : w.pos ≠ pos := fun h =>
    absurd (advanced.still (congrArg Outcome.failed hw') h)
      (show ¬ "n" = BuiltinRule.end.name by decide)
  have hq : w.pos = q := congrArg Outcome.pos hw'
  omega

/-- The base must come to no left-recursive body of the rule.  That it does not apply the rule is
not enough: in interchange form a base may hold such a body itself, and then the seed of the rule
makes it fail, although it matches where there is no seed. -/
theorem apply_ne_operatorAnswer_of_stray :
    straySums.normalize ⟨false, []⟩ = .ok straySumsGrammar ∧
      (∀ b ∈ straySumsGrammar.bodies, b.2.Everywhere Pattern.NotMemo) ∧
      (∀ s u, ¬ Reaches straySumsGrammar #['x'] (.whole (.apply "n")) s
        (.whole (.apply "e")) u) ∧
      (∀ scopes pos a, (∀ name, name ≠ "a" → name ≠ "b" → scopes.lookup? name = none) →
        (AnswersIn straySumsGrammar #['x'] "n" scopes pos a ↔
          AnswersAt straySumsGrammar #['x'] "n" pos a)) ∧
      (∀ pos ≤ 1, ∃ a, AnswersAt straySumsGrammar #['x'] "n" pos a) ∧
      (∀ pos b q, AnswersAt straySumsGrammar #['x'] "n" pos (some (b, q)) → pos < q) ∧
      OperatorAnswer #['x'] (AnswersAt straySumsGrammar #['x'] "n") ["+"] (operatorTree false) 0
        (some (.str "x", 1)) ∧
      ¬ AnswersAt straySumsGrammar #['x'] "e" 0 (some (.str "x", 1)) := by
  have operand : AnswersAt straySumsGrammar #['x'] "n" 0 (some (.str "x", 1)) := ⟨8, _, rfl, rfl⟩
  have knows : ∀ name body, name = "n" → straySumsGrammar.body? name = some body →
      body.Knows (· = "n") fun name => name ≠ "a" ∧ name ≠ "b" := by
    rintro _ body rfl found
    cases found
    trivial
  refine ⟨by cbv, ?_, fun s u h => ?_,
    fun _ pos a named => answersIn_iff_of_knows knows rfl named pos a, ?_,
    fun _ _ _ => straySums_consumes, ?_, fun h => ?_⟩
  · simp [straySumsGrammar, binaryAlternatives, binaryTerms, Pattern.Everywhere, Pattern.nodes,
      Pattern.nodesAll, Pattern.NotMemo]
  · have all : All (fun q => ∀ name, q = .apply name → name = "n") [.apply "n"] := by
      simp [All, Pattern.Everywhere, Pattern.nodes]
    refine absurd ((h.all (fun name body hname found => ?_) all).here "e" rfl) (by simp)
    obtain rfl := hname name rfl
    cases found
    simp [Pattern.Everywhere, Pattern.nodes]
  · intro pos hpos
    rcases Nat.le_one_iff_eq_zero_or_eq_one.1 hpos with rfl | rfl
    · exact ⟨_, operand⟩
    · exact ⟨none, 8, _, rfl, rfl⟩
  · refine .reads operand (.stop fun text htext stands => absurd stands ?_)
    rw [List.mem_singleton.1 htext]
    decide
  · have fails : AnswersAt straySumsGrammar #['x'] "e" 0 none := ⟨10, _, rfl, rfl⟩
    cases AnswersIn.unique h fails

end Pegboard.Match
