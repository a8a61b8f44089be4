import Pegboard.Proofs.Match.Neutral
import Pegboard.Proofs.Normalize.Meaning

/-!
# Acceptance and associativity

To declare a rule of operators to associate to the left changes the values that it gives, but not
what is accepted, nor where a match ends.  That takes more than the form of its alternatives: the
operators must come before the others, those must apply the rule through other rules only, and
nothing may be decided by how the values are nested.  Four grammars show what happens otherwise.

## Main Results

* `run_ending_of_leftAssoc`: a match ends in the same way, however the rule associates.
* `consumes_of_leftPath`: when something is consumed before the rule is applied again.
* `accepts_apart`: grammars whose matches end apart.
-/

namespace Pegboard

/-- How a match ended: whether it succeeded, and at which offset. -/
def MatchResult.ending : MatchResult → Bool × Nat
  | .accepted _ pos => (true, pos)
  | .rejected _ pos => (false, pos)

/-- The expression of an operator cannot fail, whatever its sides come to. -/
def Operator.Total (op : Operator) : Prop :=
  ∀ scopes left right, op.Bound scopes left right → ∃ value, op.value scopes right = .ok value

/-- A rule that left calls lead on from makes one. -/
theorem Bodies.LeftPath.eq_or_call {bodies : Bodies} {a b : String} (path : bodies.LeftPath a b) :
    a = b ∨ ∃ c, bodies.LeftCall a c := by
  cases path with
  | refl => exact .inl rfl
  | step call _ => exact .inr ⟨_, call⟩

namespace Match

variable {v : Variation} {g g' : Grammar} {input : Array Char} {r : String} {inner : Pattern}
variable {recs base : List Pattern} {ops : List Operator} {s u : MatchState}

/-! ## Whole matches -/

/-- The end of a match is told by its last state, whatever the values and the causes of failure. -/
theorem finish_ending (failed : u.failed = s.failed) (hpos : u.pos = s.pos)
    (reach : u.reach = s.reach) (source source' : String) (input : Array Char) :
    (finish source' input u).ending = (finish source input s).ending := by
  unfold finish
  rw [failed]
  -- A failure is reported where the furthest attempt has failed.
  split
  · rw [MatchState.reach, MatchState.reach] at reach
    show (false, (u.furthest.getD ⟨u.pos, none⟩).pos) = (false, (s.furthest.getD ⟨s.pos, none⟩).pos)
    cases hs : s.furthest with
    | none =>
      cases hu : u.furthest with
      | none => simp [hpos]
      | some f => simp [hs, hu, Failure.reach] at reach
    | some f =>
      cases hu : u.furthest with
      | none => simp [hs, hu, Failure.reach] at reach
      | some f' => simpa [hs, hu, Failure.reach] using reach
  · show (true, u.pos) = (true, s.pos)
    rw [hpos]

/-- A whole match is an application of the starting rule. -/
theorem apply_of_final? {n : Nat} {body : Pattern} (found : g.body? g.start = some body)
    (h : final? g input n = some s) : Run g input (.whole (.apply g.start)) .initial s :=
  apply_of_body found rfl (run_of_final? found h)

/-- A match ends in the same way in every variant of the grammar. -/
theorem Neutral.final (neutral : Neutral v g input r inner recs base ops)
    (variant : Variant r g g') {n m : Nat} (h : final? g input n = some s)
    (h' : final? g' input m = some u) :
    u.failed = s.failed ∧ u.pos = s.pos ∧ u.reach = s.reach := by
  have start : g'.start = g.start := by rw [Grammar.start, variant.bodies, Grammar.start]
  cases found : g.body? g.start with
  | none =>
    rw [final?, found, Option.some.injEq] at h
    rw [final?, start, variant.body?, found, Option.some.injEq] at h'
    rw [← h, ← h']
    exact ⟨rfl, rfl, rfl⟩
  | some body =>
    -- A match starts without seeds and with no rule blocked, in a state that is parallel to itself.
    have run := apply_of_final? found h
    have run' : Run g' input (.whole (.apply g.start)) .initial u :=
      start ▸ apply_of_final? (by rw [start, variant.body?, found]) h'
    have clear : Clear r 0 .initial := fun _ _ => rfl
    have coherent : Coherent g .initial := coherent_start g 0
    have suited : Suited v g input r 0 (fun w => Coherent g w ∧ Inside input w)
        (.whole (.apply g.start)) .initial := by
      refine ⟨?_, by simp, .inl rfl, clear, fun w hw => ⟨Nat.zero_le _, hw.coherent coherent,
        hw.inside trivial (inside_initial input)⟩⟩
      have plain : PlainIn v r (.apply g.start) := ⟨trivial, fun _ heq => absurd heq (by simp), trivial⟩
      simpa [All, Task.patterns, Pattern.Everywhere, Pattern.nodes] using plain
    obtain ⟨c, hc, follow⟩ := run.followed neutral.oblivious
      (fun w w' at' run unblocked clear => neutral.answered at'.1 at'.2 unblocked clear run) suited
    obtain ⟨u', hu', reach, ended⟩ := follow g' _ True .initial variant (fun _ => id) trivial
      (.refl v clear) trivial
    obtain rfl := run'.unique hu'
    exact ⟨ended.failed, ended.parallel.pos, reach.trans hc.symm⟩

/-! ## Rules of a grammar text -/

section Text

variable {text : String} {rs : RuleSet} {leftAssoc : List String}

/-- In a grammar from text, nothing but the whole body of a rule is wrapped. -/
theorem plain_of_text (parsed : parseGrammar text = .ok rs)
    (normalized : rs.normalize ⟨false, leftAssoc⟩ = .ok g) {b : String × Pattern}
    (hb : b ∈ g.bodies) :
    ∃ inner, inner.Everywhere Pattern.PlainNode ∧ (b.2 = inner ∨ b.2 = .leftrec inner b.1) := by
  obtain ⟨inner, plain, hbody⟩ :=
    RuleSet.plain_of_normalize (authored_of_parseGrammar parsed) normalized hb
  refine ⟨inner, plain, ?_⟩
  rw [hbody, Bodies.wrapLeftRecursive]
  split
  · exact .inr rfl
  · exact .inl rfl

/-- Inside the wrapper of a rule all nodes are plain. -/
theorem inner_of_text (parsed : parseGrammar text = .ok rs)
    (normalized : rs.normalize ⟨false, leftAssoc⟩ = .ok g)
    (found : g.body? r = some (.leftrec inner r)) : All Pattern.PlainNode [inner] := by
  obtain ⟨inner', plain, hbody | hbody⟩ :=
    plain_of_text parsed normalized (Bodies.mem_of_body? found)
  · rw [← hbody] at plain
    exact (Pattern.everywhere_iff.1 plain).1.elim
  · cases hbody
    exact List.forall_mem_singleton.2 plain

/-- What is so of plain nodes and of the wrapper of a rule is so of all nodes of its body. -/
theorem everywhere_of_text (parsed : parseGrammar text = .ok rs)
    (normalized : rs.normalize ⟨false, leftAssoc⟩ = .ok g) {b : String × Pattern}
    (hb : b ∈ g.bodies) {P : Pattern → Prop} (plain : ∀ p : Pattern, p.PlainNode → P p)
    (wrapper : ∀ inner, P (.leftrec inner b.1)) : b.2.Everywhere P := by
  obtain ⟨inner, all, hbody | hbody⟩ := plain_of_text parsed normalized hb
  · rw [hbody]
    exact fun q hq => plain q (all q hq)
  · rw [hbody, Pattern.everywhere_iff]
    refine ⟨wrapper inner, fun p hp q hq => plain q (all q ?_)⟩
    rwa [List.mem_singleton.1 hp] at hq

theorem notBodyOf_of_plain (p : Pattern) (h : p.PlainNode) : NotBodyOf r p := by
  rintro inner rfl
  exact h

/-- Grammars that are normalized from text are oblivious of how a rule associates, if they decide
nothing by values that may differ. -/
theorem oblivious_of_text (parsed : parseGrammar text = .ok rs)
    (normalized : rs.normalize ⟨false, [r]⟩ = .ok g) (indifferent : g.bodies.Indifferent v)
    (varies : v.rules r) : Oblivious g r v where
  indifferent := indifferent
  closed := rs.closed_of_normalize normalized
  memoless b hb := everywhere_of_text parsed normalized hb Pattern.notMemo_of_plain fun _ => trivial
  own name body hname found p hp := by
    rw [List.mem_singleton.1 hp]
    refine everywhere_of_text parsed normalized (Bodies.mem_of_body? found) notBodyOf_of_plain
      fun inner other heq => ?_
    cases heq
    exact hname rfl
  others name hname := by
    obtain ⟨-, -, rfl⟩ := RuleSet.normalize_eq_ok.1 normalized
    simp [Grammar.isLeftAssoc, hname]
  varies := varies

/-- What is asked of a rule of operators and of the text that it is from. -/
theorem neutral_of_text (parsed : parseGrammar text = .ok rs)
    (normalized : rs.normalize ⟨false, [r]⟩ = .ok g) (found : g.body? r = some (.leftrec inner r))
    (divided : inner.DividesInto (recs ++ base))
    (operators : recs.map (Pattern.operator? r) = ops.map some)
    (texts : ∀ op ∈ ops, op.text ≠ "") (total : ∀ op ∈ ops, op.Total)
    (through : ∀ p ∈ base, p.Everywhere (· ≠ .apply r))
    (consumes : ∀ s u, Coherent g s →
      Reaches g input (.alts s.pos base) s (.whole (.apply r)) u → u.pos ≠ s.pos)
    (indifferent : g.bodies.Indifferent v) (varies : v.rules r)
    (loose : ∀ name, Operator.Labels ops name → v.loose name) :
    Neutral v g input r inner recs base ops where
  rule :=
    ⟨rs.closed_of_normalize normalized,
      (oblivious_of_text parsed normalized indifferent varies).memoless, found, divided, operators,
      fun op hop => length_pos_of_ne (texts op hop), fun op hop _ _ left right scopes _ _ bound =>
        (total op hop scopes left right bound).imp fun _ h => ⟨h, trivial⟩⟩
  oblivious := oblivious_of_text parsed normalized indifferent varies
  assoc := by
    obtain ⟨-, -, rfl⟩ := RuleSet.normalize_eq_ok.1 normalized
    simp [Grammar.isLeftAssoc]
  plain p hp q hq := by
    have mem : p ∈ recs ++ base := List.mem_append_right _ hp
    have plain := all_of_divided divided (inner_of_text parsed normalized found) p mem q hq
    exact ⟨all_of_divided divided (all_body indifferent.nodes found).parts p mem q hq,
      notBodyOf_of_plain q plain, q.notMemo_of_plain plain⟩
  through := through
  loose := loose
  consumes := consumes

/-- **Acceptance does not depend on associativity.**  Let the alternatives of a left-recursive rule
of a grammar text be operators with texts that are not empty and expressions that cannot fail, and
then others, which apply the rule only through other rules and only after something was consumed.
If nothing in the grammar is decided by values that may depend on how the rule associates, and the
labels of the operators are looked up only by rules that have bound them themselves, then a match
ends in the same way whether the rule is declared to associate to the left or not: it succeeds or it
fails in both cases, and at the same offset. -/
theorem run_ending_of_leftAssoc {rules labels : String → Prop}
    (parsed : parseGrammar text = .ok rs) (left : rs.normalize ⟨false, [r]⟩ = .ok g)
    (right : rs.normalize .default = .ok g') (found : g.body? r = some (.leftrec inner r))
    (divided : inner.DividesInto (recs ++ base))
    (operators : recs.map (Pattern.operator? r) = ops.map some)
    (texts : ∀ op ∈ ops, op.text ≠ "") (total : ∀ op ∈ ops, op.Total)
    (through : ∀ p ∈ base, p.Everywhere (· ≠ .apply r))
    (consumes : ∀ s u, Coherent g s →
      Reaches g input (.alts s.pos base) s (.whole (.apply r)) u → u.pos ≠ s.pos)
    (indifferent : g.bodies.Indifferent ⟨rules, labels, Operator.Labels ops⟩) (varies : rules r)
    {n m : Nat} {source : String} {result result' : MatchResult}
    (h : g.run n source input = some result) (h' : g'.run m source input = some result') :
    result'.ending = result.ending := by
  have neutral : Neutral ⟨rules, labels, Operator.Labels ops⟩ g input r inner recs base ops :=
    neutral_of_text parsed left found divided operators texts total through consumes indifferent
      varies fun _ h => h
  have variant : Variant r g g' := by
    obtain ⟨-, -, rfl⟩ := RuleSet.normalize_eq_ok.1 left
    obtain ⟨-, -, rfl⟩ := RuleSet.normalize_eq_ok.1 right
    exact ⟨rfl, fun _ _ => rfl⟩
  obtain ⟨s, hs, rfl⟩ := Option.map_eq_some_iff.1 h
  obtain ⟨u, hu, rfl⟩ := Option.map_eq_some_iff.1 h'
  obtain ⟨failed, hpos, reach⟩ := neutral.final variant hs hu
  exact finish_ending failed hpos reach source source input

end Text

/-- Something is consumed before a rule is applied, if left calls do not lead to the rule. -/
theorem consumes_of_leftPath (wrapped : All (Pattern.WrapClosed g.bodies.mayBeEmpty) base)
    (apart : ∀ first, Pattern.opensAny (Pattern.nullable g.bodies.mayBeEmpty) first base →
      ¬ g.bodies.LeftPath first r)
    (coherent : Coherent g s) (h : Reaches g input (.alts s.pos base) s (.whole (.apply r)) u) :
    u.pos ≠ s.pos := by
  intro hpos
  obtain ⟨first, opens, path⟩ := h.path ⟨coherent.placed, wrapped, rfl⟩ hpos rfl
  exact apart first opens path

/-! ## Sums in brackets -/

/-- Sums of digits and of sums in brackets, which are a rule of their own. -/
def bracketText : String :=
  "s = e:v end -> v\ne = e:a '+' e:b -> [a, b] | p | digit\np = '(' e:x ')' -> x\n"

/-- A sum: its two sides in a sequence. -/
def bracketSum : Pattern :=
  .scope "e" [.label (.apply "e") "a", .lit "+", .label (.apply "e") "b",
    .action (.arr [.var "a", .var "b"])]

/-- The operator that a sum is. -/
def bracketOperator : Operator := ⟨["a"], "+", ["b"], some (.arr [.var "a", .var "b"])⟩

/-- The rules of the text. -/
def bracketRules : RuleSet :=
  ⟨[⟨"s", .choice [.seq [.label (.apply "e") "v", .apply "end", .action (.var "v")]], ⟨0, 1⟩⟩,
    ⟨"e", .choice [.seq [.label (.apply "e") "a", .lit "+", .label (.apply "e") "b",
        .action (.arr [.var "a", .var "b"])], .seq [.apply "p"], .seq [.apply "digit"]], ⟨17, 18⟩⟩,
    ⟨"p", .choice [.seq [.lit "(", .label (.apply "e") "x", .lit ")", .action (.var "x")]],
      ⟨55, 56⟩⟩]⟩

/-- The grammar of the text. -/
def bracketGrammar (assoc : List String) : Grammar :=
  ⟨[("s", .scope "s" [.label (.apply "e") "v", .apply "end", .action (.var "v")]),
    ("e", .leftrec (.choice [bracketSum, .apply "p", .apply "digit"]) "e"),
    ("p", .scope "p" [.lit "(", .label (.apply "e") "x", .lit ")", .action (.var "x")])], assoc⟩

theorem bracketText_parse : parseGrammar bracketText = .ok bracketRules := by cbv

theorem bracketOperator_total : bracketOperator.Total := by
  intro scopes left right bound
  have ha : scopes.lookup? "a" = some left := bound.left "a" (.head _) (by decide)
  have hb : scopes.lookup? "b" = some right := bound.right "b" (.head _)
  refine ⟨.seq [left, right], ?_⟩
  show Expr.eval scopes (.arr [.var "a", .var "b"]) = .ok (.seq [left, right])
  simp only [Expr.eval, Expr.evalAll, Scopes.variable, ha, hb]
  rfl

theorem bracketGrammar_indifferent (assoc : List String) :
    (bracketGrammar assoc).bodies.Indifferent
      ⟨fun _ => True, fun _ => True, Operator.Labels [bracketOperator]⟩ := by
  refine Bodies.indifferent_of_builds ?_ ?_
  · simp [bracketGrammar, bracketSum, Pattern.Everywhere, Pattern.nodes, Pattern.nodesAll,
      Pattern.BuildsNode, Expr.Builds, Expr.BuildsAll]
  · simp [bracketGrammar, bracketSum, Pattern.Knows, Pattern.KnowsTerms, Pattern.KnowsEach,
      Pattern.Binds, Expr.reads, Expr.readsAll, Operator.Labels, bracketOperator]

/-- Brackets and digits consume something before they apply a rule. -/
theorem bracketGrammar_apart (assoc : List String) (first : String)
    (h : Pattern.opensAny (Pattern.nullable (bracketGrammar assoc).bodies.mayBeEmpty) first
      [.apply "p", .apply "digit"]) : ¬ (bracketGrammar assoc).bodies.LeftPath first "e" := by
  simp only [Pattern.opensAny, Pattern.opens, or_false] at h
  intro path
  rcases path.eq_or_call with rfl | ⟨name, body, found, opens⟩
  · simp at h
  · rcases h with rfl | rfl
    · cases found
      simp [Pattern.opens, Pattern.opensTerms, Pattern.nullable] at opens
    · cases found

/-- In `1+(2+3)+4` the sums are nested differently, but both matches take all of it. -/
theorem run_ending_of_leftAssoc_brackets :
    parseGrammar bracketText = .ok bracketRules ∧
      bracketRules.normalize ⟨false, ["e"]⟩ = .ok (bracketGrammar ["e"]) ∧
      bracketRules.normalize .default = .ok (bracketGrammar []) ∧
      ∃ result result',
        (bracketGrammar ["e"]).run 40 "test" #['1', '+', '(', '2', '+', '3', ')', '+', '4']
          = some result ∧
        (bracketGrammar []).run 40 "test" #['1', '+', '(', '2', '+', '3', ')', '+', '4']
          = some result' ∧
        result' ≠ result ∧ result'.ending = result.ending := by
  have left : bracketRules.normalize ⟨false, ["e"]⟩ = .ok (bracketGrammar ["e"]) := by cbv
  have right : bracketRules.normalize .default = .ok (bracketGrammar []) := by cbv
  have run : (bracketGrammar ["e"]).run 40 "test" #['1', '+', '(', '2', '+', '3', ')', '+', '4']
      = some (.accepted (.seq [.seq [.str "1", .seq [.str "2", .str "3"]], .str "4"]) 9) := rfl
  have run' : (bracketGrammar []).run 40 "test" #['1', '+', '(', '2', '+', '3', ')', '+', '4']
      = some (.accepted (.seq [.str "1", .seq [.seq [.str "2", .str "3"], .str "4"]]) 9) := rfl
  have operators : [bracketSum].map (Pattern.operator? "e") = [bracketOperator].map some := rfl
  refine ⟨bracketText_parse, left, right, _, _, run, run', by simp, ?_⟩
  refine run_ending_of_leftAssoc bracketText_parse left right rfl
    (.inl ⟨rfl, List.cons_ne_nil _ _⟩) operators ?_ ?_ ?_ ?_ (bracketGrammar_indifferent _) trivial
    run run'
  · simp [bracketOperator]
  · exact List.forall_mem_singleton.2 bracketOperator_total
  · simp [Pattern.Everywhere, Pattern.nodes]
  · intro s u coherent h
    refine consumes_of_leftPath ?_ (bracketGrammar_apart _) coherent h
    simp [All, Pattern.Everywhere, Pattern.nodes, Pattern.WrapClosed]

/-! ## Grammars that match differently -/

/-- The grammar of a text, in which the rules in `assoc` associate to the left. -/
def compiled? (text : String) (assoc : List String) : Option Grammar :=
  (parseGrammar text).toOption.bind fun rs => (rs.normalize ⟨false, assoc⟩).toOption

/-- Each alternative of the rule `r` is an operator, with a text that is not empty and an expression
that cannot fail, or does not start with the rule.  They come in any order. -/
def MixedRule (g : Grammar) (r : String) : Prop :=
  ∃ alts, g.body? r = some (.leftrec (.choice alts) r) ∧ ∀ p ∈ alts,
    (∃ op, p.operator? r = some op ∧ op.text ≠ "" ∧ op.Total) ∨
      ∀ first, p.opens (Pattern.nullable g.bodies.mayBeEmpty) first → ¬ g.bodies.LeftPath first r

/-- Matches of a text with such a rule come to the ending `left` if the rule is declared to
associate to the left, and to `right` otherwise. -/
def EndsApart (text : String) (r : String) (input : Array Char) (left right : Bool × Nat) : Prop :=
  ∃ g g', compiled? text [r] = some g ∧ compiled? text [] = some g' ∧ MixedRule g r ∧
    (∃ n result, g.run n "test" input = some result ∧ result.ending = left) ∧
    ∃ n result, g'.run n "test" input = some result ∧ result.ending = right

/-- An operator without an expression gives the value of its right side. -/
theorem total_of_plain {op : Operator} (h : op.result? = none) : op.Total := fun _ _ right _ =>
  ⟨right, by rw [Operator.value, h]; rfl⟩

/-- The grammar of the rules `s = e -> 'k'` and `e`. -/
def constantGrammar (alts : List Pattern) (assoc : List String) : Grammar :=
  ⟨[("s", .seq [.apply "e", .action (.str "k")]), ("e", .leftrec (.choice alts) "e")], assoc⟩

/-- The grammar of the rules `s = e:v -> v[0] + 'x' -> 'k'` and `e`. -/
def askingGrammar (assoc : List String) : Grammar :=
  ⟨[("s", .scope "s" [.label (.apply "e") "v",
      .action (.plus (.qual (.var "v") [.item (.dec "0")]) (.str "x")), .action (.str "k")]),
    ("e", .leftrec (.choice [bracketSum, .lit "a"]) "e")], assoc⟩

/-- Operators with other alternatives between them. -/
def interleaved : List Pattern :=
  [.seq [.apply "e", .lit "+", .apply "e"], .lit "a", .seq [.apply "e", .lit "-", .apply "e"],
    .lit "b"]

/-- Operators, and an operand that looks up a label of one of them. -/
def lookingOut : List Pattern :=
  [.scope "e" [.label (.apply "e") "a", .lit "+", .label (.apply "e") "b"],
    .scope "e" [.label (.apply "e") "c", .lit "-", .label (.apply "e") "d"],
    .seq [.lit "n", .action (.var "a")], .lit "m"]

/-- An operator, and the rule in brackets. -/
def enclosed : List Pattern :=
  [.seq [.apply "e", .lit "+", .apply "e"], .seq [.lit "(", .apply "e", .lit ")"], .apply "digit"]

/-- How a rule associates makes a difference to what is accepted in each of these cases: operators
come behind other alternatives; an action asks for the first of two sides and adds to it as to a
text; the label of an operator is looked up inside its operand; and the rule applies itself in
brackets, where one that associates to the left matches once, without growing. -/
theorem accepts_apart :
    EndsApart "s = e -> 'k'\ne = e '+' e | 'a' | e '-' e | 'b'\n" "e"
        #['a', '+', 'b', '-', 'a'] (true, 3) (true, 5) ∧
      EndsApart "s = e:v -> v[0] + 'x' -> 'k'\ne = e:a '+' e:b -> [a, b] | 'a'\n" "e"
        #['a', '+', 'a', '+', 'a'] (false, 5) (true, 5) ∧
      EndsApart "s = e -> 'k'\ne = e:a '+' e:b | e:c '-' e:d | 'n' -> a | 'm'\n" "e"
        #['m', '+', 'm', '-', 'n'] (true, 3) (true, 5) ∧
      EndsApart "s = e -> 'k'\ne = e '+' e | '(' e ')' | digit\n" "e"
        #['(', '1', '+', '2', ')'] (false, 2) (true, 5) := by
  refine ⟨?_, ?_, ?_, ?_⟩
  · refine ⟨constantGrammar interleaved ["e"], constantGrammar interleaved [], by cbv, by cbv,
      ⟨_, rfl, ?_⟩, ⟨30, _, rfl, rfl⟩, ⟨30, _, rfl, rfl⟩⟩
    simp only [interleaved, List.forall_mem_cons]
    exact ⟨.inl ⟨_, rfl, by decide, total_of_plain rfl⟩, .inr fun _ h => h.elim,
      .inl ⟨_, rfl, by decide, total_of_plain rfl⟩, .inr fun _ h => h.elim, by simp⟩
  · refine ⟨askingGrammar ["e"], askingGrammar [], by cbv, by cbv, ⟨_, rfl, ?_⟩,
      ⟨30, _, rfl, rfl⟩, ⟨30, _, rfl, rfl⟩⟩
    simp only [List.forall_mem_cons]
    exact ⟨.inl ⟨_, rfl, by decide, bracketOperator_total⟩, .inr fun _ h => h.elim, by simp⟩
  · refine ⟨constantGrammar lookingOut ["e"], constantGrammar lookingOut [], by cbv, by cbv,
      ⟨_, rfl, ?_⟩, ⟨30, _, rfl, rfl⟩, ⟨30, _, rfl, rfl⟩⟩
    simp only [lookingOut, List.forall_mem_cons]
    refine ⟨.inl ⟨_, rfl, by decide, total_of_plain rfl⟩,
      .inl ⟨_, rfl, by decide, total_of_plain rfl⟩, .inr ?_, .inr fun _ h => h.elim, by simp⟩
    simp [Pattern.opens, Pattern.opensTerms]
  · refine ⟨constantGrammar enclosed ["e"], constantGrammar enclosed [], by cbv, by cbv,
      ⟨_, rfl, ?_⟩, ⟨30, _, rfl, rfl⟩, ⟨30, _, rfl, rfl⟩⟩
    simp only [enclosed, List.forall_mem_cons]
    refine ⟨.inl ⟨_, rfl, by decide, total_of_plain rfl⟩, .inr ?_, .inr ?_, by simp⟩
    · simp [Pattern.opens, Pattern.opensTerms, Pattern.nullable]
    · rintro first hfirst path
      obtain rfl : "digit" = first := hfirst
      rcases path.eq_or_call with heq | ⟨name, body, found, -⟩
      · exact absurd heq (by decide)
      · cases found

end Match

end Pegboard
