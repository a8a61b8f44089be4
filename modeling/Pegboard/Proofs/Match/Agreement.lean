import Pegboard.Match.Result
import Pegboard.Proofs.Grammar.Parts

/-!
# Grammars that agree on some rules

Evaluation goes from a pattern to its parts and to the bodies of the rules that it applies, and
looks at nothing else of a grammar but which rules associate to the left.  So rules that cannot be
applied do not matter.

## Main Definitions

* `AgreeOn`: two grammars agree on some rules, which apply no others.

## Main Results

* `eval_congr`: in two grammars that agree on what can be applied, a pattern does the same.
* `run_congr`: two such grammars give the same results.
-/

namespace Pegboard.Match

variable {ev ev' : Evaluator}

theorem choice_congr {start : Nat} {ps : List Pattern} (h : ∀ p ∈ ps, ev p = ev' p)
    (s : MatchState) : choice ev start ps s = choice ev' start ps s := by
  induction ps generalizing s with
  | nil => rfl
  | cons p ps ih =>
    have head : ev p = ev' p := h p (.head _)
    cases ps with
    | nil => exact congrFun head s
    | cons q ps =>
      rw [choice, choice, head]
      · refine bind_congr fun s' => ?_
        split
        · exact ih (fun r hr => h r (.tail _ hr)) _
        · rfl
      all_goals simp

theorem terms_congr {ps : List Pattern} (h : ∀ p ∈ ps, ev p = ev' p) (s : MatchState) :
    terms ev ps s = terms ev' ps s := by
  induction ps generalizing s with
  | nil => rfl
  | cons p ps ih =>
    rw [terms, terms, h p (.head _)]
    refine bind_congr fun s' => ?_
    split
    · rfl
    · exact ih (fun q hq => h q (.tail _ hq)) s'

theorem repeated_congr {inner : Pattern} (h : ev inner = ev' inner) (n : Nat) (items : List Value)
    (s : MatchState) : repeated ev inner n items s = repeated ev' inner n items s := by
  induction n generalizing items s with
  | zero => rfl
  | succ n ih => simp only [repeated, h, ih]

theorem grow_congr {inner : Pattern} (h : ev inner = ev' inner) (key : RuleAt) (n : Nat)
    (s : MatchState) : grow ev inner key n s = grow ev' inner key n s := by
  induction n generalizing s with
  | zero => rfl
  | succ n ih => simp only [grow, h, ih]

variable {g g' : Grammar} {input : Array Char} {ok : String → Prop}

/-- What one form of pattern does depends on its parts and, if it applies a rule, on the body of the
rule. -/
theorem step_congr (assoc : g'.leftAssoc = g.leftAssoc) {p : Pattern}
    (rules : ∀ name ∈ p.applied, g'.body? name = g.body? name ∧
      ∀ body, g.body? name = some body → ev' body = ev body)
    (parts : ∀ q ∈ p.parts, ev' q = ev q) (n : Nat) :
    step g' input n ev' p = step g input n ev p := by
  funext s
  have assoc (rule : String) : g'.isLeftAssoc rule = g.isLeftAssoc rule := by
    rw [Grammar.isLeftAssoc, Grammar.isLeftAssoc, assoc]
  cases p with
  | choice ps => exact choice_congr parts s
  | seq ps => exact terms_congr parts _
  | scope rule ps =>
    have same : ∀ q ∈ ps, ev' q = ev q := parts
    rw [step, step, sequence, sequence, terms_congr same]
  | leftrec inner rule =>
    have inner' := parts inner (.head _)
    simp only [step, leftrec, inner', grow_congr inner', assoc]
  | apply name =>
    obtain ⟨same, body'⟩ := rules name (.head _)
    rw [step, step, same]
    cases found : g.body? name with
    | some body => simp only [applyRule, body' body found]
    | none => rfl
  | star inner => exact repeated_congr (parts inner (.head _)) n [] s
  | plus inner =>
    have inner' := parts inner (.head _)
    simp only [step, repeatedOnce, inner', repeated_congr inner']
  | label inner | memo inner | not inner | opt inner | paren inner | capture inner =>
    simp only [step, memoized, parts inner (.head _)]
  | _ => rfl

/-- Two grammars have the same bodies of the rules in `ok`, and from these rules no others are
applied. -/
structure AgreeOn (ok : String → Prop) (g g' : Grammar) : Prop where
  assoc : g'.leftAssoc = g.leftAssoc
  body? : ∀ name, ok name → g'.body? name = g.body? name
  inside : ∀ name body, ok name → g.body? name = some body → ∀ callee ∈ body.applied, ok callee

/-- Evaluation depends on the rules that can be applied: in two grammars that agree on them, a
pattern does the same with the same fuel. -/
theorem eval_congr (agree : AgreeOn ok g g') (n : Nat) {p : Pattern}
    (inside : ∀ name ∈ p.applied, ok name) : eval g' input n p = eval g input n p := by
  induction n generalizing p with
  | zero => rfl
  | succ n ih =>
    refine step_congr agree.assoc (fun name hname => ?_) (fun q hq => ?_) n
    · have here := inside name hname
      exact ⟨agree.body? name here, fun body found => ih (agree.inside name body here found)⟩
    · exact ih fun name hname => inside name (Pattern.applied_subset_of_part hq hname)

/-- Two grammars that start with the same rule, and agree on what it comes to apply, give the same
results. -/
theorem run_congr (agree : AgreeOn ok g g') (start : g'.start = g.start) (fine : ok g.start)
    (n : Nat) (source : String) : g'.run n source input = g.run n source input := by
  rw [Grammar.run, Grammar.run, final?, final?, start, agree.body? g.start fine]
  cases found : g.body? g.start with
  | none => rfl
  | some body =>
    simp only [applyRule, eval_congr agree n (agree.inside g.start body fine found)]

end Pegboard.Match
