import Pegboard.Match.State
import Pegboard.Expr.Eval
import Pegboard.Grammar.Rules

/-!
# Evaluation of patterns

What a pattern does to the state of a match, for all forms of pattern.

Evaluation descends into rules, and rules may apply one another without end, so it is bounded by
fuel: `eval n` evaluates what needs at most `n` levels, and answers `none` where that is not enough.
An answer does not depend on how much fuel was left.  A match that fails is an answer.

One level is defined apart from the descent.  `step` says what a form of pattern does, given a
function that evaluates its parts, and `eval` ties the knot.  The forms with several parts are
functions of their own, over the evaluation of the parts:

* `choice` tries alternatives from one offset and keeps the outcome of the last;
* `sequence` stops at the first term that fails, and gives the value of the last;
* `repeated` collects values until its part fails or consumes nothing;
* `grow` reevaluates a left-recursive body with its best outcome so far as seed, as long as that
  reaches further.
-/

namespace Pegboard.Match

/-- How parts are evaluated: `none` if that needs more fuel. -/
abbrev Evaluator := Pattern → MatchState → Option MatchState

/-! ## Characters -/

/-- Matches the characters `expected`, the input being at the offset `at`.  A mismatch is a failure
where it occurs. -/
def literalFrom (input : Array Char) (text : String) (offset : Nat) :
    List Char → MatchState → MatchState
  | [], s => { s with pos := offset }.succeed (.str text)
  | c :: cs, s =>
    if input[offset]? = some c then literalFrom input text (offset + 1) cs s
    else s.failAt offset none

/-- Matches the text of a literal. -/
def literal (input : Array Char) (text : String) (s : MatchState) : MatchState :=
  literalFrom input text s.pos text.toList s

/-- Matches one character of a class. -/
def character (input : Array Char) (accepts : Char → Bool) (s : MatchState) : MatchState :=
  match input[s.pos]? with
  | some c =>
    if accepts c then { s with pos := s.pos + 1 }.succeed (.ofChar c) else s.fail none
  | none => s.fail none

/-- Matches a builtin rule. -/
def builtin (input : Array Char) (rule : BuiltinRule) (s : MatchState) : MatchState :=
  match rule with
  | .anything => character input (fun _ => true) s
  | .digit => character input Unicode.isAsciiDigit s
  | .letter => character input Unicode.isAlphabetic s
  | .end => if input[s.pos]?.isNone then s.succeed .null else s.fail none

/-! ## Expressions -/

/-- Evaluates an expression under the current bindings; an error is a failure. -/
def evaluated (expr : Expr) (s : MatchState) (next : Value → MatchState) : MatchState :=
  match expr.eval s.scopes with
  | .ok v => next v
  | .error e => s.fail (some (.evaluation e))

/-- Succeeds if an expression is true.  Only truth values will do. -/
def predicate (expr : Expr) (s : MatchState) : MatchState :=
  evaluated expr s fun
    | .bool true => s.succeed (.bool true)
    | .bool false => s.fail none
    | v => s.fail (some (.predicateNotBool v.kind))

/-- Matches the string that an expression denotes. -/
def equality (input : Array Char) (expr : Expr) (s : MatchState) : MatchState :=
  evaluated expr s fun
    | .str text => literal input text s
    | v => s.fail (some (.equalityNotStr v.kind))

/-- Gives the value of an expression. -/
def action (expr : Expr) (s : MatchState) : MatchState :=
  evaluated expr s s.succeed

/-! ## Forms with several parts -/

/-- Tries alternatives in order, each from the offset `start`.  What the last one gives, success or
failure, is the outcome. -/
def choice (ev : Evaluator) (start : Nat) : List Pattern → MatchState → Option MatchState
  | [], s => some (s.fail none)
  | [last], s => ev last s
  | alt :: rest, s => do
    let s' ← ev alt s
    if s'.failed then choice ev start rest { s' with pos := start } else some s'

/-- Evaluates terms in order, up to the first that fails. -/
def terms (ev : Evaluator) : List Pattern → MatchState → Option MatchState
  | [], s => some s
  | term :: rest, s => do
    let s' ← ev term s
    if s'.failed then some s' else terms ev rest s'

/-- Evaluates a sequence.  Its value is that of the last term. -/
def sequence (ev : Evaluator) (ps : List Pattern) (s : MatchState) : Option MatchState :=
  terms ev ps (s.succeed .null)

/-- Repeats a pattern until it fails or consumes nothing, `n` times at most, and gives the values of
all repetitions; `items` are those of earlier ones, the latest first. -/
def repeated (ev : Evaluator) (inner : Pattern) :
    Nat → List Value → MatchState → Option MatchState
  | 0, _, _ => none
  | n + 1, items, s => do
    let s' ← ev inner s
    if s'.failed then some ({ s' with pos := s.pos }.succeed (.seq items.reverse))
    else if s'.pos = s.pos then some (s'.succeed (.seq (s'.value :: items).reverse))
    else repeated ev inner n (s'.value :: items) s'

/-- Repeats a pattern at least once. -/
def repeatedOnce (ev : Evaluator) (n : Nat) (inner : Pattern) (s : MatchState) :
    Option MatchState := do
  let s' ← ev inner s
  if s'.failed then some s'
  else if s'.pos = s.pos then some (s'.succeed (.seq [s'.value]))
  else repeated ev inner n [s'.value] s'

/-! ## Rules -/

/-- Evaluates the body of a rule.  Only a rule that is blocked sees that rules are: any other starts
with none blocked. -/
def applyRule (ev : Evaluator) (rule : String) (body : Pattern) (s : MatchState) :
    Option MatchState :=
  if s.blocked.isEmpty || s.blocked.contains rule then ev body s
  else do
    let s' ← ev body { s with blocked := [] }
    some { s' with blocked := s.blocked }

/-- Reevaluates the body of a left-recursive rule from its start, recording each outcome as the new
seed, until an outcome is a failure or reaches no further than the seed. -/
def grow (ev : Evaluator) (inner : Pattern) (key : RuleAt) :
    Nat → MatchState → Option MatchState
  | 0, _ => none
  | n + 1, s => do
    let s' ← ev inner { s with pos := key.2 }
    match s'.seeds.get? key with
    | some seed =>
      if !s'.failed && (seed.failed || decide (seed.pos < s'.pos)) then
        grow ev inner key n { s' with seeds := s'.seeds.insert key s'.outcome }
      else some s'
    | none => some s'

/-- Evaluates a left-recursive body.  A rule with a seed at this offset gives the seed.  A
left-associative rule that is growing elsewhere matches once, without growing, so that the
application which grows extends to the left.  Any other starts from a failing seed and grows. -/
def leftrec (g : Grammar) (ev : Evaluator) (n : Nat) (inner : Pattern) (rule : String)
    (s : MatchState) : Option MatchState :=
  let key : RuleAt := (rule, s.pos)
  let seeded : MatchState := { s with seeds := s.seeds.insert key (.failing s.pos) }
  match s.seeds.get? key with
  | some seed => some (s.adopt seed)
  | none =>
    if s.blocked.contains rule then do
      let s' ← ev inner seeded
      some { s' with seeds := s'.seeds.erase key }
    else do
      let blocked := if g.isLeftAssoc rule then rule :: s.blocked else s.blocked
      let s' ← grow ev inner key n { seeded with blocked := blocked }
      let seed := (s'.seeds.get? key).getD (.failing s.pos)
      let unblocked := if g.isLeftAssoc rule then s'.blocked.erase rule else s'.blocked
      some ({ s' with seeds := s'.seeds.erase key, blocked := unblocked }.adopt seed)

/-- Evaluates the body of a rule whose outcomes are kept.  A kept outcome comes with the failures on
the way to it. -/
def memoized (ev : Evaluator) (inner : Pattern) (rule : String) (s : MatchState) :
    Option MatchState :=
  let key : RuleAt := (rule, s.pos)
  match s.memo.get? key with
  | some entry => some ((s.adopt entry.outcome).mergeFailure entry.furthest)
  | none => do
    let s' ← ev inner { s with furthest := none }
    let entry : MemoEntry := ⟨s'.outcome, s'.furthest⟩
    some ({ s' with furthest := s.furthest, memo := s'.memo.insert key entry }.mergeFailure
      s'.furthest)

/-! ## All forms -/

/-- What one form of pattern does, with `ev` for its parts and at most `n` repetitions. -/
def step (g : Grammar) (input : Array Char) (n : Nat) (ev : Evaluator) : Evaluator
  | .choice alts, s => choice ev s.pos alts s
  | .seq ps, s => sequence ev ps s
  | .scope _ ps, s => do
    let s' ← sequence ev ps { s with scopes := s.scopes.push }
    some { s' with scopes := s'.scopes.pop }
  | .label inner name, s => do
    let s' ← ev inner s
    some (if s'.failed then s' else { s' with scopes := s'.scopes.bind name s'.value })
  | .leftrec inner rule, s => leftrec g ev n inner rule s
  | .memo inner rule, s => memoized ev inner rule s
  | .apply name, s =>
    match g.body? name with
    | some body => applyRule ev name body s
    | none =>
      match BuiltinRule.ofName? name with
      | some rule => some (builtin input rule s)
      | none => some (s.fail (some (.unknownRule name)))
  | .lit text, s => some (literal input text s)
  | .range lo hi, s => some (character input (fun c => lo ≤ c && c ≤ hi) s)
  | .not inner, s => do
    let s' ← ev inner { s with furthest := none }
    let back := { s' with furthest := s.furthest, pos := s.pos }
    some (if s'.failed then back.succeed .null else back.fail none)
  | .opt inner, s => do
    let s' ← ev inner s
    some (if s'.failed then { s' with pos := s.pos }.succeed .null else s')
  | .star inner, s => repeated ev inner n [] s
  | .plus inner, s => repeatedOnce ev n inner s
  | .paren inner, s => ev inner s
  | .capture inner, s => do
    let s' ← ev inner s
    some (if s'.failed then s'
      else s'.succeed (.str (String.ofList (input.extract s.pos s'.pos).toList)))
  | .pred expr, s => some (predicate expr s)
  | .eq expr, s => some (equality input expr s)
  | .action expr, s => some (action expr s)
  | .pos, s => some (s.succeed (.int s.pos))
  | .empty, s => some (s.succeed .null)

/-- Evaluates a pattern with fuel `n`. -/
def eval (g : Grammar) (input : Array Char) : Nat → Evaluator
  | 0, _, _ => none
  | n + 1, p, s => step g input n (eval g input n) p s

theorem eval_zero (g : Grammar) (input : Array Char) (p : Pattern) (s : MatchState) :
    eval g input 0 p s = none := rfl

theorem eval_succ (g : Grammar) (input : Array Char) (n : Nat) (p : Pattern) (s : MatchState) :
    eval g input (n + 1) p s = step g input n (eval g input n) p s := rfl

end Pegboard.Match
