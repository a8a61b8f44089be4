import Pegboard.Grammar.Rules
import Pegboard.Token.Scan

/-!
# Parsing

Grammar text is parsed by recursive descent over its tokens:

```text
rules    = (rule ','?)* EOF
rule     = IDENT '=' choice
choice   = alt ('|' alt)*
alt      = term*
term     = '~' term | postfix (':' IDENT)?
postfix  = prim ('?' | '*' | '+')?
prim     = IDENT | STR ('..' STR)? | '(' choice ')' | '{' choice? '}'
         | '->' expr | '?(' expr ')' | '?{' expr '}' | '={' expr '}'
expr     = qual ('+' qual)*
qual     = sprim ('[' expr ']' | '(' exprs ')' | '.' IDENT)*
sprim    = IDENT | DEC | HEX | STR | '[' exprs ']' | '(' expr ')'
```

Nothing is simplified on the way.  Every rule body, every group in parentheses and every capture
becomes a choice, whose alternatives are sequences or empty.

Two tokens are told apart from their neighbours by standing without a blank between: `={` opens an
equality assertion where `=` alone would start the next rule, and `?(` and `?{` open a predicate
where `?` alone would make a pattern optional.

## Design Notes

Every reading function gets the tokens that are left and answers with the tokens that it leaves.  A
`Reading n` says that these are fewer than `n`.  It is what makes the functions terminate, and a
reader of a result gets it for free.
-/

namespace Pegboard

/-- What a reading function gives: what it read, and the tokens left, fewer than `n`. -/
structure Reading (n : Nat) (α : Type) where
  value : α
  rest : List PlacedToken
  shorter : rest.length < n

namespace Parse

/-- What was read, or what is wrong. -/
abbrev Attempt := Except SyntaxError

/-- The first token of `ts`.  If there is none, it is the end of the text, at the offset `stop`. -/
def found (stop : Nat) (ts : List PlacedToken) : PlacedToken :=
  ts.head?.getD ⟨.endOfFile, ⟨stop, stop⟩⟩

/-! ## Delimiters and openers -/

/-- Reads the delimiter that closes what `opener` opened. -/
def closing (stop : Nat) (closer : Symbol) (opener : PlacedToken) (ts : List PlacedToken) :
    Attempt (Reading ts.length Unit) :=
  match ts with
  | ⟨.symbol s, span⟩ :: rest =>
    if s = closer then .ok ⟨(), rest, Nat.lt_succ_self _⟩
    else .error (.unclosedDelimiter closer opener ⟨.symbol s, span⟩)
  | ts => .error (.unclosedDelimiter closer opener (found stop ts))

/-- Whether a rule starts here: a name and `=`, unless the latter opens an equality assertion. -/
def atRuleStart : List PlacedToken → Bool
  | ⟨.ident _, _⟩ :: ⟨.symbol .equal, eq⟩ :: ⟨.symbol .openBrace, brace⟩ :: _ => !eq.abuts brace
  | ⟨.ident _, _⟩ :: ⟨.symbol .equal, _⟩ :: _ => true
  | _ => false

/-- Whether a predicate starts here. -/
def atPredicate : List PlacedToken → Bool
  | ⟨.symbol .question, question⟩ :: ⟨.symbol .openParen, opener⟩ :: _ => question.abuts opener
  | ⟨.symbol .question, question⟩ :: ⟨.symbol .openBrace, opener⟩ :: _ => question.abuts opener
  | _ => false

/-- Whether an alternative ends here. -/
def atAltEnd : List PlacedToken → Bool
  | [] => true
  | ⟨.symbol .pipe, _⟩ :: _ => true
  | ⟨.symbol .comma, _⟩ :: _ => true
  | ⟨.symbol .closeParen, _⟩ :: _ => true
  | ⟨.symbol .closeBrace, _⟩ :: _ => true
  | ⟨.symbol .closeBracket, _⟩ :: _ => true
  | ts => atRuleStart ts

/-! ## Expressions -/

/-- Reads an attribute name, after its dot. -/
def attributeName (stop : Nat) (ts : List PlacedToken) : Attempt (Reading ts.length String) :=
  match ts with
  | ⟨.ident name, _⟩ :: rest => .ok ⟨name, rest, Nat.lt_succ_self _⟩
  | ts => .error (.expectedToken .attributeName (found stop ts))

mutual

/-- Reads a sum. -/
def expr (stop : Nat) (ts : List PlacedToken) : Attempt (Reading ts.length Expr) := do
  let ⟨lhs, rest, h⟩ ← qual stop ts
  let ⟨e, rest', h'⟩ ← summands stop lhs rest
  return ⟨e, rest', by omega⟩
termination_by 4 * ts.length + 2
decreasing_by all_goals omega

/-- Reads what is added to `lhs`.  Sums nest to the left. -/
def summands (stop : Nat) (lhs : Expr) (ts : List PlacedToken) :
    Attempt (Reading (ts.length + 1) Expr) :=
  match ts with
  | ⟨.symbol .plus, _⟩ :: rest => do
    let ⟨rhs, rest', h⟩ ← qual stop rest
    let ⟨e, rest'', h'⟩ ← summands stop (.plus lhs rhs) rest'
    return ⟨e, rest'', by simp only [List.length_cons]; omega⟩
  | ts => .ok ⟨lhs, ts, Nat.lt_succ_self _⟩
termination_by 4 * ts.length
decreasing_by all_goals (try simp only [List.length_cons]); omega

/-- Reads an expression with its suffixes. -/
def qual (stop : Nat) (ts : List PlacedToken) : Attempt (Reading ts.length Expr) := do
  let ⟨base, rest, h⟩ ← primary stop ts
  let ⟨suffixes, rest', h'⟩ ← suffixes stop rest
  return ⟨if suffixes.isEmpty then base else .qual base suffixes, rest', by omega⟩
termination_by 4 * ts.length + 1
decreasing_by all_goals omega

/-- Reads suffixes, as many as follow. -/
def suffixes (stop : Nat) (ts : List PlacedToken) :
    Attempt (Reading (ts.length + 1) (List Suffix)) :=
  match ts with
  | ⟨.symbol .openBracket, span⟩ :: rest => do
    let ⟨index, rest₁, h₁⟩ ← expr stop rest
    let ⟨_, rest₂, h₂⟩ ← closing stop .closeBracket ⟨.symbol .openBracket, span⟩ rest₁
    let ⟨more, rest₃, h₃⟩ ← suffixes stop rest₂
    return ⟨.item index :: more, rest₃, by simp only [List.length_cons]; omega⟩
  | ⟨.symbol .openParen, span⟩ :: rest => do
    let ⟨args, rest₁, h₁⟩ ← exprs stop .closeParen ⟨.symbol .openParen, span⟩ rest
    let ⟨more, rest₂, h₂⟩ ← suffixes stop rest₁
    return ⟨.call args :: more, rest₂, by simp only [List.length_cons]; omega⟩
  | ⟨.symbol .dot, _⟩ :: rest => do
    let ⟨name, rest₁, h₁⟩ ← attributeName stop rest
    let ⟨more, rest₂, h₂⟩ ← suffixes stop rest₁
    return ⟨.attr name :: more, rest₂, by simp only [List.length_cons]; omega⟩
  | ts => .ok ⟨[], ts, Nat.lt_succ_self _⟩
termination_by 4 * ts.length
decreasing_by all_goals (try simp only [List.length_cons]); omega

/-- Reads an expression without suffixes. -/
def primary (stop : Nat) (ts : List PlacedToken) : Attempt (Reading ts.length Expr) :=
  match ts with
  | ⟨.ident name, _⟩ :: rest => .ok ⟨.var name, rest, Nat.lt_succ_self _⟩
  | ⟨.dec digits, _⟩ :: rest => .ok ⟨.dec digits, rest, Nat.lt_succ_self _⟩
  | ⟨.hex digits, _⟩ :: rest => .ok ⟨.hex digits, rest, Nat.lt_succ_self _⟩
  | ⟨.str text, _⟩ :: rest => .ok ⟨.str text, rest, Nat.lt_succ_self _⟩
  | ⟨.symbol .openBracket, span⟩ :: rest => do
    let ⟨items, rest₁, h₁⟩ ← exprs stop .closeBracket ⟨.symbol .openBracket, span⟩ rest
    return ⟨.arr items, rest₁, by simp only [List.length_cons]; omega⟩
  | ⟨.symbol .openParen, span⟩ :: rest => do
    let ⟨e, rest₁, h₁⟩ ← expr stop rest
    let ⟨_, rest₂, h₂⟩ ← closing stop .closeParen ⟨.symbol .openParen, span⟩ rest₁
    return ⟨e, rest₂, by simp only [List.length_cons]; omega⟩
  | ts => .error (.expectedExpression (found stop ts))
termination_by 4 * ts.length
decreasing_by all_goals (try simp only [List.length_cons]); omega

/-- Reads expressions with commas between, and the delimiter that closes them. -/
def exprs (stop : Nat) (closer : Symbol) (opener : PlacedToken) (ts : List PlacedToken) :
    Attempt (Reading ts.length (List Expr)) := do
  if (found stop ts).token = .symbol closer then
    let ⟨_, rest, h⟩ ← closing stop closer opener ts
    return ⟨[], rest, h⟩
  else
    let ⟨first, rest₁, h₁⟩ ← expr stop ts
    let ⟨more, rest₂, h₂⟩ ← furtherExprs stop rest₁
    let ⟨_, rest₃, h₃⟩ ← closing stop closer opener rest₂
    return ⟨first :: more, rest₃, by omega⟩
termination_by 4 * ts.length + 3
decreasing_by all_goals omega

/-- Reads expressions with a comma before each. -/
def furtherExprs (stop : Nat) (ts : List PlacedToken) :
    Attempt (Reading (ts.length + 1) (List Expr)) :=
  match ts with
  | ⟨.symbol .comma, _⟩ :: rest => do
    let ⟨e, rest₁, h₁⟩ ← expr stop rest
    let ⟨more, rest₂, h₂⟩ ← furtherExprs stop rest₁
    return ⟨e :: more, rest₂, by simp only [List.length_cons]; omega⟩
  | ts => .ok ⟨[], ts, Nat.lt_succ_self _⟩
termination_by 4 * ts.length
decreasing_by all_goals (try simp only [List.length_cons]); omega

end

/-! ## Patterns -/

/-- The character that a bound of a range stands for. -/
def rangeBound (bound : PlacedToken) (text : String) : Attempt Char :=
  match text.toList with
  | [c] => .ok c
  | _ => .error (.invalidRangeBound bound)

/-- Reads what may follow a literal: `..` and a second literal make it a range. -/
def literalOrRange (stop : Nat) (lower : PlacedToken) (text : String) (ts : List PlacedToken) :
    Attempt (Reading (ts.length + 1) Pattern) :=
  match ts with
  | ⟨.symbol .dotDot, _⟩ :: ⟨.str upper, span⟩ :: rest => do
    let lo ← rangeBound lower text
    let hi ← rangeBound ⟨.str upper, span⟩ upper
    return ⟨.range lo hi, rest, by simp only [List.length_cons]; omega⟩
  | ⟨.symbol .dotDot, _⟩ :: rest => do
    let _ ← rangeBound lower text
    throw (.expectedToken .literal (found stop rest))
  | ts => .ok ⟨.lit text, ts, Nat.lt_succ_self _⟩

/-- Reads the expression of a predicate and its delimiters, after the question mark. -/
def predicate (stop : Nat) (ts : List PlacedToken) : Attempt (Reading ts.length Pattern) :=
  match ts with
  | ⟨.symbol .openParen, span⟩ :: rest => do
    let ⟨e, rest₁, h₁⟩ ← expr stop rest
    let ⟨_, rest₂, h₂⟩ ← closing stop .closeParen ⟨.symbol .openParen, span⟩ rest₁
    return ⟨.pred e, rest₂, by simp only [List.length_cons]; omega⟩
  | ⟨.symbol .openBrace, span⟩ :: rest => do
    let ⟨e, rest₁, h₁⟩ ← expr stop rest
    let ⟨_, rest₂, h₂⟩ ← closing stop .closeBrace ⟨.symbol .openBrace, span⟩ rest₁
    return ⟨.pred e, rest₂, by simp only [List.length_cons]; omega⟩
  | ts => .error (.expectedToken .predicateOpener (found stop ts))

/-- Reads the sign of a repetition of `inner`, if one follows. -/
def repetition (inner : Pattern) (ts : List PlacedToken) : Reading (ts.length + 1) Pattern :=
  match ts with
  | ⟨.symbol .question, span⟩ :: rest =>
    if atPredicate (⟨.symbol .question, span⟩ :: rest) then
      ⟨inner, ⟨.symbol .question, span⟩ :: rest, Nat.lt_succ_self _⟩
    else ⟨.opt inner, rest, by simp only [List.length_cons]; omega⟩
  | ⟨.symbol .star, _⟩ :: rest => ⟨.star inner, rest, by simp only [List.length_cons]; omega⟩
  | ⟨.symbol .plus, _⟩ :: rest => ⟨.plus inner, rest, by simp only [List.length_cons]; omega⟩
  | ts => ⟨inner, ts, Nat.lt_succ_self _⟩

/-- Reads the label of `inner`, if one follows. -/
def labelled (stop : Nat) (inner : Pattern) (ts : List PlacedToken) :
    Attempt (Reading (ts.length + 1) Pattern) :=
  match ts with
  | ⟨.symbol .colon, _⟩ :: ⟨.ident name, _⟩ :: rest =>
    .ok ⟨.label inner name, rest, by simp only [List.length_cons]; omega⟩
  | ⟨.symbol .colon, _⟩ :: rest => .error (.expectedToken .labelName (found stop rest))
  | ts => .ok ⟨inner, ts, Nat.lt_succ_self _⟩

mutual

/-- Reads a choice. -/
def choice (stop : Nat) (ts : List PlacedToken) : Attempt (Reading (ts.length + 1) Pattern) := do
  let ⟨first, rest, h⟩ ← alternative stop ts
  let ⟨more, rest', h'⟩ ← furtherAlternatives stop rest
  return ⟨.choice (first :: more), rest', by omega⟩
termination_by 6 * ts.length + 5
decreasing_by all_goals omega

/-- Reads alternatives with a bar before each. -/
def furtherAlternatives (stop : Nat) (ts : List PlacedToken) :
    Attempt (Reading (ts.length + 1) (List Pattern)) :=
  match ts with
  | ⟨.symbol .pipe, _⟩ :: rest => do
    let ⟨alt, rest₁, h₁⟩ ← alternative stop rest
    let ⟨more, rest₂, h₂⟩ ← furtherAlternatives stop rest₁
    return ⟨alt :: more, rest₂, by simp only [List.length_cons]; omega⟩
  | ts => .ok ⟨[], ts, Nat.lt_succ_self _⟩
termination_by 6 * ts.length + 4
decreasing_by all_goals (try simp only [List.length_cons]); omega

/-- Reads an alternative: a sequence, or nothing. -/
def alternative (stop : Nat) (ts : List PlacedToken) :
    Attempt (Reading (ts.length + 1) Pattern) := do
  let ⟨ps, rest, h⟩ ← terms stop ts
  return ⟨if ps.isEmpty then .empty else .seq ps, rest, h⟩
termination_by 6 * ts.length + 4
decreasing_by all_goals omega

/-- Reads terms up to the end of the alternative. -/
def terms (stop : Nat) (ts : List PlacedToken) : Attempt (Reading (ts.length + 1) (List Pattern)) :=
  if atAltEnd ts then .ok ⟨[], ts, Nat.lt_succ_self _⟩
  else do
    let ⟨p, rest, h⟩ ← term stop ts
    let ⟨more, rest', h'⟩ ← terms stop rest
    return ⟨p :: more, rest', by omega⟩
termination_by 6 * ts.length + 3
decreasing_by all_goals omega

/-- Reads a lookahead, or a repetition with its label. -/
def term (stop : Nat) (ts : List PlacedToken) : Attempt (Reading ts.length Pattern) :=
  match ts with
  | ⟨.symbol .tilde, _⟩ :: rest => do
    let ⟨p, rest', h⟩ ← term stop rest
    return ⟨.not p, rest', by simp only [List.length_cons]; omega⟩
  | ts => do
    let ⟨p, rest, h⟩ ← prim stop ts
    let ⟨p, rest₁, h₁⟩ := repetition p rest
    let ⟨p, rest₂, h₂⟩ ← labelled stop p rest₁
    return ⟨p, rest₂, by omega⟩
termination_by 6 * ts.length + 2
decreasing_by all_goals (try simp only [List.length_cons]); omega

/-- Reads a pattern without sign of repetition and label. -/
def prim (stop : Nat) (ts : List PlacedToken) : Attempt (Reading ts.length Pattern) :=
  match ts with
  | ⟨.ident name, _⟩ :: rest => .ok ⟨.apply name, rest, Nat.lt_succ_self _⟩
  | ⟨.str text, span⟩ :: rest => do
    let ⟨p, rest₁, h₁⟩ ← literalOrRange stop ⟨.str text, span⟩ text rest
    return ⟨p, rest₁, by simp only [List.length_cons]; omega⟩
  | ⟨.symbol .openParen, span⟩ :: rest => do
    let ⟨p, rest₁, h₁⟩ ← choice stop rest
    let ⟨_, rest₂, h₂⟩ ← closing stop .closeParen ⟨.symbol .openParen, span⟩ rest₁
    return ⟨.paren p, rest₂, by simp only [List.length_cons]; omega⟩
  | ⟨.symbol .openBrace, _⟩ :: ⟨.symbol .closeBrace, _⟩ :: rest =>
    .ok ⟨.pos, rest, by simp only [List.length_cons]; omega⟩
  | ⟨.symbol .openBrace, span⟩ :: rest => do
    let ⟨p, rest₁, h₁⟩ ← choice stop rest
    let ⟨_, rest₂, h₂⟩ ← closing stop .closeBrace ⟨.symbol .openBrace, span⟩ rest₁
    return ⟨.capture p, rest₂, by simp only [List.length_cons]; omega⟩
  | ⟨.symbol .arrow, _⟩ :: rest => do
    let ⟨e, rest₁, h₁⟩ ← expr stop rest
    return ⟨.action e, rest₁, by simp only [List.length_cons]; omega⟩
  | ⟨.symbol .question, _⟩ :: rest => do
    let ⟨p, rest₁, h₁⟩ ← predicate stop rest
    return ⟨p, rest₁, by simp only [List.length_cons]; omega⟩
  | ⟨.symbol .equal, _⟩ :: ⟨.symbol .openBrace, span⟩ :: rest => do
    let ⟨e, rest₁, h₁⟩ ← expr stop rest
    let ⟨_, rest₂, h₂⟩ ← closing stop .closeBrace ⟨.symbol .openBrace, span⟩ rest₁
    return ⟨.eq e, rest₂, by simp only [List.length_cons]; omega⟩
  | ts => .error (.expectedExpression (found stop ts))
termination_by 6 * ts.length
decreasing_by all_goals (try simp only [List.length_cons]); omega

end

/-! ## Rules -/

/-- The tokens after a comma, if one stands in front. -/
def skipComma : List PlacedToken → List PlacedToken
  | ⟨.symbol .comma, _⟩ :: rest => rest
  | ts => ts

theorem length_skipComma_le (ts : List PlacedToken) : (skipComma ts).length ≤ ts.length := by
  unfold skipComma
  split <;> simp

/-- Reads rules up to the end of the text. -/
def rules (stop : Nat) (ts : List PlacedToken) : Attempt (List Rule) :=
  match ts with
  | [] => .ok []
  | ⟨.ident name, span⟩ :: ⟨.symbol .equal, _⟩ :: rest => do
    let ⟨body, rest', _⟩ ← choice stop rest
    let more ← rules stop (skipComma rest')
    return ⟨name, body, span⟩ :: more
  | ⟨.ident _, _⟩ :: rest => .error (.expectedToken .equal (found stop rest))
  | ts => .error (.expectedRule (found stop ts))
termination_by ts.length
decreasing_by
  have := length_skipComma_le rest'
  simp only [List.length_cons]
  omega

end Parse

/-- The rules of a grammar text, or the first thing that is wrong with it.  What is wrong with a
token comes before what is wrong with the order of tokens. -/
def parseGrammar (text : String) : Except SyntaxError RuleSet :=
  let s := scan text
  match s.errors with
  | e :: _ => .error e
  | [] => (Parse.rules s.stop s.placed).map RuleSet.mk

end Pegboard
