import Pegboard.Grammar.Rules
import Pegboard.Token.Layout

/-!
# Printing

The canonical text of a grammar.  Every rule has its alternatives on lines of their own, aligned
under its `=`; parentheses stand only where a pattern would otherwise be read differently.  Scopes
and the wrappers of left recursion and memoization are not printed: normalizing what is read back
inserts them again.

An expression in an action runs on as far as it can, so an action is put in parentheses where the
next term starts with a parenthesis, and where a sign of repetition follows.

## Main Definitions

* `Expr.layout`, `Pattern.layout`: expressions and patterns as rows of tokens.
* `RuleSet.pretty`, `Grammar.pretty`: the text of rules.
-/

namespace Pegboard

/-! ## Expressions -/

namespace Expr

/-- Whether an expression is a sum. -/
def isSum : Expr → Bool
  | .plus _ _ => true
  | _ => false

/-- The row of an operand, in parentheses if it is a sum. -/
def operand (e : Expr) (row : Layout) : Layout := if e.isSum then row.parens else row

/-- What separates the items of a list. -/
def separator : Layout := [.sym .comma, .blank]

mutual

/-- The row of tokens of an expression. -/
def layout : Expr → Layout
  | .var name => [.name name]
  | .dec digits => [.token (.dec digits)]
  | .hex digits => [.token (.hex digits)]
  | .str text => [.token (.str text)]
  | .plus lhs rhs => layout lhs ++ [.blank, .sym .plus, .blank] ++ operand rhs (layout rhs)
  | .qual base suffixes => operand base (layout base) ++ layoutSuffixes suffixes
  | .arr items => Layout.between .openBracket .closeBracket (.joined separator (layoutAll items))

/-- The rows of the expressions of a list. -/
def layoutAll : List Expr → List Layout
  | [] => []
  | e :: es => layout e :: layoutAll es

/-- The row of a suffix. -/
def layoutSuffix : Suffix → Layout
  | .item index => Layout.between .openBracket .closeBracket (layout index)
  | .call args => Layout.parens (.joined separator (layoutAll args))
  | .attr name => [.sym .dot, .name name]

/-- The row of suffixes, one after the other. -/
def layoutSuffixes : List Suffix → Layout
  | [] => []
  | s :: ss => layoutSuffix s ++ layoutSuffixes ss

end

/-- The text of an expression. -/
def pretty (e : Expr) : String := e.layout.text

end Expr

/-! ## Patterns -/

/-- How tightly the parts of a pattern hold together, the loosest first. -/
inductive Level where
  | choice | seq | term | postfixed | prim
  deriving DecidableEq, Repr, Inhabited

namespace Level

/-- The position of a level among the others. -/
def rank : Level → Nat
  | .choice => 0
  | .seq => 1
  | .term => 2
  | .postfixed => 3
  | .prim => 4

/-- Whether a pattern of level `own` needs parentheses where the level `least` is asked for. -/
def isLooser (own least : Level) : Bool := own.rank < least.rank

/-- A row in parentheses if its level needs them. -/
def grouped (own least : Level) (row : Layout) : Layout :=
  if own.isLooser least then row.parens else row

/-- What is asked of a part that is printed in place of the whole: nothing inside parentheses. -/
def inside (own least : Level) : Level := if own.isLooser least then .choice else least

end Level

namespace Pattern

/-- The level of a pattern.  What holds a single part, or prints as its part, is of its level. -/
def level : Pattern → Level
  | .choice [p] => level p
  | .choice [] => .prim
  | .choice _ => .choice
  | .seq [p] => level p
  | .seq [] => .prim
  | .seq _ => .seq
  | .scope _ [p] => level p
  | .scope _ [] => .prim
  | .scope _ _ => .seq
  | .leftrec p _ => level p
  | .memo p _ => level p
  | .label _ _ => .term
  | .not _ => .term
  | .opt _ => .postfixed
  | .star _ => .postfixed
  | .plus _ => .postfixed
  | _ => .prim

/-- Whether a pattern prints as an action and nothing else. -/
def isAction : Pattern → Bool
  | .action _ => true
  | .choice [p] => isAction p
  | .seq [p] => isAction p
  | .scope _ [p] => isAction p
  | .leftrec p _ => isAction p
  | .memo p _ => isAction p
  | _ => false

/-- Whether a pattern is the empty one, alone in any number of choices and sequences. -/
def isEmpty : Pattern → Bool
  | .empty => true
  | .choice [p] => isEmpty p
  | .seq [p] => isEmpty p
  | _ => false

/-- The pattern inside the wrappers of left recursion and memoization. -/
def unwrapped : Pattern → Pattern
  | .leftrec p _ => unwrapped p
  | .memo p _ => unwrapped p
  | p => p

/-- A pair of parentheses with nothing inside. -/
def emptyGroup : Layout := [.sym .openParen, .sym .closeParen]

/-- The row of terms, which come with whether they are actions. -/
def joinTerms : List (Bool × Layout) → Layout
  | [] => []
  | [(_, row)] => row
  | (isAction, row) :: next :: rest =>
    (if isAction && next.2.startsWithParen then row.parens else row) ++ [.blank]
      ++ joinTerms (next :: rest)

/-- A row in parentheses if its pattern needs them. -/
def grouped (least : Level) (p : Pattern) (row : Layout) : Layout := p.level.grouped least row

/-- What is asked of the part that a pattern prints as. -/
def inside (least : Level) (p : Pattern) : Level := p.level.inside least

/-- What is asked of a pattern that a sign of repetition follows. -/
def innerLevel (p : Pattern) : Level := if isAction p then .choice else .prim

/-- The row of a pattern that a sign of repetition follows. -/
def repeatable (p : Pattern) (row : Layout) : Layout := if isAction p then row.parens else row

mutual

/-- The row of tokens of a pattern, in parentheses if it is looser than `least`. -/
def layout (least : Level) : Pattern → Layout
  | .choice [p] => grouped least (.choice [p]) (layout (inside least (.choice [p])) p)
  | .choice alts =>
    grouped least (.choice alts) (.joined [.blank, .sym .pipe, .blank] (layoutAlts alts))
  | .seq [p] => grouped least (.seq [p]) (layout (inside least (.seq [p])) p)
  | .seq ps => grouped least (.seq ps) (joinTerms (layoutTerms ps))
  | .scope r [p] => grouped least (.scope r [p]) (layout (inside least (.scope r [p])) p)
  | .scope r ps => grouped least (.scope r ps) (joinTerms (layoutTerms ps))
  | .leftrec p r => grouped least (.leftrec p r) (layout (inside least (.leftrec p r)) p)
  | .memo p r => grouped least (.memo p r) (layout (inside least (.memo p r)) p)
  | .label p name =>
    grouped least (.label p name) (layout .postfixed p ++ [.sym .colon, .name name])
  | .not p => grouped least (.not p) (.sym .tilde :: layout .term p)
  | .opt p => grouped least (.opt p) (repeatable p (layout (innerLevel p) p) ++ [.sym .question])
  | .star p => grouped least (.star p) (repeatable p (layout (innerLevel p) p) ++ [.sym .star])
  | .plus p => grouped least (.plus p) (repeatable p (layout (innerLevel p) p) ++ [.sym .plus])
  | .apply name => [.name name]
  | .lit text => [.token (.str text)]
  | .range lo hi =>
    [.token (.str (String.singleton lo)), .sym .dotDot, .token (.str (String.singleton hi))]
  | .paren p => if isEmpty p then emptyGroup else Layout.parens (layout .choice p)
  | .capture p =>
    Layout.between .openBrace .closeBrace (if isEmpty p then emptyGroup else layout .choice p)
  | .pred e => .sym .question :: Layout.parens e.layout
  | .eq e => .sym .equal :: Layout.between .openBrace .closeBrace e.layout
  | .action e => .sym .arrow :: .blank :: e.layout
  | .pos => [.sym .openBrace, .sym .closeBrace]
  | .empty => emptyGroup

/-- The rows of alternatives. -/
def layoutAlts : List Pattern → List Layout
  | [] => []
  | p :: ps => layout .seq p :: layoutAlts ps

/-- The rows of terms, with whether they are actions. -/
def layoutTerms : List Pattern → List (Bool × Layout)
  | [] => []
  | p :: ps => (isAction p, layout .term p) :: layoutTerms ps

end

/-- The text of a pattern. -/
def pretty (p : Pattern) : String := (layout .choice p).text

/-- The row of an alternative of a rule, which is blank if the alternative is empty. -/
def layoutAlternative (p : Pattern) : Layout :=
  match p.unwrapped with
  | .empty => []
  | q => layout .seq q

/-- The alternatives of a rule body. -/
def alternatives (body : Pattern) : List Pattern :=
  match body.unwrapped with
  | .choice alts => alts
  | p => [p]

end Pattern

/-! ## Rules -/

/-- The lines of a rule. -/
def ruleLines (name : String) (body : Pattern) : List Layout :=
  match body.alternatives.map Pattern.layoutAlternative with
  | [] => []
  | first :: others =>
    ([.name name, .blank, .sym .equal, .blank] ++ first) :: others.map fun row =>
      List.replicate (name.utf8ByteSize + 1) .blank ++ [.sym .pipe, .blank] ++ row

/-- The text of a rule, without blanks at the ends of its lines. -/
def prettyRule (name : String) (body : Pattern) : String :=
  String.join ((ruleLines name body).map fun row => trimBlanksRight row.text ++ "\n")

/-- The text of rules. -/
def Bodies.pretty (bodies : Bodies) : String :=
  String.join (bodies.map fun b => prettyRule b.1 b.2)

/-- The text of a rule set. -/
def RuleSet.pretty (rs : RuleSet) : String := Bodies.pretty rs.definitions

/-- The text of a grammar. -/
def Grammar.pretty (g : Grammar) : String := Bodies.pretty g.bodies

end Pegboard
