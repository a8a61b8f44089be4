import Pegboard.Grammar.Rules
import Pegboard.Text.Outline
import Pegboard.Text.Quoted

/-!
# Outlines of grammars

The structure of rule sets and grammars, for inspection.
-/

namespace Pegboard

/-- The outline of a string. -/
def Outline.string (s : String) : Outline := .leaf (Quoted.debugString s)

/-- The outline of a number. -/
def Outline.nat (n : Nat) : Outline := .leaf (toString n)

mutual

/-- The outline of an expression. -/
def Expr.outline : Expr → Outline
  | .var name => .form "Var" [.string name]
  | .dec digits => .form "Dec" [.string digits]
  | .hex digits => .form "Hex" [.string digits]
  | .str text => .form "Str" [.string text]
  | .plus lhs rhs => .form "Plus" [lhs.outline, rhs.outline]
  | .qual base suffixes => .form "Qual" [base.outline, .list (Suffix.outlineAll suffixes)]
  | .arr items => .form "Arr" [.list (Expr.outlineAll items)]

/-- The outline of a suffix. -/
def Suffix.outline : Suffix → Outline
  | .item index => .form "GetItem" [index.outline]
  | .call args => .form "Call" [.list (Expr.outlineAll args)]
  | .attr name => .form "GetAttr" [.string name]

/-- The outlines of a list of expressions. -/
def Expr.outlineAll : List Expr → List Outline
  | [] => []
  | e :: es => e.outline :: Expr.outlineAll es

/-- The outlines of a list of suffixes. -/
def Suffix.outlineAll : List Suffix → List Outline
  | [] => []
  | s :: ss => s.outline :: Suffix.outlineAll ss

end

namespace Pattern

/-- The outline of a pattern with one part and a rule name. -/
def outlineWrapped (form : String) (inner : Outline) (rule : String) : Outline :=
  .record form [("inner", inner), ("rule", .string rule)]

mutual

/-- The outline of a pattern. -/
def outline : Pattern → Outline
  | .choice alts => .form "Choice" [.list (outlineAll alts)]
  | .seq ps => .form "Seq" [.list (outlineAll ps)]
  | .scope rule ps => .record "Scope" [("rule", .string rule), ("terms", .list (outlineAll ps))]
  | .label p name => .record "Label" [("inner", outline p), ("name", .string name)]
  | .leftrec p rule => outlineWrapped "Leftrec" (outline p) rule
  | .memo p rule => outlineWrapped "Memo" (outline p) rule
  | .apply name => .form "Apply" [.string name]
  | .lit text => .form "Lit" [.string text]
  | .range lo hi =>
    .form "Range" [.leaf (Quoted.debugCharacter lo), .leaf (Quoted.debugCharacter hi)]
  | .not p => .form "Not" [outline p]
  | .opt p => .form "Opt" [outline p]
  | .star p => .form "Star" [outline p]
  | .plus p => .form "Plus" [outline p]
  | .paren p => .form "Paren" [outline p]
  | .capture p => .form "Capture" [outline p]
  | .pred e => .form "Pred" [e.outline]
  | .eq e => .form "Eq" [e.outline]
  | .action e => .form "Action" [e.outline]
  | .pos => .leaf "Pos"
  | .empty => .leaf "Empty"

/-- The outlines of a list of patterns. -/
def outlineAll : List Pattern → List Outline
  | [] => []
  | p :: ps => outline p :: outlineAll ps

end

end Pattern

/-- The outline of a span. -/
def Span.outline (s : Span) : Outline := .record "Span" [("lo", .nat s.lo), ("hi", .nat s.hi)]

/-- The outline of a rule. -/
def Rule.outline (r : Rule) : Outline :=
  .record "RuleDef"
    [("name", .string r.name), ("body", r.body.outline), ("span", r.span.outline)]

/-- The outline of a rule set. -/
def RuleSet.outline (rs : RuleSet) : Outline :=
  .record "RuleSet" [("rules", .list (rs.rules.map Rule.outline))]

/-- The outline of a grammar.  A rule that is named as left-associative more than once is listed
once. -/
def Grammar.outline (g : Grammar) : Outline :=
  .record "Grammar"
    [("rules", .table (g.bodies.map fun b => (Quoted.debugString b.1, some b.2.outline))),
      ("left_assoc",
        .table (g.leftAssoc.eraseDups.map fun name => (Quoted.debugString name, none)))]

end Pegboard
