import Pegboard.Grammar.Tag

/-!
# What a pattern mentions

The rules, literals, labels and variables of a pattern, in the order in which reading it from left
to right meets them, outer patterns before inner ones.

## Main Definitions

* `Pattern.mentions`: everything that is mentioned, in order.
* `Pattern.applied`, `Pattern.variableNames`, `Pattern.labels`: the names of one kind among it.
-/

namespace Pegboard

/-- Something that a pattern mentions. -/
inductive Mention where
  | apply (name : String)
  | lit (text : String)
  | range (lo hi : Char)
  /-- A pattern with one part, by the tags of both. -/
  | wrapper (outer inner : Tag)
  | label (name : String)
  | variable (name : String)
  deriving DecidableEq, Repr, Inhabited

namespace Mention

/-- The name of a rule that is applied. -/
def appliedName? : Mention → Option String
  | .apply name => some name
  | _ => none

/-- The name of a label. -/
def labelName? : Mention → Option String
  | .label name => some name
  | _ => none

/-- The name of a variable. -/
def variableName? : Mention → Option String
  | .variable name => some name
  | _ => none

end Mention

/-- What an expression mentions: variables only. -/
def Expr.mentions (e : Expr) : List Mention := e.variableNames.map .variable

namespace Pattern

mutual

/-- What a pattern mentions, in order. -/
def mentions : Pattern → List Mention
  | .choice alts => mentionsAll alts
  | .seq ps => mentionsAll ps
  | .scope _ ps => mentionsAll ps
  | .label p name => .label name :: mentions p
  | .leftrec p _ => mentions p
  | .memo p _ => mentions p
  | .apply name => [.apply name]
  | .lit text => [.lit text]
  | .range lo hi => [.range lo hi]
  | .not p => .wrapper .not p.tag :: mentions p
  | .opt p => .wrapper .opt p.tag :: mentions p
  | .star p => .wrapper .star p.tag :: mentions p
  | .plus p => .wrapper .plus p.tag :: mentions p
  | .paren p => .wrapper .paren p.tag :: mentions p
  | .capture p => .wrapper .capture p.tag :: mentions p
  | .pred e => e.mentions
  | .eq e => e.mentions
  | .action e => e.mentions
  | .pos => []
  | .empty => []

/-- What the patterns of a list mention, in order. -/
def mentionsAll : List Pattern → List Mention
  | [] => []
  | p :: ps => mentions p ++ mentionsAll ps

end

theorem mentionsAll_eq_flatMap (ps : List Pattern) : mentionsAll ps = ps.flatMap mentions := by
  induction ps with
  | nil => rfl
  | cons p ps ih => simp [mentionsAll, ih]

/-- The names of the rules that a pattern applies, builtin rules among them. -/
def applied (p : Pattern) : List String := p.mentions.filterMap Mention.appliedName?

/-- The names that the labels of a pattern bind. -/
def labels (p : Pattern) : List String := p.mentions.filterMap Mention.labelName?

/-- The names that the expressions of a pattern mention. -/
def variableNames (p : Pattern) : List String := p.mentions.filterMap Mention.variableName?

/-- Whether there is a label anywhere in a pattern. -/
def hasLabel (p : Pattern) : Bool := !p.labels.isEmpty

end Pattern

end Pegboard
