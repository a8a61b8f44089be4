import Pegboard.Grammar.Pattern

/-!
# Simplification

Parentheses, and choices and sequences of a single part, mean no more than what is inside them.  A
sequence of nothing is the empty pattern.
-/

namespace Pegboard.Pattern

/-- Replaces a group of one part by the part. -/
def simplifyNode : Pattern → Pattern
  | .choice [p] => p
  | .seq [p] => p
  | .seq [] => .empty
  | .paren p => p
  | p => p

/-- Removes groups that mean no more than what is inside them. -/
def simplify (p : Pattern) : Pattern := p.rebuild simplifyNode

end Pegboard.Pattern
