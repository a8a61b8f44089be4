import Pegboard.Lint.Shadowed
import Pegboard.Lint.Unused

/-!
# Lints

Lints look at rules as they were written and warn about what is legal but unlikely to be meant.
They never keep a grammar from running.
-/

namespace Pegboard

/-- All warnings about a rule set: the shadowed alternatives, then the unused rules. -/
def RuleSet.lint (rs : RuleSet) : List Diagnostic := rs.lintShadowed ++ rs.lintUnused

end Pegboard
