import Pegboard.Diagnostic
import Pegboard.Grammar.Mention
import Pegboard.Grammar.Rules

/-!
# Rules that are never applied

Matching starts at the first rule, so any other rule is of use only if another rule applies it.  A
rule that is applied by nothing but itself is not used either.

## Main Definitions

* `RuleSet.usedNames`: the names that are applied by rules of other names.
* `RuleSet.unused`: the rules, the first aside, that are not among them.
* `RuleSet.lintUnused`: a warning for each of them.
-/

namespace Pegboard

/-- The warning about a rule that is not used. -/
def Rule.unusedDiagnostic (rule : Rule) : Diagnostic :=
  (Diagnostic.warning rule.span "Unused rule" .unusedRule
    (some ("rule `" ++ rule.name ++ "` is never applied"))).withHelp
    "remove the rule, or apply it from another rule"

namespace RuleSet

/-- The names that rules of other names apply. -/
def usedNames (rs : RuleSet) : List String :=
  rs.rules.flatMap fun rule => rule.body.applied.filter (· != rule.name)

/-- The rules after the first that no rule of another name applies. -/
def unused (rs : RuleSet) : List Rule :=
  let used := rs.usedNames
  (rs.rules.drop 1).filter fun rule => !used.contains rule.name

/-- A warning for every rule that is not used. -/
def lintUnused (rs : RuleSet) : List Diagnostic := rs.unused.map Rule.unusedDiagnostic

end RuleSet

end Pegboard
