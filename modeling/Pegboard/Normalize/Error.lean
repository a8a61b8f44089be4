import Pegboard.Grammar.Rules
import Pegboard.Diagnostic

/-!
# What is wrong with a grammar as a whole

The reasons why rules cannot be normalized, with the diagnostic that tells each.
-/

namespace Pegboard

/-- Why rules cannot be normalized. -/
inductive GrammarError where
  | emptyGrammar
  | duplicateRule (name : String)
  | unresolvedRule (rule reference : String)
  | unknownLeftAssocRule (name : String)
  deriving DecidableEq, Repr, Inhabited

namespace GrammarError

/-- The wording of an error. -/
def message : GrammarError → String
  | .emptyGrammar => "grammar has no rules"
  | .duplicateRule name => "rule `" ++ name ++ "` is defined more than once"
  | .unresolvedRule rule reference =>
    "rule `" ++ rule ++ "` references undefined rule `" ++ reference ++ "`"
  | .unknownLeftAssocRule name => "`" ++ name ++ "` is not a left-recursive rule"

/-- The diagnostic code of an error. -/
def code : GrammarError → Code
  | .emptyGrammar => .noRules
  | .duplicateRule _ => .duplicateRule
  | .unresolvedRule _ _ => .undefinedRule
  | .unknownLeftAssocRule _ => .notLeftRecursive

/-- The diagnostic that tells an error, at the places where the rules that it names are defined: of
a rule that is defined twice, at the second place, with a note at the first. -/
def diagnostic (rs : RuleSet) : GrammarError → Diagnostic
  | .emptyGrammar =>
    (Diagnostic.error .origin "Grammar has no rules" .noRules none).withHelp
      "define a starting rule, for example `start = 'a'*`"
  | .duplicateRule name =>
    let spans := rs.spansOf name
    let first := spans[0]?.getD .origin
    let second := spans[1]?.getD first
    (Diagnostic.error second ("Rule `" ++ name ++ "` is defined more than once") .duplicateRule
      (some "redefined here")).withSpannedNote first "first defined here"
  | .unresolvedRule rule reference =>
    .error ((rs.spansOf rule)[0]?.getD .origin)
      ("Rule `" ++ rule ++ "` references undefined rule `" ++ reference ++ "`") .undefinedRule
      (some ("`" ++ reference ++ "` is referenced in this rule"))
  | .unknownLeftAssocRule name =>
    .error .origin ("`" ++ name ++ "` is not a left-recursive rule") .notLeftRecursive none

end GrammarError

end Pegboard
