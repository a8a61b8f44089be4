import Pegboard.Normalize.Error
import Pegboard.Grammar.Mention

/-!
# Validation

Before anything is changed, rules are checked as a whole: there is at least one, no name is
defined twice, and every name that is applied is that of a rule or a builtin rule.
-/

namespace Pegboard

/-- The first name of a list that occurs earlier in it. -/
def firstRepeated? (seen : List String) : List String → Option String
  | [] => none
  | name :: rest => if seen.contains name then some name else firstRepeated? (name :: seen) rest

/-- The least name of a list, in the order of code points. -/
def leastName? : List String → Option String
  | [] => none
  | name :: rest =>
    match leastName? rest with
    | none => some name
    | some least => some (if name ≤ least then name else least)

namespace RuleSet

/-- The names that a rule applies although they are defined nowhere. -/
def unresolved (rs : RuleSet) (r : Rule) : List String :=
  r.body.applied.filter fun name => !rs.names.contains name && !BuiltinRule.isName name

/-- The first rule that applies an undefined name, with the least such name. -/
def firstUnresolved? (rs : RuleSet) : Option (String × String) :=
  rs.rules.findSome? fun r => (leastName? (rs.unresolved r)).map (r.name, ·)

/-- Checks rules as a whole. -/
def validate (rs : RuleSet) : Except GrammarError Unit :=
  if rs.rules.isEmpty then throw .emptyGrammar
  else
    match firstRepeated? [] rs.names with
    | some name => throw (.duplicateRule name)
    | none =>
      match rs.firstUnresolved? with
      | some (rule, reference) => throw (.unresolvedRule rule reference)
      | none => pure ()

end RuleSet

end Pegboard
