import Pegboard.Diagnostic
import Pegboard.Grammar.Rules
import Pegboard.Text.Quoted

/-!
# Alternatives that can never match

A choice commits to the first alternative that matches.  A literal alternative is never tried on an
input that it could match if an earlier alternative is a literal and a prefix of it: the earlier one
matches there first.

## Main Definitions

* `Pattern.literal?`: the literal that an alternative amounts to.
* `Shadowing.of?`: the earlier literal that shadows an alternative, if there is one.
* `Pattern.shadowings`: all shadowed alternatives of a pattern.
* `RuleSet.lintShadowed`: a warning for each of them.
-/

namespace Pegboard

namespace Pattern

/-- The literal that a pattern amounts to, seen through groups of one. -/
def literal? : Pattern → Option String
  | .lit text => some text
  | .seq [p] => literal? p
  | .choice [p] => literal? p
  | .paren p => literal? p
  | _ => none

end Pattern

/-- A literal alternative with the earlier one that always matches first. -/
structure Shadowing where
  /-- The literal that is tried first. -/
  earlier : String
  /-- The literal that can never match. -/
  later : String
  deriving DecidableEq, Repr, Inhabited

namespace Shadowing

/-- How an alternative is shadowed by one of the alternatives before it: by the first literal among
them that is a prefix. -/
def of? (before : List Pattern) (alt : Pattern) : Option Shadowing := do
  let later ← alt.literal?
  let earlier ← (before.filterMap Pattern.literal?).find? (·.toList.isPrefixOf later.toList)
  pure ⟨earlier, later⟩

/-- The shadowed ones among the alternatives `alts` of a choice that come after `before`. -/
def among (before : List Pattern) : List Pattern → List Shadowing
  | [] => []
  | alt :: alts => (of? before alt).toList ++ among (before ++ [alt]) alts

/-- The warning about a shadowed alternative of a rule. -/
def diagnostic (rule : Rule) (s : Shadowing) : Diagnostic :=
  ((Diagnostic.warning rule.span "Unreachable alternative" .shadowedAlternative
    (some (Quoted.literal s.later ++ " in rule `" ++ rule.name ++ "` can never match"))).withNote
    (Quoted.literal s.earlier ++ " is a prefix of " ++ Quoted.literal s.later
      ++ " and is tried first")).withHelp
    "consider placing the longer literal first"

end Shadowing

namespace Pattern

mutual

/-- The shadowed alternatives of all choices in a pattern, outer choices before inner ones. -/
def shadowings : Pattern → List Shadowing
  | .choice alts => Shadowing.among [] alts ++ shadowingsAll alts
  | .seq ps => shadowingsAll ps
  | .scope _ ps => shadowingsAll ps
  | .label p _ => shadowings p
  | .leftrec p _ => shadowings p
  | .memo p _ => shadowings p
  | .not p => shadowings p
  | .opt p => shadowings p
  | .star p => shadowings p
  | .plus p => shadowings p
  | .paren p => shadowings p
  | .capture p => shadowings p
  | .apply _ => []
  | .lit _ => []
  | .range _ _ => []
  | .pred _ => []
  | .eq _ => []
  | .action _ => []
  | .pos => []
  | .empty => []

/-- The shadowed alternatives of all choices in the patterns of a list. -/
def shadowingsAll : List Pattern → List Shadowing
  | [] => []
  | p :: ps => shadowings p ++ shadowingsAll ps

end

theorem shadowingsAll_eq_flatMap (ps : List Pattern) :
    shadowingsAll ps = ps.flatMap shadowings := by
  induction ps with
  | nil => rfl
  | cons p ps ih => simp [shadowingsAll, ih]

end Pattern

namespace RuleSet

/-- A warning for every shadowed alternative, rule by rule. -/
def lintShadowed (rs : RuleSet) : List Diagnostic :=
  rs.rules.flatMap fun rule => rule.body.shadowings.map (Shadowing.diagnostic rule)

end RuleSet

end Pegboard
