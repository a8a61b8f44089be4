import Pegboard.Grammar.Mention

/-!
# Label scopes

A sequence with a label anywhere in it becomes a scope, so that what a rule binds is its own.  An
alternative with a label that is no sequence becomes a scope of one term.
-/

namespace Pegboard.Pattern

/-- An alternative with a label, as a scope. -/
def scopeAlternative (rule : String) (alt : Pattern) : Pattern :=
  match alt with
  | .seq _ => alt
  | .scope _ _ => alt
  | alt => if alt.hasLabel then .scope rule [alt] else alt

/-- Makes a scope of a sequence with a label, and of the alternatives of a choice that have one. -/
def scopeNode (rule : String) : Pattern → Pattern
  | .seq ps => if ps.any hasLabel then .scope rule ps else .seq ps
  | .choice alts => .choice (alts.map (scopeAlternative rule))
  | p => p

/-- Puts scopes into the body of a rule. -/
def insertScopes (rule : String) (body : Pattern) : Pattern :=
  match body.rebuild (scopeNode rule) with
  | .choice alts => .choice alts
  | p => scopeAlternative rule p

end Pegboard.Pattern
