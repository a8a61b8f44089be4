import Pegboard.Normalize.Validate
import Pegboard.Normalize.Scopes
import Pegboard.Normalize.LeftRecursion
import Pegboard.Normalize.Positional
import Pegboard.Normalize.Simplify
import Pegboard.Normalize.Memo

/-!
# Normalization

Normalization makes a grammar that can run out of rules as they were written.  It checks the rules
as a whole and then changes every body, in this order:

1. sequences with labels become scopes (`Pattern.insertScopes`);
2. bodies of left-recursive rules are wrapped (`Bodies.leftRecursive`);
3. terms that positional variables refer to are labelled (`Pattern.insertPositional`);
4. groups that mean no more than what is inside them go (`Pattern.simplify`);
5. on request, bodies whose outcomes may be kept are wrapped (`Bodies.memoizable`).
-/

namespace Pegboard

/-- What may be asked of normalization. -/
structure NormalizeOptions where
  /-- Whether to keep the outcomes of rules that are not left-recursive and do not depend on the
  bindings of whoever applies them. -/
  memoize : Bool
  /-- The left-recursive rules that are to associate to the left. -/
  leftAssoc : List String
  deriving DecidableEq, Repr, Inhabited

namespace NormalizeOptions

/-- No memoization, and no rule that associates to the left. -/
def default : NormalizeOptions := ⟨false, []⟩

end NormalizeOptions

namespace Bodies

/-- The body of a rule, wrapped if the rule is left-recursive. -/
def wrapLeftRecursive (recursive : List String) (rule : String) (body : Pattern) : Pattern :=
  if recursive.contains rule then .leftrec body rule else body

/-- The body of a rule after the passes that look at one body at a time. -/
def finishBody (recursive : List String) (rule : String) (body : Pattern) : Pattern :=
  ((wrapLeftRecursive recursive rule body).insertPositional rule).simplify

/-- The body of a rule, wrapped if its outcomes may be kept. -/
def wrapMemo (memoizable : List String) (rule : String) (body : Pattern) : Pattern :=
  match body with
  | .leftrec _ _ => body
  | body => if memoizable.contains rule then .memo body rule else body

/-- Every body changed by a function of its rule. -/
def mapBodies (f : String → Pattern → Pattern) (bodies : Bodies) : Bodies :=
  bodies.map fun b => (b.1, f b.1 b.2)

/-- Wraps the bodies whose outcomes may be kept. -/
def memoize (bodies : Bodies) : Bodies := bodies.mapBodies (wrapMemo bodies.memoizable)

end Bodies

namespace RuleSet

/-- The bodies of rules with scopes put in. -/
def scopedBodies (rs : RuleSet) : Bodies := Bodies.mapBodies Pattern.insertScopes rs.definitions

/-- The bodies of rules after all passes but memoization. -/
def finished (rs : RuleSet) : Bodies :=
  rs.scopedBodies.mapBodies (Bodies.finishBody rs.scopedBodies.leftRecursive)

/-- The grammar that rules stand for. -/
def normalize (rs : RuleSet) (options : NormalizeOptions) : Except GrammarError Grammar := do
  rs.validate
  let recursive := rs.scopedBodies.leftRecursive
  match options.leftAssoc.find? fun name => !recursive.contains name with
  | some name => throw (.unknownLeftAssocRule name)
  | none =>
    let bodies := if options.memoize then rs.finished.memoize else rs.finished
    pure ⟨bodies, options.leftAssoc⟩

end RuleSet

end Pegboard
