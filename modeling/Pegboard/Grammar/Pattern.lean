import Pegboard.Grammar.Expr

/-!
# Patterns

A `Pattern` says what a rule of a grammar matches: literals, ranges and other rules, put together
by ordered choice, sequence, repetition and lookahead.

Three forms are not written by a grammar's author but inserted when a grammar is normalized: a
`scope`, which is a sequence with bindings of its own, and the wrappers `leftrec` and `memo`, which
say that a rule body grows by left recursion or that its outcomes are kept.

## Main Definitions

* `Pattern`: the patterns.
* `Pattern.rebuild`: rebuild a pattern from its leaves, applying a function to every node once its
  parts are rebuilt.
* `Pattern.mentions`: what a pattern mentions, from left to right.
-/

namespace Pegboard

/-- What a rule matches. -/
inductive Pattern where
  /-- The first of the alternatives that matches. -/
  | choice (alts : List Pattern)
  /-- All terms, one after the other. -/
  | seq (terms : List Pattern)
  /-- A sequence of the rule `rule` with bindings of its own. -/
  | scope (rule : String) (terms : List Pattern)
  /-- Binds the value of `inner` to `name` in the innermost scope. -/
  | label (inner : Pattern) (name : String)
  /-- The body of the left-recursive rule `rule`. -/
  | leftrec (inner : Pattern) (rule : String)
  /-- The body of the rule `rule`, whose outcomes are kept. -/
  | memo (inner : Pattern) (rule : String)
  /-- What the rule `name` matches, or the builtin rule of that name. -/
  | apply (name : String)
  | lit (text : String)
  /-- One character from `lo` to `hi`, both included. -/
  | range (lo hi : Char)
  /-- Succeeds, at the same place, where `inner` fails. -/
  | not (inner : Pattern)
  | opt (inner : Pattern)
  | star (inner : Pattern)
  | plus (inner : Pattern)
  /-- A pattern in parentheses. -/
  | paren (inner : Pattern)
  /-- The text that `inner` matches. -/
  | capture (inner : Pattern)
  /-- Succeeds if the expression is true. -/
  | pred (expr : Expr)
  /-- Matches the string that the expression denotes. -/
  | eq (expr : Expr)
  /-- The value of the expression. -/
  | action (expr : Expr)
  /-- The current offset. -/
  | pos
  /-- Matches nothing, everywhere. -/
  | empty
  deriving Inhabited

namespace Pattern

/-- The terms of a sequence or a scope. -/
def terms? : Pattern → Option (List Pattern)
  | .seq terms => some terms
  | .scope _ terms => some terms
  | _ => none

/-! ## Rebuilding -/

mutual

/-- Rebuilds a pattern from its leaves, applying `f` to every node once its parts are rebuilt. -/
def rebuild (f : Pattern → Pattern) : Pattern → Pattern
  | .choice alts => f (.choice (rebuildAll f alts))
  | .seq terms => f (.seq (rebuildAll f terms))
  | .scope rule terms => f (.scope rule (rebuildAll f terms))
  | .label inner name => f (.label (rebuild f inner) name)
  | .leftrec inner rule => f (.leftrec (rebuild f inner) rule)
  | .memo inner rule => f (.memo (rebuild f inner) rule)
  | .apply name => f (.apply name)
  | .lit text => f (.lit text)
  | .range lo hi => f (.range lo hi)
  | .not inner => f (.not (rebuild f inner))
  | .opt inner => f (.opt (rebuild f inner))
  | .star inner => f (.star (rebuild f inner))
  | .plus inner => f (.plus (rebuild f inner))
  | .paren inner => f (.paren (rebuild f inner))
  | .capture inner => f (.capture (rebuild f inner))
  | .pred expr => f (.pred expr)
  | .eq expr => f (.eq expr)
  | .action expr => f (.action expr)
  | .pos => f .pos
  | .empty => f .empty

/-- Rebuilds every pattern of a list. -/
def rebuildAll (f : Pattern → Pattern) : List Pattern → List Pattern
  | [] => []
  | p :: ps => rebuild f p :: rebuildAll f ps

end

theorem rebuildAll_eq_map (f : Pattern → Pattern) (ps : List Pattern) :
    rebuildAll f ps = ps.map (rebuild f) := by
  induction ps with
  | nil => rfl
  | cons p ps ih => simp [rebuildAll, ih]

mutual

/-- Rebuilding with nothing to change gives the same pattern. -/
theorem rebuild_id : ∀ p : Pattern, rebuild id p = p
  | .choice alts => by simp [rebuild, rebuildAll_id alts]
  | .seq terms => by simp [rebuild, rebuildAll_id terms]
  | .scope _ terms => by simp [rebuild, rebuildAll_id terms]
  | .label inner _ => by simp [rebuild, rebuild_id inner]
  | .leftrec inner _ => by simp [rebuild, rebuild_id inner]
  | .memo inner _ => by simp [rebuild, rebuild_id inner]
  | .apply _ => rfl
  | .lit _ => rfl
  | .range _ _ => rfl
  | .not inner => by simp [rebuild, rebuild_id inner]
  | .opt inner => by simp [rebuild, rebuild_id inner]
  | .star inner => by simp [rebuild, rebuild_id inner]
  | .plus inner => by simp [rebuild, rebuild_id inner]
  | .paren inner => by simp [rebuild, rebuild_id inner]
  | .capture inner => by simp [rebuild, rebuild_id inner]
  | .pred _ => rfl
  | .eq _ => rfl
  | .action _ => rfl
  | .pos => rfl
  | .empty => rfl

theorem rebuildAll_id : ∀ ps : List Pattern, rebuildAll id ps = ps
  | [] => rfl
  | p :: ps => by simp [rebuildAll, rebuild_id p, rebuildAll_id ps]

end

/-! ## Equality -/

mutual

/-- Whether two patterns are the same. -/
def same : Pattern → Pattern → Bool
  | .choice as, .choice bs => sameAll as bs
  | .seq as, .seq bs => sameAll as bs
  | .scope r as, .scope s bs => r == s && sameAll as bs
  | .label a m, .label b n => same a b && m == n
  | .leftrec a m, .leftrec b n => same a b && m == n
  | .memo a m, .memo b n => same a b && m == n
  | .apply a, .apply b => a == b
  | .lit a, .lit b => a == b
  | .range a b, .range c d => a == c && b == d
  | .not a, .not b => same a b
  | .opt a, .opt b => same a b
  | .star a, .star b => same a b
  | .plus a, .plus b => same a b
  | .paren a, .paren b => same a b
  | .capture a, .capture b => same a b
  | .pred a, .pred b => a.same b
  | .eq a, .eq b => a.same b
  | .action a, .action b => a.same b
  | .pos, .pos => true
  | .empty, .empty => true
  | _, _ => false

/-- Whether two lists hold the same patterns in the same order. -/
def sameAll : List Pattern → List Pattern → Bool
  | [], [] => true
  | a :: as, b :: bs => same a b && sameAll as bs
  | _, _ => false

end

mutual

theorem same_iff : ∀ a b : Pattern, same a b = true ↔ a = b
  | .choice as, b => by cases b <;> simp [same, sameAll_iff as]
  | .seq as, b => by cases b <;> simp [same, sameAll_iff as]
  | .scope _ as, b => by cases b <;> simp [same, sameAll_iff as]
  | .label a _, b => by cases b <;> simp [same, same_iff a]
  | .leftrec a _, b => by cases b <;> simp [same, same_iff a]
  | .memo a _, b => by cases b <;> simp [same, same_iff a]
  | .apply _, b => by cases b <;> simp [same]
  | .lit _, b => by cases b <;> simp [same]
  | .range _ _, b => by cases b <;> simp [same]
  | .not a, b => by cases b <;> simp [same, same_iff a]
  | .opt a, b => by cases b <;> simp [same, same_iff a]
  | .star a, b => by cases b <;> simp [same, same_iff a]
  | .plus a, b => by cases b <;> simp [same, same_iff a]
  | .paren a, b => by cases b <;> simp [same, same_iff a]
  | .capture a, b => by cases b <;> simp [same, same_iff a]
  | .pred a, b => by cases b <;> simp [same, Expr.same_iff a]
  | .eq a, b => by cases b <;> simp [same, Expr.same_iff a]
  | .action a, b => by cases b <;> simp [same, Expr.same_iff a]
  | .pos, b => by cases b <;> simp [same]
  | .empty, b => by cases b <;> simp [same]

theorem sameAll_iff : ∀ as bs : List Pattern, sameAll as bs = true ↔ as = bs
  | [], bs => by cases bs <;> simp [sameAll]
  | a :: as, bs => by cases bs <;> simp [sameAll, same_iff a, sameAll_iff as]

end

/-- Equality of patterns is decidable. -/
instance decEq : DecidableEq Pattern := fun a b =>
  decidable_of_iff _ (same_iff a b)

end Pattern

end Pegboard
