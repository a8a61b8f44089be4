import Pegboard.Grammar.Mention

/-!
# Positional variables

The terms of a sequence may be referred to by later ones as `_1`, `_2`, and so on, by their
positions.  A term that is referred to gets a label of that name, and a sequence with such a term
becomes a scope.
-/

namespace Pegboard

/-- The variable that refers to the term at a position, which is counted from one. -/
def positionalName (position : Nat) : String := "_" ++ toString position

namespace Pattern

/-- Whether a pattern is a label of the given name. -/
def isLabelNamed (name : String) : Pattern → Bool
  | .label _ bound => bound == name
  | _ => false

/-- Whether the term at a position needs a label: a later term refers to it, and it has not the
label yet. -/
def needsLabel (position : Nat) (term : Pattern) (later : List Pattern) : Bool :=
  let name := positionalName position
  later.any (·.variableNames.contains name) && !term.isLabelNamed name

/-- Labels terms that later ones refer to, the first of them being at the given position. -/
def labelTerms (position : Nat) : List Pattern → List Pattern
  | [] => []
  | term :: later =>
    (if needsLabel position term later then .label term (positionalName position) else term)
      :: labelTerms (position + 1) later

/-- Whether any term needs a label. -/
def anyNeedsLabel (position : Nat) : List Pattern → Bool
  | [] => false
  | term :: later => needsLabel position term later || anyNeedsLabel (position + 1) later

/-- Labels the terms of a sequence or a scope. -/
def positionalNode (rule : String) : Pattern → Pattern
  | .seq ps => if anyNeedsLabel 1 ps then .scope rule (labelTerms 1 ps) else .seq ps
  | .scope owner ps => .scope owner (labelTerms 1 ps)
  | p => p

/-- Labels what positional variables in the body of a rule refer to. -/
def insertPositional (rule : String) (body : Pattern) : Pattern :=
  body.rebuild (positionalNode rule)

end Pattern

end Pegboard
