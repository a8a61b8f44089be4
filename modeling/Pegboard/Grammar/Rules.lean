import Pegboard.Grammar.Pattern
import Pegboard.Text.Span

/-!
# Rule sets and grammars

A `RuleSet` is what an author writes: rules in order, each with a name and a body, and nothing
checked yet.  A `Grammar` is what runs: its bodies are normalized, and it knows which of its rules
associate to the left.  Both keep the order of the rules, for the first of them is where matching
starts.

## Main Definitions

* `Rule`, `RuleSet`: rules as they were written or decoded.
* `Grammar`: normalized rules.
* `BuiltinRule`: the rules that need no definition.
-/

namespace Pegboard

/-! ## Builtin rules -/

/-- The rules that every grammar may apply without defining them. -/
inductive BuiltinRule where
  /-- Any one character. -/
  | anything
  /-- The end of the input. -/
  | «end»
  /-- A digit from `0` to `9`. -/
  | digit
  /-- An alphabetic character. -/
  | letter
  deriving DecidableEq, Repr, Inhabited

namespace BuiltinRule

/-- The name of a builtin rule. -/
def name : BuiltinRule → String
  | .anything => "anything"
  | .end => "end"
  | .digit => "digit"
  | .letter => "letter"

/-- All builtin rules. -/
def all : List BuiltinRule := [.anything, .end, .digit, .letter]

/-- The builtin rule of a name. -/
def ofName? (name : String) : Option BuiltinRule := all.find? (·.name == name)

/-- Whether a builtin rule has the name `name`. -/
def isName (name : String) : Bool := (ofName? name).isSome

theorem ofName?_name (b : BuiltinRule) : ofName? b.name = some b := by
  cases b <;> decide

end BuiltinRule

/-! ## Rules as written -/

/-- A rule as it was written: its name, its body, and where the name stands. -/
structure Rule where
  name : String
  body : Pattern
  /-- The place of the name in the text; `Span.origin` if the rule was not read from text. -/
  span : Span
  deriving Inhabited

/-- The rules of a grammar in the order in which they were written. -/
structure RuleSet where
  rules : List Rule
  deriving Inhabited

namespace RuleSet

/-- The names of the rules, in order. -/
def names (rs : RuleSet) : List String := rs.rules.map (·.name)

/-- The first rule of a name. -/
def find? (rs : RuleSet) (name : String) : Option Rule := rs.rules.find? (·.name == name)

/-- Where the rules of a name were defined, in order. -/
def spansOf (rs : RuleSet) (name : String) : List Span :=
  (rs.rules.filter (·.name == name)).map (·.span)

/-- Names and bodies, without the places in the text. -/
def definitions (rs : RuleSet) : List (String × Pattern) :=
  rs.rules.map fun r => (r.name, r.body)

/-- The rule set of names and bodies that come from no text. -/
def ofDefinitions (definitions : List (String × Pattern)) : RuleSet :=
  ⟨definitions.map fun d => ⟨d.1, d.2, .origin⟩⟩

/-- Whether two rule sets have the same names and bodies in the same order. -/
def sameDefinitions (rs other : RuleSet) : Bool := rs.definitions == other.definitions

theorem definitions_ofDefinitions (definitions : List (String × Pattern)) :
    (ofDefinitions definitions).definitions = definitions := by
  simp [RuleSet.definitions, ofDefinitions, Function.comp_def]

end RuleSet

/-! ## Grammars -/

/-- Names and bodies of rules, in order. -/
abbrev Bodies := List (String × Pattern)

namespace Bodies

/-- The body of the first rule of a name. -/
def body? (bodies : Bodies) (name : String) : Option Pattern :=
  (bodies.find? (·.1 == name)).map (·.2)

end Bodies

/-- A grammar that is ready to run. -/
structure Grammar where
  /-- The rules, in order. -/
  bodies : Bodies
  /-- The left-recursive rules that associate to the left. -/
  leftAssoc : List String
  deriving Inhabited

namespace Grammar

/-- The name of the rule where matching starts. -/
def start (g : Grammar) : String := (g.bodies.head?.map (·.1)).getD ""

/-- The body of a rule. -/
def body? (g : Grammar) (name : String) : Option Pattern := Bodies.body? g.bodies name

/-- Whether a rule associates to the left. -/
def isLeftAssoc (g : Grammar) (name : String) : Bool := g.leftAssoc.contains name

/-- The rules of a grammar as a rule set. -/
def toRuleSet (g : Grammar) : RuleSet := .ofDefinitions g.bodies

end Grammar

end Pegboard
