import Pegboard.Grammar.Pattern

/-!
# Tags

Every form of pattern, expression and suffix has a tag, by which the interchange form names it.
-/

namespace Pegboard

/-! ## Patterns -/

/-- The forms of pattern. -/
inductive Tag where
  | choice | seq | scope | label | leftrec | memo | apply | lit | range | not | opt | star | plus
  | paren | capture | pred | eq | action | pos | empty
  deriving DecidableEq, Repr, Inhabited

namespace Tag

/-- The text of a tag. -/
def text : Tag → String
  | .choice => "choice"
  | .seq => "seq"
  | .scope => "scope"
  | .label => "label"
  | .leftrec => "leftrec"
  | .memo => "memo"
  | .apply => "apply"
  | .lit => "lit"
  | .range => "range"
  | .not => "not"
  | .opt => "opt"
  | .star => "star"
  | .plus => "plus"
  | .paren => "paren"
  | .capture => "capture"
  | .pred => "pred"
  | .eq => "eq"
  | .action => "action"
  | .pos => "pos"
  | .empty => "empty"

/-- All tags of patterns. -/
def all : List Tag :=
  [.choice, .seq, .scope, .label, .leftrec, .memo, .apply, .lit, .range, .not, .opt, .star, .plus,
    .paren, .capture, .pred, .eq, .action, .pos, .empty]

/-- The tag of a text. -/
def ofText? (text : String) : Option Tag := all.find? (·.text == text)

theorem ofText?_text (t : Tag) : ofText? t.text = some t := by
  cases t <;> decide

theorem text_of_ofText? {text : String} {t : Tag} (h : ofText? text = some t) :
    t.text = text := by
  simpa using List.find?_some h

/-- What follows the tag in the interchange form, in words. -/
def fields : Tag → String
  | .choice | .seq => "any number of children"
  | .scope => "a rule name and terms"
  | .label | .leftrec | .memo => "a child and a name"
  | .apply | .lit => "one string"
  | .range => "two literal bounds"
  | .not | .opt | .star | .plus | .paren | .capture => "one child"
  | .pred | .eq | .action => "one semantic expression"
  | .pos | .empty => "no fields"

end Tag

/-- The tag of a pattern. -/
def Pattern.tag : Pattern → Tag
  | .choice _ => .choice
  | .seq _ => .seq
  | .scope _ _ => .scope
  | .label _ _ => .label
  | .leftrec _ _ => .leftrec
  | .memo _ _ => .memo
  | .apply _ => .apply
  | .lit _ => .lit
  | .range _ _ => .range
  | .not _ => .not
  | .opt _ => .opt
  | .star _ => .star
  | .plus _ => .plus
  | .paren _ => .paren
  | .capture _ => .capture
  | .pred _ => .pred
  | .eq _ => .eq
  | .action _ => .action
  | .pos => .pos
  | .empty => .empty

/-! ## Expressions -/

/-- The forms of expression. -/
inductive ExprTag where
  | var | dec | hex | str | plus | qual | arr
  deriving DecidableEq, Repr, Inhabited

namespace ExprTag

/-- The text of a tag. -/
def text : ExprTag → String
  | .var => "ll_var"
  | .dec => "ll_dec"
  | .hex => "ll_hex"
  | .str => "ll_str"
  | .plus => "ll_plus"
  | .qual => "ll_qual"
  | .arr => "ll_arr"

/-- All tags of expressions. -/
def all : List ExprTag := [.var, .dec, .hex, .str, .plus, .qual, .arr]

/-- The tag of a text. -/
def ofText? (text : String) : Option ExprTag := all.find? (·.text == text)

theorem ofText?_text (t : ExprTag) : ofText? t.text = some t := by
  cases t <;> decide

theorem text_of_ofText? {text : String} {t : ExprTag} (h : ofText? text = some t) :
    t.text = text := by
  simpa using List.find?_some h

/-- What follows the tag in the interchange form, in words. -/
def fields : ExprTag → String
  | .var | .dec | .hex | .str => "one string"
  | .plus => "two operands"
  | .qual => "a base and postfix operations"
  | .arr => "any number of items"

end ExprTag

/-- The tag of an expression. -/
def Expr.tag : Expr → ExprTag
  | .var _ => .var
  | .dec _ => .dec
  | .hex _ => .hex
  | .str _ => .str
  | .plus _ _ => .plus
  | .qual _ _ => .qual
  | .arr _ => .arr

/-! ## Suffixes -/

/-- The forms of suffix. -/
inductive SuffixTag where
  | item | call | attr
  deriving DecidableEq, Repr, Inhabited

namespace SuffixTag

/-- The text of a tag. -/
def text : SuffixTag → String
  | .item => "ll_getitem"
  | .call => "ll_call"
  | .attr => "ll_getattr"

/-- All tags of suffixes. -/
def all : List SuffixTag := [.item, .call, .attr]

/-- The tag of a text. -/
def ofText? (text : String) : Option SuffixTag := all.find? (·.text == text)

theorem ofText?_text (t : SuffixTag) : ofText? t.text = some t := by
  cases t <;> decide

theorem text_of_ofText? {text : String} {t : SuffixTag} (h : ofText? text = some t) :
    t.text = text := by
  simpa using List.find?_some h

/-- What follows the tag in the interchange form, in words. -/
def fields : SuffixTag → String
  | .item => "one index"
  | .call => "any number of arguments"
  | .attr => "one attribute name"

end SuffixTag

end Pegboard
