import Pegboard.Grammar.Tag
import Pegboard.Grammar.Rules
import Pegboard.Json

/-!
# The interchange form

Rules, patterns and expressions are exchanged as JSON.  Every one is an array that starts with a
tag.  Strings and parts follow it; a list of parts stands at the end of the array:

```text
["rules",
  ["rule", "word", ["plus", ["apply", "letter"]]],
  ["rule", "line", ["seq", ["label", ["apply", "word"], "w"], ["action", ["ll_var", "w"]]]]]
```

Decoding takes exactly what encoding gives.  Of several things that are wrong, the outermost is
told, and of two parts the first.

## Main Definitions

* `Pattern.encode`, `Expr.encode`, `RuleSet.encode`: the interchange form.
* `Pattern.decode`, `Expr.decode`, `RuleSet.decode`: what an interchange form stands for.
* `DecodeError`: why a JSON value is no interchange form.
-/

namespace Pegboard

/-! ## Encoding -/

/-- An array that starts with a tag. -/
def Json.tagged (tag : String) (fields : List Json) : Json := .arr (.str tag :: fields)

mutual

/-- The interchange form of an expression. -/
def Expr.encode : Expr → Json
  | .var name => .tagged ExprTag.var.text [.str name]
  | .dec digits => .tagged ExprTag.dec.text [.str digits]
  | .hex digits => .tagged ExprTag.hex.text [.str digits]
  | .str text => .tagged ExprTag.str.text [.str text]
  | .plus lhs rhs => .tagged ExprTag.plus.text [lhs.encode, rhs.encode]
  | .qual base suffixes =>
    .tagged ExprTag.qual.text (base.encode :: Suffix.encodeAll suffixes)
  | .arr items => .tagged ExprTag.arr.text (Expr.encodeAll items)

/-- The interchange form of a suffix. -/
def Suffix.encode : Suffix → Json
  | .item index => .tagged SuffixTag.item.text [index.encode]
  | .call args => .tagged SuffixTag.call.text (Expr.encodeAll args)
  | .attr name => .tagged SuffixTag.attr.text [.str name]

/-- The interchange forms of a list of expressions. -/
def Expr.encodeAll : List Expr → List Json
  | [] => []
  | e :: es => e.encode :: Expr.encodeAll es

/-- The interchange forms of a list of suffixes. -/
def Suffix.encodeAll : List Suffix → List Json
  | [] => []
  | s :: ss => s.encode :: Suffix.encodeAll ss

end

namespace Pattern

/-- The interchange form of a character as a bound of a range. -/
def encodeBound (c : Char) : Json := .tagged Tag.lit.text [.str (String.singleton c)]

mutual

/-- The interchange form of a pattern. -/
def encode : Pattern → Json
  | .choice alts => .tagged Tag.choice.text (encodeAll alts)
  | .seq ps => .tagged Tag.seq.text (encodeAll ps)
  | .scope rule ps => .tagged Tag.scope.text (.str rule :: encodeAll ps)
  | .label p name => .tagged Tag.label.text [encode p, .str name]
  | .leftrec p rule => .tagged Tag.leftrec.text [encode p, .str rule]
  | .memo p rule => .tagged Tag.memo.text [encode p, .str rule]
  | .apply name => .tagged Tag.apply.text [.str name]
  | .lit text => .tagged Tag.lit.text [.str text]
  | .range lo hi => .tagged Tag.range.text [encodeBound lo, encodeBound hi]
  | .not p => .tagged Tag.not.text [encode p]
  | .opt p => .tagged Tag.opt.text [encode p]
  | .star p => .tagged Tag.star.text [encode p]
  | .plus p => .tagged Tag.plus.text [encode p]
  | .paren p => .tagged Tag.paren.text [encode p]
  | .capture p => .tagged Tag.capture.text [encode p]
  | .pred e => .tagged Tag.pred.text [e.encode]
  | .eq e => .tagged Tag.eq.text [e.encode]
  | .action e => .tagged Tag.action.text [e.encode]
  | .pos => .tagged Tag.pos.text []
  | .empty => .tagged Tag.empty.text []

/-- The interchange forms of a list of patterns. -/
def encodeAll : List Pattern → List Json
  | [] => []
  | p :: ps => encode p :: encodeAll ps

end

end Pattern

namespace RuleSet

/-- The tag of a list of rules. -/
def rulesTag : String := "rules"

/-- The tag of a rule. -/
def ruleTag : String := "rule"

/-- The interchange form of a rule. -/
def encodeRule (r : Rule) : Json := .tagged ruleTag [.str r.name, r.body.encode]

/-- The interchange form of a rule set. -/
def encode (rs : RuleSet) : Json := .tagged rulesTag (rs.rules.map encodeRule)

end RuleSet

/-! ## Decoding -/

/-- Why a JSON value is no interchange form. -/
inductive DecodeError where
  | notTagged (found : Json)
  | unknownTag (tag : String)
  /-- The fields after a tag are not as many as it asks for. -/
  | arity (tag expected : String) (found : Nat)
  | expectedString (tag : String) (found : Json)
  | rangeBound (text : String)
  deriving Inhabited

/-- The wording of an error. -/
def DecodeError.message : DecodeError → String
  | .notTagged found => "expected a tagged array, found `" ++ found.compact ++ "`"
  | .unknownTag tag => "unknown tag \"" ++ tag ++ "\""
  | .arity tag expected found =>
    "\"" ++ tag ++ "\" expects " ++ expected ++ ", found " ++ toString found ++ " field(s)"
  | .expectedString tag found =>
    "\"" ++ tag ++ "\" expects a string field, found `" ++ found.compact ++ "`"
  | .rangeBound text => "range bound must be a single-character literal, found `" ++ text ++ "`"

/-- What was decoded, or what is wrong. -/
abbrev Decoded := Except DecodeError

/-- The string of a field of an array with a tag. -/
def decodeString (tag : String) : Json → Decoded String
  | .str s => pure s
  | v => throw (.expectedString tag v)

mutual

/-- The expression that an interchange form stands for. -/
def Expr.decode : Json → Decoded Expr
  | .arr (.str name :: fields) =>
    match ExprTag.ofText? name with
    | none => throw (.unknownTag name)
    | some tag =>
      match tag, fields with
      | .var, [s] => Expr.var <$> decodeString name s
      | .dec, [s] => Expr.dec <$> decodeString name s
      | .hex, [s] => Expr.hex <$> decodeString name s
      | .str, [s] => Expr.str <$> decodeString name s
      | .plus, [l, r] => do
        let lhs ← Expr.decode l
        let rhs ← Expr.decode r
        pure (.plus lhs rhs)
      | .qual, b :: ops => do
        let base ← Expr.decode b
        let suffixes ← Suffix.decodeAll ops
        pure (.qual base suffixes)
      | .arr, items => Expr.arr <$> Expr.decodeAll items
      | tag, fields => throw (.arity name tag.fields fields.length)
  | v => throw (.notTagged v)

/-- The suffix that an interchange form stands for. -/
def Suffix.decode : Json → Decoded Suffix
  | .arr (.str name :: fields) =>
    match SuffixTag.ofText? name with
    | none => throw (.unknownTag name)
    | some tag =>
      match tag, fields with
      | .item, [i] => Suffix.item <$> Expr.decode i
      | .call, args => Suffix.call <$> Expr.decodeAll args
      | .attr, [s] => Suffix.attr <$> decodeString name s
      | tag, fields => throw (.arity name tag.fields fields.length)
  | v => throw (.notTagged v)

/-- The expressions of a list of interchange forms. -/
def Expr.decodeAll : List Json → Decoded (List Expr)
  | [] => pure []
  | v :: vs => do
    let e ← Expr.decode v
    let es ← Expr.decodeAll vs
    pure (e :: es)

/-- The suffixes of a list of interchange forms. -/
def Suffix.decodeAll : List Json → Decoded (List Suffix)
  | [] => pure []
  | v :: vs => do
    let s ← Suffix.decode v
    let ss ← Suffix.decodeAll vs
    pure (s :: ss)

end

namespace Pattern

/-- The character that a pattern stands for as a bound of a range. -/
def bound : Pattern → Decoded Char
  | .lit text =>
    match text.toList with
    | [c] => pure c
    | _ => throw (.rangeBound text)
  | p => throw (.rangeBound p.tag.text)

mutual

/-- The pattern that an interchange form stands for. -/
def decode : Json → Decoded Pattern
  | .arr (.str name :: fields) =>
    match Tag.ofText? name with
    | none => throw (.unknownTag name)
    | some tag =>
      match tag, fields with
      | .choice, alts => Pattern.choice <$> decodeAll alts
      | .seq, ps => Pattern.seq <$> decodeAll ps
      | .scope, r :: ps => do
        let rule ← decodeString name r
        let ps ← decodeAll ps
        pure (.scope rule ps)
      | .label, [p, s] => do
        let inner ← decode p
        let s ← decodeString name s
        pure (.label inner s)
      | .leftrec, [p, s] => do
        let inner ← decode p
        let s ← decodeString name s
        pure (.leftrec inner s)
      | .memo, [p, s] => do
        let inner ← decode p
        let s ← decodeString name s
        pure (.memo inner s)
      | .apply, [s] => Pattern.apply <$> decodeString name s
      | .lit, [s] => Pattern.lit <$> decodeString name s
      | .range, [l, h] => do
        let lower ← decode l
        let lo ← lower.bound
        let upper ← decode h
        let hi ← upper.bound
        pure (.range lo hi)
      | .not, [p] => Pattern.not <$> decode p
      | .opt, [p] => Pattern.opt <$> decode p
      | .star, [p] => Pattern.star <$> decode p
      | .plus, [p] => Pattern.plus <$> decode p
      | .paren, [p] => Pattern.paren <$> decode p
      | .capture, [p] => Pattern.capture <$> decode p
      | .pred, [e] => Pattern.pred <$> Expr.decode e
      | .eq, [e] => Pattern.eq <$> Expr.decode e
      | .action, [e] => Pattern.action <$> Expr.decode e
      | .pos, [] => pure .pos
      | .empty, [] => pure .empty
      | tag, fields => throw (.arity name tag.fields fields.length)
  | v => throw (.notTagged v)

/-- The patterns of a list of interchange forms. -/
def decodeAll : List Json → Decoded (List Pattern)
  | [] => pure []
  | v :: vs => do
    let p ← decode v
    let ps ← decodeAll vs
    pure (p :: ps)

end

end Pattern

namespace RuleSet

/-- The rule that an interchange form stands for. -/
def decodeRule : Json → Decoded Rule
  | .arr (.str name :: fields) =>
    if name = ruleTag then
      match fields with
      | [s, p] => do
        let s ← decodeString name s
        let body ← Pattern.decode p
        pure ⟨s, body, .origin⟩
      | fields => throw (.arity name "a name and a body" fields.length)
    else throw (.unknownTag name)
  | v => throw (.notTagged v)

/-- The rules of a list of interchange forms. -/
def decodeRules : List Json → Decoded (List Rule)
  | [] => pure []
  | v :: vs => do
    let r ← decodeRule v
    let rs ← decodeRules vs
    pure (r :: rs)

/-- The rule set that an interchange form stands for. -/
def decode : Json → Decoded RuleSet
  | .arr (.str name :: fields) =>
    if name = rulesTag then RuleSet.mk <$> decodeRules fields else throw (.unknownTag name)
  | v => throw (.notTagged v)

end RuleSet

end Pegboard
