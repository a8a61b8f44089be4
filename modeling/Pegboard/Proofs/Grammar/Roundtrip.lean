import Pegboard.Grammar.Interchange

/-!
# The interchange form is read back

Decoding the interchange form of a rule set gives its names and bodies again, in their order, for
every rule set.  Only the places in the text are not exchanged.

## Main Results

* `Pattern.decode_encode`: every pattern is read back from its interchange form.
* `RuleSet.decode_encode`: so are the definitions of every rule set.
-/

namespace Pegboard

/-! ## Expressions -/

mutual

theorem Expr.decode_encode : ∀ e : Expr, Expr.decode e.encode = pure e
  | .var name => by
    simp [Expr.encode, Json.tagged, Expr.decode, ExprTag.ofText?_text, decodeString]
  | .dec digits => by
    simp [Expr.encode, Json.tagged, Expr.decode, ExprTag.ofText?_text, decodeString]
  | .hex digits => by
    simp [Expr.encode, Json.tagged, Expr.decode, ExprTag.ofText?_text, decodeString]
  | .str text => by
    simp [Expr.encode, Json.tagged, Expr.decode, ExprTag.ofText?_text, decodeString]
  | .plus lhs rhs => by
    simp [Expr.encode, Json.tagged, Expr.decode, ExprTag.ofText?_text, Expr.decode_encode lhs,
      Expr.decode_encode rhs]
  | .qual base suffixes => by
    simp [Expr.encode, Json.tagged, Expr.decode, ExprTag.ofText?_text, Expr.decode_encode base,
      Suffix.decodeAll_encodeAll suffixes]
  | .arr items => by
    simp [Expr.encode, Json.tagged, Expr.decode, ExprTag.ofText?_text,
      Expr.decodeAll_encodeAll items]

theorem Suffix.decode_encode : ∀ s : Suffix, Suffix.decode s.encode = pure s
  | .item index => by
    simp [Suffix.encode, Json.tagged, Suffix.decode, SuffixTag.ofText?_text,
      Expr.decode_encode index]
  | .call args => by
    simp [Suffix.encode, Json.tagged, Suffix.decode, SuffixTag.ofText?_text,
      Expr.decodeAll_encodeAll args]
  | .attr name => by
    simp [Suffix.encode, Json.tagged, Suffix.decode, SuffixTag.ofText?_text, decodeString]

theorem Expr.decodeAll_encodeAll : ∀ es : List Expr, Expr.decodeAll (Expr.encodeAll es) = pure es
  | [] => rfl
  | e :: es => by
    simp [Expr.encodeAll, Expr.decodeAll, Expr.decode_encode e, Expr.decodeAll_encodeAll es]

theorem Suffix.decodeAll_encodeAll :
    ∀ ss : List Suffix, Suffix.decodeAll (Suffix.encodeAll ss) = pure ss
  | [] => rfl
  | s :: ss => by
    simp [Suffix.encodeAll, Suffix.decodeAll, Suffix.decode_encode s,
      Suffix.decodeAll_encodeAll ss]

end

namespace Pattern

/-! ## Patterns -/

/-- The bound of a range is read back as its character. -/
theorem bound_singleton (c : Char) : bound (.lit (String.singleton c)) = pure c := by
  simp [bound, String.toList_singleton]

mutual

/-- Every pattern is read back from its interchange form. -/
theorem decode_encode : ∀ p : Pattern, decode p.encode = pure p
  | .choice alts => by
    simp [encode, Json.tagged, decode, Tag.ofText?_text, decodeAll_encodeAll alts]
  | .seq ps => by
    simp [encode, Json.tagged, decode, Tag.ofText?_text, decodeAll_encodeAll ps]
  | .scope rule ps => by
    simp [encode, Json.tagged, decode, Tag.ofText?_text, decodeString, decodeAll_encodeAll ps]
  | .label p name => by
    simp [encode, Json.tagged, decode, Tag.ofText?_text, decodeString, decode_encode p]
  | .leftrec p rule => by
    simp [encode, Json.tagged, decode, Tag.ofText?_text, decodeString, decode_encode p]
  | .memo p rule => by
    simp [encode, Json.tagged, decode, Tag.ofText?_text, decodeString, decode_encode p]
  | .apply name => by
    simp [encode, Json.tagged, decode, Tag.ofText?_text, decodeString]
  | .lit text => by
    simp [encode, Json.tagged, decode, Tag.ofText?_text, decodeString]
  | .range lo hi => by
    simp [encode, encodeBound, Json.tagged, decode, Tag.ofText?_text, decodeString,
      bound_singleton]
  | .not p => by
    simp [encode, Json.tagged, decode, Tag.ofText?_text, decode_encode p]
  | .opt p => by
    simp [encode, Json.tagged, decode, Tag.ofText?_text, decode_encode p]
  | .star p => by
    simp [encode, Json.tagged, decode, Tag.ofText?_text, decode_encode p]
  | .plus p => by
    simp [encode, Json.tagged, decode, Tag.ofText?_text, decode_encode p]
  | .paren p => by
    simp [encode, Json.tagged, decode, Tag.ofText?_text, decode_encode p]
  | .capture p => by
    simp [encode, Json.tagged, decode, Tag.ofText?_text, decode_encode p]
  | .pred e => by
    simp [encode, Json.tagged, decode, Tag.ofText?_text, Expr.decode_encode e]
  | .eq e => by
    simp [encode, Json.tagged, decode, Tag.ofText?_text, Expr.decode_encode e]
  | .action e => by
    simp [encode, Json.tagged, decode, Tag.ofText?_text, Expr.decode_encode e]
  | .pos => by
    simp [encode, Json.tagged, decode, Tag.ofText?_text]
  | .empty => by
    simp [encode, Json.tagged, decode, Tag.ofText?_text]

theorem decodeAll_encodeAll : ∀ ps : List Pattern, decodeAll (encodeAll ps) = pure ps
  | [] => rfl
  | p :: ps => by
    simp [encodeAll, decodeAll, decode_encode p, decodeAll_encodeAll ps]

end

end Pattern

namespace RuleSet

/-! ## Rules -/

theorem decodeRules_encode (rules : List Rule) :
    decodeRules (rules.map encodeRule) = pure (rules.map fun r => ⟨r.name, r.body, .origin⟩) := by
  induction rules with
  | nil => rfl
  | cons r rules ih =>
    simp [decodeRules, encodeRule, Json.tagged, decodeRule, decodeString, Pattern.decode_encode, ih]

/-- Every rule set is read back from its interchange form, but for the places in the text. -/
theorem decode_encode (rs : RuleSet) : decode rs.encode = .ok (.ofDefinitions rs.definitions) := by
  simp [decode, encode, Json.tagged, decodeRules_encode, ofDefinitions, definitions,
    Function.comp_def]
  rfl

end RuleSet

end Pegboard
