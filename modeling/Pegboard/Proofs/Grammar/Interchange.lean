import Pegboard.Proofs.Grammar.Roundtrip

/-!
# The interchange form is exact

Decoding takes exactly what encoding gives.  That everything encoded is decoded again was shown
before; here is the other direction: a value that is decoded is the interchange form of what it is
decoded to.  So every array has the fields that its tag asks for and no others, and of two different
values at most one stands for a given pattern.

## Main Results

* `Pattern.eq_encode`, `Expr.eq_encode`, `RuleSet.eq_encode`: what is decoded was encoded.
* `decode_iff_encode`: both directions, for patterns, expressions and rule sets.
-/

namespace Pegboard

/-! ## Decoding in steps -/

namespace Decoded

variable {α β : Type} {x : Decoded α}

theorem bind_eq_ok {f : α → Decoded β} {b : β} :
    x >>= f = .ok b ↔ ∃ a, x = .ok a ∧ f a = .ok b := by
  cases x <;> simp [bind, Except.bind]

theorem map_eq_ok {f : α → β} {b : β} : f <$> x = .ok b ↔ ∃ a, x = .ok a ∧ f a = b := by
  cases x <;> simp [Functor.map, Except.map]

theorem pure_eq_ok {a b : α} : (pure a : Decoded α) = .ok b ↔ a = b := by
  simp [pure, Except.pure]

theorem throw_ne_ok {e : DecodeError} {a : α} : ¬ (throw e : Decoded α) = .ok a := by
  simp [throw, throwThe, MonadExceptOf.throw]

end Decoded

open Decoded

/-- A field is a string exactly if the JSON value is. -/
theorem decodeString_eq_ok {tag : String} {v : Json} {s : String} :
    decodeString tag v = .ok s ↔ v = .str s := by
  cases v <;> simp [decodeString, pure_eq_ok, throw_ne_ok]

/-! ## Expressions -/

mutual

/-- A value that is decoded as an expression is the interchange form of the expression. -/
theorem Expr.eq_encode (v : Json) {e : Expr} (h : Expr.decode v = .ok e) : v = e.encode := by
  generalize hw : v = w at h ⊢
  rw [Expr.decode.eq_def] at h
  split at h
  case h_2 => exact absurd h throw_ne_ok
  split at h
  · exact absurd h throw_ne_ok
  next tag htag =>
    obtain rfl := ExprTag.text_of_ofText? htag
    split at h <;>
      simp only [bind_eq_ok, map_eq_ok, pure_eq_ok, throw_ne_ok, decodeString_eq_ok] at h
    case h_5 =>
      obtain ⟨lhs, hlhs, rhs, hrhs, rfl⟩ := h
      rw [Expr.eq_encode _ hlhs, Expr.eq_encode _ hrhs]
      rfl
    case h_6 =>
      obtain ⟨base, hbase, suffixes, hsuffixes, rfl⟩ := h
      rw [Expr.eq_encode _ hbase, Suffix.eq_encodeAll _ hsuffixes]
      rfl
    case h_7 =>
      obtain ⟨items, hitems, rfl⟩ := h
      rw [Expr.eq_encodeAll _ hitems]
      rfl
    -- A name, a number or a literal.
    all_goals
      obtain ⟨s, rfl, rfl⟩ := h
      rfl

theorem Suffix.eq_encode (v : Json) {s : Suffix} (h : Suffix.decode v = .ok s) : v = s.encode := by
  generalize hw : v = w at h ⊢
  rw [Suffix.decode.eq_def] at h
  split at h
  case h_2 => exact absurd h throw_ne_ok
  split at h
  · exact absurd h throw_ne_ok
  next tag htag =>
    obtain rfl := SuffixTag.text_of_ofText? htag
    split at h <;> simp only [map_eq_ok, throw_ne_ok, decodeString_eq_ok] at h
    case h_1 =>
      obtain ⟨index, hindex, rfl⟩ := h
      rw [Expr.eq_encode _ hindex]
      rfl
    case h_2 =>
      obtain ⟨args, hargs, rfl⟩ := h
      rw [Expr.eq_encodeAll _ hargs]
      rfl
    case h_3 =>
      obtain ⟨name, rfl, rfl⟩ := h
      rfl

theorem Expr.eq_encodeAll (vs : List Json) {es : List Expr} (h : Expr.decodeAll vs = .ok es) :
    vs = Expr.encodeAll es := by
  cases vs with
  | nil =>
    rw [Expr.decodeAll, pure_eq_ok] at h
    rw [← h, Expr.encodeAll]
  | cons v vs =>
    simp only [Expr.decodeAll, bind_eq_ok, pure_eq_ok] at h
    obtain ⟨e, he, es, hes, rfl⟩ := h
    rw [Expr.encodeAll, ← Expr.eq_encode v he, ← Expr.eq_encodeAll vs hes]

theorem Suffix.eq_encodeAll (vs : List Json) {ss : List Suffix} (h : Suffix.decodeAll vs = .ok ss) :
    vs = Suffix.encodeAll ss := by
  cases vs with
  | nil =>
    rw [Suffix.decodeAll, pure_eq_ok] at h
    rw [← h, Suffix.encodeAll]
  | cons v vs =>
    simp only [Suffix.decodeAll, bind_eq_ok, pure_eq_ok] at h
    obtain ⟨s, hs, ss, hss, rfl⟩ := h
    rw [Suffix.encodeAll, ← Suffix.eq_encode v hs, ← Suffix.eq_encodeAll vs hss]

end

/-! ## Patterns -/

namespace Pattern

/-- A pattern that is the bound of a range is a literal of one character. -/
theorem bound_eq_ok {p : Pattern} {c : Char} : p.bound = .ok c ↔ p = .lit (String.singleton c) := by
  cases p with
  | lit text =>
    have single : text.toList = [c] ↔ text = String.singleton c := by
      rw [← String.toList_singleton, String.toList_inj]
    rw [lit.injEq, ← single, bound]
    split
    · next d hd => rw [pure_eq_ok, hd, List.cons.injEq, and_iff_left rfl]
    · next several =>
      rw [iff_false_left throw_ne_ok]
      exact several c
  | _ => simp [bound, throw_ne_ok]

mutual

/-- A value that is decoded as a pattern is the interchange form of the pattern. -/
theorem eq_encode (v : Json) {p : Pattern} (h : decode v = .ok p) : v = p.encode := by
  generalize hw : v = w at h ⊢
  rw [decode.eq_def] at h
  split at h
  case h_2 => exact absurd h throw_ne_ok
  split at h
  · exact absurd h throw_ne_ok
  next tag htag =>
    obtain rfl := Tag.text_of_ofText? htag
    split at h <;> simp only [bind_eq_ok, map_eq_ok, pure_eq_ok, throw_ne_ok, decodeString_eq_ok,
      bound_eq_ok] at h
    case h_1 | h_2 =>
      obtain ⟨ps, hps, rfl⟩ := h
      rw [eq_encodeAll _ hps]
      rfl
    case h_3 =>
      obtain ⟨rule, rfl, ps, hps, rfl⟩ := h
      rw [eq_encodeAll _ hps]
      rfl
    case h_4 | h_5 | h_6 =>
      obtain ⟨inner, hinner, s, rfl, rfl⟩ := h
      rw [eq_encode _ hinner]
      rfl
    case h_7 | h_8 =>
      obtain ⟨s, rfl, rfl⟩ := h
      rfl
    case h_9 =>
      obtain ⟨_, hlo, lo, rfl, _, hhi, hi, rfl, rfl⟩ := h
      rw [eq_encode _ hlo, eq_encode _ hhi]
      rfl
    case h_16 | h_17 | h_18 =>
      obtain ⟨e, he, rfl⟩ := h
      rw [Expr.eq_encode _ he]
      rfl
    case h_19 | h_20 =>
      rw [← h]
      rfl
    -- One pattern inside.
    all_goals
      obtain ⟨inner, hinner, rfl⟩ := h
      rw [eq_encode _ hinner]
      rfl

theorem eq_encodeAll (vs : List Json) {ps : List Pattern} (h : decodeAll vs = .ok ps) :
    vs = encodeAll ps := by
  cases vs with
  | nil =>
    rw [decodeAll, pure_eq_ok] at h
    rw [← h, encodeAll]
  | cons v vs =>
    simp only [decodeAll, bind_eq_ok, pure_eq_ok] at h
    obtain ⟨p, hp, ps, hps, rfl⟩ := h
    rw [encodeAll, ← eq_encode v hp, ← eq_encodeAll vs hps]

end

end Pattern

/-! ## Rules -/

namespace RuleSet

/-- A value that is decoded as a rule is the interchange form of the rule, which has no place in a
text. -/
theorem eq_encodeRule {v : Json} {r : Rule} (h : decodeRule v = .ok r) :
    v = encodeRule r ∧ r.span = .origin := by
  rw [decodeRule.eq_def] at h
  split at h
  case h_2 => exact absurd h throw_ne_ok
  next name fields =>
    split at h
    case isFalse => exact absurd h throw_ne_ok
    next hname =>
      subst hname
      split at h <;> simp only [bind_eq_ok, pure_eq_ok, throw_ne_ok, decodeString_eq_ok] at h
      obtain ⟨name, rfl, body, hbody, rfl⟩ := h
      rw [Pattern.eq_encode _ hbody]
      exact ⟨rfl, rfl⟩

theorem eq_encodeRules {vs : List Json} {rules : List Rule} (h : decodeRules vs = .ok rules) :
    vs = rules.map encodeRule ∧ ∀ r ∈ rules, r.span = .origin := by
  induction vs generalizing rules with
  | nil =>
    rw [decodeRules, pure_eq_ok] at h
    simp [← h]
  | cons v vs ih =>
    simp only [decodeRules, bind_eq_ok, pure_eq_ok] at h
    obtain ⟨r, hr, rest, hrest, rfl⟩ := h
    obtain ⟨rfl, origin⟩ := eq_encodeRule hr
    obtain ⟨rfl, origins⟩ := ih hrest
    exact ⟨rfl, List.forall_mem_cons.2 ⟨origin, origins⟩⟩

/-- A value that is decoded as a rule set is the interchange form of the rule set, none of whose
rules has a place in a text. -/
theorem eq_encode {v : Json} {rs : RuleSet} (h : decode v = .ok rs) :
    v = rs.encode ∧ ∀ r ∈ rs.rules, r.span = .origin := by
  rw [decode.eq_def] at h
  split at h
  case h_2 => exact absurd h throw_ne_ok
  next name fields =>
    split at h
    case isFalse => exact absurd h throw_ne_ok
    next hname =>
      subst hname
      obtain ⟨rules, hrules, rfl⟩ := map_eq_ok.1 h
      obtain ⟨rfl, origins⟩ := eq_encodeRules hrules
      exact ⟨rfl, origins⟩

/-- A rule set is its definitions if none of its rules has a place in a text. -/
theorem ofDefinitions_definitions {rs : RuleSet} (origins : ∀ r ∈ rs.rules, r.span = .origin) :
    ofDefinitions rs.definitions = rs := by
  have same : rs.rules.map (fun r => (⟨r.name, r.body, .origin⟩ : Rule)) = rs.rules := by
    refine (List.map_congr_left fun r hr => ?_).trans rs.rules.map_id
    rw [← origins r hr, id]
  simp [ofDefinitions, definitions, Function.comp_def, same]

end RuleSet

/-- Decoding is the inverse of encoding: what a value is decoded to is encoded as that value, and
every pattern, every expression and every rule set without places in a text is decoded from its
interchange form. -/
theorem decode_iff_encode :
    (∀ v p, Pattern.decode v = .ok p ↔ v = p.encode) ∧
      (∀ v e, Expr.decode v = .ok e ↔ v = e.encode) ∧
      (∀ v s, Suffix.decode v = .ok s ↔ v = s.encode) ∧
      ∀ v rs, RuleSet.decode v = .ok rs ↔ v = rs.encode ∧ ∀ r ∈ rs.rules, r.span = .origin := by
  refine ⟨fun v p => ⟨Pattern.eq_encode v, ?_⟩, fun v e => ⟨Expr.eq_encode v, ?_⟩,
    fun v s => ⟨Suffix.eq_encode v, ?_⟩, fun v rs => ⟨RuleSet.eq_encode, ?_⟩⟩
  · rintro rfl
    exact p.decode_encode
  · rintro rfl
    exact e.decode_encode
  · rintro rfl
    exact s.decode_encode
  · rintro ⟨rfl, origins⟩
    rw [RuleSet.decode_encode, RuleSet.ofDefinitions_definitions origins]

end Pegboard
