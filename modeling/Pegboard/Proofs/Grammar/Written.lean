import Mathlib.Data.List.Permutation
import Pegboard.Proofs.Grammar.Derivation
import Pegboard.Proofs.Grammar.Skeleton

/-!
# What is parsed can be written

Names and numbers come into a grammar as tokens of its text, so they can be written as tokens again.
The form of what is parsed is that of a derivation: groups are choices of sequences, what a sign of
repetition or a label follows needs no parentheses, and no term in parentheses follows an action.

## Main Definitions

* `Pattern.AuthoredNode`: a node as parsing gives it.
* `Pattern.IsGroup`: a choice whose alternatives are sequences of terms or empty.

## Main Results

* `Parse.DerivesExpr.written`, `Parse.DerivesChoice.authored`: what is derived can be written.
* `authored_of_parseGrammar`: so can the rules of a grammar text.
* `derivation_of_parseGrammar`: the rules of a grammar text are the tree of a derivation from it.
-/

namespace Pegboard

namespace Pattern

/-- Whether a pattern may be a term without parentheses of its own. -/
def IsTerm : Pattern → Prop
  | .choice _ => False
  | .seq _ => False
  | .scope _ _ => False
  | .leftrec _ _ => False
  | .memo _ _ => False
  | .empty => False
  | _ => True

/-- Whether a term needs no parentheses where a level is asked for. -/
structure Fits (least : Level) (p : Pattern) : Prop where
  isTerm : p.IsTerm
  tight : p.level.isLooser least = false

theorem Fits.level_prim {p : Pattern} (h : p.Fits .prim) : p.level = .prim := by
  have tight := h.tight
  cases hlevel : p.level with
  | prim => rfl
  | _ =>
    rw [hlevel] at tight
    contradiction

/-- Whether a term was written with parentheses at its start. -/
def opensGroup : Pattern → Bool
  | .paren _ => true
  | .opt p => opensGroup p
  | .star p => opensGroup p
  | .plus p => opensGroup p
  | .label p _ => opensGroup p
  | _ => false

/-- Whether no term in parentheses follows an action, for it would have been read as a call. -/
def ActionsApart (ps : List Pattern) : Prop :=
  ∀ e q, [.action e, q] <:+: ps → q.opensGroup = false

/-- Whether a pattern is a choice whose alternatives are sequences of terms or empty. -/
def IsGroup : Pattern → Prop
  | .choice alts => alts ≠ [] ∧ ∀ p ∈ alts, p = .empty ∨ ∃ ps, ps ≠ [] ∧ p = .seq ps
  | _ => False

/-- A node as parsing gives it: what it says can be written, a choice and what is in parentheses or
braces is a group, a sequence has terms, what a sign of repetition or a label follows needs no
parentheses, and there are none of the nodes that only normalization puts in. -/
def AuthoredNode : Pattern → Prop
  | .choice alts => IsGroup (.choice alts)
  | .seq ps => ps ≠ [] ∧ (∀ p ∈ ps, p.IsTerm) ∧ ActionsApart ps
  | .label p name => Token.Writable (.ident name) ∧ p.Fits .postfixed
  | .not p => p.IsTerm
  | .opt p => p.Fits .prim
  | .star p => p.Fits .prim
  | .plus p => p.Fits .prim
  | .paren p => p.IsGroup
  | .capture p => p.IsGroup
  | .scope _ _ => False
  | .leftrec _ _ => False
  | .memo _ _ => False
  | p => p.WrittenNode

/-- Whether a pattern is one that parsing may give. -/
def Authored (p : Pattern) : Prop := p.Everywhere AuthoredNode

end Pattern

namespace Parse

open Pattern

/-- Whether all tokens can be written. -/
def AllWritable (ts : List Token) : Prop := ∀ t ∈ ts, t.Writable

namespace AllWritable

variable {t : Token} {us vs : List Token}

theorem left (h : AllWritable (us ++ vs)) : AllWritable us :=
  fun t ht => h t (List.mem_append_left _ ht)

theorem right (h : AllWritable (us ++ vs)) : AllWritable vs :=
  fun t ht => h t (List.mem_append_right _ ht)

theorem head (h : AllWritable (t :: us)) : t.Writable := h t (.head _)

theorem tail (h : AllWritable (t :: us)) : AllWritable us := fun u hu => h u (.tail _ hu)

end AllWritable

/-! ## Expressions -/

mutual

/-- An expression that is derived from tokens can be written if these can. -/
theorem DerivesExpr.written : ∀ {us e}, DerivesExpr us e → AllWritable us → e.Written
  | _, _, .qual h, w => h.written w
  | _, _, .plus left right, w => ⟨left.written w.left, right.written w.right.tail⟩

theorem DerivesQual.written : ∀ {us e}, DerivesQual us e → AllWritable us → e.Written
  | _, _, .primary h, w => h.written w
  | _, _, .suffixed base suffixes one, w => ⟨one, base.written w.left, suffixes.written w.right⟩

theorem DerivesSuffixes.written : ∀ {us ss}, DerivesSuffixes us ss → AllWritable us →
    Suffix.WrittenAll ss
  | _, _, .nil, _ => trivial
  | _, _, .item index later, w => ⟨index.written w.left.tail, later.written w.right.tail⟩
  | _, _, .call args later, w => ⟨args.written w.left.tail, later.written w.right.tail⟩
  | _, _, .attr later, w => ⟨w.tail.head, later.written w.tail.tail⟩

theorem DerivesPrimary.written : ∀ {us e}, DerivesPrimary us e → AllWritable us → e.Written
  | _, _, .var _, w => w.head
  | _, _, .dec _, w => w.head
  | _, _, .hex _, w => w.head
  | _, _, .str _, _ => trivial
  | _, _, .arr items, w => items.written w.left.tail
  | _, _, .group h, w => h.written w.left.tail

theorem DerivesExprs.written : ∀ {us es}, DerivesExprs us es → AllWritable us →
    Expr.WrittenAll es
  | _, _, .nil, _ => trivial
  | _, _, .cons first further, w => ⟨first.written w.left, further.written w.right⟩

theorem DerivesFurtherExprs.written : ∀ {us es}, DerivesFurtherExprs us es → AllWritable us →
    Expr.WrittenAll es
  | _, _, .nil, _ => trivial
  | _, _, .cons first further, w => ⟨first.written w.left.tail, further.written w.right⟩

end

/-! ## The form of terms -/

theorem DerivesPrim.fits {us : List Token} {p : Pattern} (h : DerivesPrim us p) : p.Fits .prim := by
  cases h <;> exact ⟨trivial, rfl⟩

theorem DerivesPostfixed.fits {us : List Token} {p : Pattern} (h : DerivesPostfixed us p) :
    p.Fits .postfixed := by
  cases h with
  | prim h =>
    cases h <;> exact ⟨trivial, rfl⟩
  | opt | star | plus => exact ⟨trivial, rfl⟩

theorem DerivesTerm.isTerm {us : List Token} {p : Pattern} (h : DerivesTerm us p) : p.IsTerm := by
  cases h with
  | not | label => trivial
  | postfixed h => exact h.fits.isTerm

theorem DerivesTerms.isTerm : ∀ {us ps}, DerivesTerms us ps → ∀ p ∈ ps, p.IsTerm
  | _, _, .nil => fun _ hp => by contradiction
  | _, _, .cons first later _ => List.forall_mem_cons.2 ⟨first.isTerm, later.isTerm⟩

theorem DerivesPrim.opens {us : List Token} {p : Pattern} (h : DerivesPrim us p)
    (opens : p.opensGroup = true) : us.head? = some (.symbol .openParen) := by
  cases h with
  | paren => rfl
  | _ => contradiction

theorem DerivesPostfixed.opens {us : List Token} {p : Pattern} (h : DerivesPostfixed us p)
    (opens : p.opensGroup = true) : us.head? = some (.symbol .openParen) := by
  cases h with
  | prim h => exact h.opens opens
  | opt h | star h | plus h => rw [List.head?_append, h.opens opens, Option.some_or]

/-- A term with parentheses at its start is derived from tokens that start with one. -/
theorem DerivesTerm.opens {us : List Token} {p : Pattern} (h : DerivesTerm us p)
    (opens : p.opensGroup = true) : us.head? = some (.symbol .openParen) := by
  cases h with
  | not => contradiction
  | postfixed h => exact h.opens opens
  | label h => rw [List.head?_append, h.opens opens, Option.some_or]

/-- A term that follows an action was not written with parentheses at its start. -/
theorem DerivesTerms.apart : ∀ {us ps}, DerivesTerms us ps → ActionsApart ps
  | _, _, .nil => fun e q hq => by simp at hq
  | _, _, .cons first later apart => fun e q hq => by
    rcases List.infix_cons_iff.1 hq with ⟨rest, hstart⟩ | hq
    · obtain ⟨rfl, rfl⟩ := List.cons.inj hstart
      cases opens : q.opensGroup with
      | false => rfl
      | true =>
        cases later with
        | cons second _ _ =>
          refine absurd ?_ (apart e rfl)
          rw [List.head?_append, second.opens opens, Option.some_or]
    · exact later.apart e q hq

/-! ## Patterns -/

theorem DerivesAlternative.form {us : List Token} {p : Pattern} (h : DerivesAlternative us p) :
    p = .empty ∨ ∃ ps, ps ≠ [] ∧ p = .seq ps := by
  cases h with
  | empty => exact .inl rfl
  | seq _ one => exact .inr ⟨_, one, rfl⟩

theorem DerivesFurther.form : ∀ {us ps}, DerivesFurther us ps →
    ∀ p ∈ ps, p = .empty ∨ ∃ qs, qs ≠ [] ∧ p = .seq qs
  | _, _, .nil => fun _ hp => by contradiction
  | _, _, .cons first further => List.forall_mem_cons.2 ⟨first.form, further.form⟩

theorem DerivesChoice.isGroup {us : List Token} {p : Pattern} (h : DerivesChoice us p) :
    p.IsGroup := by
  cases h with
  | mk first further =>
    exact ⟨List.cons_ne_nil _ _, List.forall_mem_cons.2 ⟨first.form, further.form⟩⟩

mutual

/-- A pattern that is derived from tokens can be written if these can. -/
theorem DerivesChoice.authored : ∀ {us p}, DerivesChoice us p → AllWritable us → p.Authored
  | _, _, .mk first further, w =>
    everywhere_iff.2 ⟨(DerivesChoice.mk first further).isGroup,
      List.forall_mem_cons.2 ⟨first.authored w.left, further.authored w.right⟩⟩

theorem DerivesFurther.authored : ∀ {us ps}, DerivesFurther us ps → AllWritable us →
    ∀ p ∈ ps, p.Authored
  | _, _, .nil, _ => fun _ hp => by contradiction
  | _, _, .cons first further, w =>
    List.forall_mem_cons.2 ⟨first.authored w.left.tail, further.authored w.right⟩

theorem DerivesAlternative.authored : ∀ {us p}, DerivesAlternative us p → AllWritable us →
    p.Authored
  | _, _, .empty, _ => everywhere_leaf trivial rfl
  | _, _, .seq terms one, w => everywhere_iff.2 ⟨⟨one, terms.isTerm, terms.apart⟩, terms.authored w⟩

theorem DerivesTerms.authored : ∀ {us ps}, DerivesTerms us ps → AllWritable us →
    ∀ p ∈ ps, p.Authored
  | _, _, .nil, _ => fun _ hp => by contradiction
  | _, _, .cons first later _, w =>
    List.forall_mem_cons.2 ⟨first.authored w.left, later.authored w.right⟩

theorem DerivesTerm.authored : ∀ {us p}, DerivesTerm us p → AllWritable us → p.Authored
  | _, _, .not h, w => everywhere_around h.isTerm rfl (h.authored w.tail)
  | _, _, .postfixed h, w => h.authored w
  | _, _, .label h _, w => everywhere_around ⟨w.right.tail.head, h.fits⟩ rfl (h.authored w.left)

theorem DerivesPostfixed.authored : ∀ {us p}, DerivesPostfixed us p → AllWritable us → p.Authored
  | _, _, .prim h, w => h.authored w
  | _, _, .opt h, w => everywhere_around h.fits rfl (h.authored w.left)
  | _, _, .star h, w => everywhere_around h.fits rfl (h.authored w.left)
  | _, _, .plus h, w => everywhere_around h.fits rfl (h.authored w.left)

theorem DerivesPrim.authored : ∀ {us p}, DerivesPrim us p → AllWritable us → p.Authored
  | _, _, .apply _, w => everywhere_leaf w.head rfl
  | _, _, .lit _, _ => everywhere_leaf trivial rfl
  | _, _, .range _ _, _ => everywhere_leaf trivial rfl
  | _, _, .paren h, w => everywhere_around h.isGroup rfl (h.authored w.left.tail)
  | _, _, .pos, _ => everywhere_leaf trivial rfl
  | _, _, .capture h _, w => everywhere_around h.isGroup rfl (h.authored w.left.tail)
  | _, _, .action h, w => everywhere_leaf (h.written w.tail) rfl
  | _, _, .pred h, w => everywhere_leaf (h.written w.left.tail.tail) rfl
  | _, _, .predBraces h, w => everywhere_leaf (h.written w.left.tail.tail) rfl
  | _, _, .eq h, w => everywhere_leaf (h.written w.left.tail.tail) rfl

end

/-! ## Rules -/

theorem DerivesRule.authored {ts : List PlacedToken} {r : Rule} (h : DerivesRule ts r)
    (w : AllWritable (tokens ts)) :
    Token.Writable (.ident r.name) ∧ r.body.Authored ∧ r.body.IsGroup := by
  cases h with
  | mk name span eq h => exact ⟨w.head, h.authored w.tail.tail, h.isGroup⟩

/-- Rules that are derived from tokens can be written. -/
theorem DerivesRules.authored {ts : List PlacedToken} {rs : List Rule} (h : DerivesRules ts rs)
    (w : AllWritable (tokens ts)) :
    ∀ r ∈ rs, Token.Writable (.ident r.name) ∧ r.body.Authored ∧ r.body.IsGroup := by
  induction h with
  | nil => exact fun _ hr => by contradiction
  | cons first _ ih =>
    rw [tokens_append] at w
    exact List.forall_mem_cons.2 ⟨first.authored w.left, ih w.right⟩
  | comma first _ _ ih =>
    rw [tokens_append, tokens_cons] at w
    exact List.forall_mem_cons.2 ⟨first.authored w.left, ih w.right.tail⟩

end Parse

/-- The tokens of a text that is parsed can be written. -/
theorem writable_of_parseGrammar {text : String} {rs : RuleSet}
    (parsed : parseGrammar text = .ok rs) :
    Parse.AllWritable (Parse.tokens (scan text).placed) := by
  intro t ht
  obtain ⟨u, hu, rfl⟩ := List.mem_map.1 ht
  exact Scan.writable_of_read (Parse.derives_of_parseGrammar parsed).1 u hu

/-- The rules of a grammar text can be written. -/
theorem authored_of_parseGrammar {text : String} {rs : RuleSet}
    (parsed : parseGrammar text = .ok rs) :
    ∀ r ∈ rs.rules, Token.Writable (.ident r.name) ∧ r.body.Authored := fun r hr =>
  have h := (Parse.derives_of_parseGrammar parsed).2.authored (writable_of_parseGrammar parsed) r hr
  ⟨h.1, h.2.1⟩

/-- The rules of a grammar text are the tree of a derivation from all tokens of the text.  So their
bodies are groups, and so is what is in parentheses or braces in them. -/
theorem derivation_of_parseGrammar {text : String} {rs : RuleSet}
    (parsed : parseGrammar text = .ok rs) :
    (scan text).errors = [] ∧ Parse.DerivesRules (scan text).placed rs.rules ∧
      ∀ r ∈ rs.rules, r.body.IsGroup ∧
        r.body.Everywhere fun q => ∀ p, q = .paren p ∨ q = .capture p → p.IsGroup := by
  obtain ⟨errors, derived⟩ := Parse.derives_of_parseGrammar parsed
  refine ⟨errors, derived, fun r hr => ?_⟩
  obtain ⟨-, authored, group⟩ := derived.authored (writable_of_parseGrammar parsed) r hr
  refine ⟨group, fun q hq p hp => ?_⟩
  have own := authored q hq
  rcases hp with rfl | rfl
  · exact own
  · exact own

/-- A text with an action before a comma, a position, a lookahead at an optional group, and a
capture. -/
def notationText : String :=
  "a = b:x -> x.y[0] + (z + 'w'),\nb = \x7b\x7d:p | ~('c'..'d' |)? \x7bb\x7d\n"

/-- The rules of that text. -/
def notationRules : RuleSet :=
  ⟨[⟨"a", .choice [.seq [.label (.apply "b") "x",
      .action (.plus (.qual (.var "x") [.attr "y", .item (.dec "0")])
        (.plus (.var "z") (.str "w")))]], ⟨0, 1⟩⟩,
    ⟨"b", .choice [.seq [.label .pos "p"],
      .seq [.not (.opt (.paren (.choice [.seq [.range 'c' 'd'], .empty]))),
        .capture (.choice [.seq [.apply "b"]])]], ⟨31, 32⟩⟩]⟩

/-- These rules are the tree of a derivation from that text. -/
theorem derivation_of_parseGrammar_notation :
    parseGrammar notationText = .ok notationRules ∧
      Parse.DerivesRules (scan notationText).placed notationRules.rules := by
  have parsed : parseGrammar notationText = .ok notationRules := by cbv
  exact ⟨parsed, (derivation_of_parseGrammar parsed).2.1⟩

end Pegboard
