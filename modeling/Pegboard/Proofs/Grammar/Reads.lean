import Pegboard.Proofs.Expr.Reads
import Pegboard.Proofs.Grammar.Opening

/-!
# The bindings that a pattern depends on

What a pattern does depends on the bindings in scope through the names that its expressions look up,
and those of the rules that it applies.  Some of these names the pattern has bound itself by then.
This module says which names are bound when a pattern has succeeded, and whether a pattern looks up
only names that are known beforehand or that it has bound itself.

Labels count only where they are sure to have bound: the label of an alternative is not bound if
another alternative was taken, nor is a label inside an optional pattern or a lookahead.

## Main Definitions

* `Pattern.Binds`: a name is bound whenever the pattern has succeeded.
* `Pattern.Knows`: the pattern looks up only names that are known or bound by itself.
-/

namespace Pegboard.Pattern

/-- The names that the expression of a pattern may look up, if it has one of its own. -/
def reads : Pattern → List String
  | .pred e => e.reads
  | .eq e => e.reads
  | .action e => e.reads
  | _ => []

mutual

/-- Whether a name is bound in the innermost scope whenever a pattern has succeeded. -/
def Binds (name : String) : Pattern → Prop
  | .choice alts => BindsEach name alts
  | .seq ps => BindsSome name ps
  | .label p bound => bound = name ∨ Binds name p
  | .plus p => Binds name p
  | .paren p => Binds name p
  | .capture p => Binds name p
  | .scope _ _ => False
  | .leftrec _ _ => False
  | .memo _ _ => False
  | .apply _ => False
  | .lit _ => False
  | .range _ _ => False
  | .not _ => False
  | .opt _ => False
  | .star _ => False
  | .pred _ => False
  | .eq _ => False
  | .action _ => False
  | .pos => False
  | .empty => False

/-- Whether a name is bound whichever of some alternatives has succeeded. -/
def BindsEach (name : String) : List Pattern → Prop
  | [] => True
  | p :: ps => Binds name p ∧ BindsEach name ps

/-- Whether a name is bound once some terms have all succeeded. -/
def BindsSome (name : String) : List Pattern → Prop
  | [] => False
  | p :: ps => Binds name p ∨ BindsSome name ps

end

mutual

/-- Whether a pattern looks up only names that are in `known` or that it has bound itself, and
applies only rules in `callee`. -/
def Knows (callee known : String → Prop) : Pattern → Prop
  | .choice alts => KnowsEach callee known alts
  | .seq ps => KnowsTerms callee known ps
  | .scope _ ps => KnowsTerms callee known ps
  | .label p _ => Knows callee known p
  | .leftrec p _ => Knows callee known p
  | .memo p _ => Knows callee known p
  | .apply name => callee name
  | .lit _ => True
  | .range _ _ => True
  | .not p => Knows callee known p
  | .opt p => Knows callee known p
  | .star p => Knows callee known p
  | .plus p => Knows callee known p
  | .paren p => Knows callee known p
  | .capture p => Knows callee known p
  | .pred e => ∀ name ∈ e.reads, known name
  | .eq e => ∀ name ∈ e.reads, known name
  | .action e => ∀ name ∈ e.reads, known name
  | .pos => True
  | .empty => True

/-- Whether alternatives look up only names that are known or that they have bound themselves. -/
def KnowsEach (callee known : String → Prop) : List Pattern → Prop
  | [] => True
  | p :: ps => Knows callee known p ∧ KnowsEach callee known ps

/-- Whether terms look up only names that are known or that one of them has bound before. -/
def KnowsTerms (callee known : String → Prop) : List Pattern → Prop
  | [] => True
  | p :: ps =>
    Knows callee known p ∧ KnowsTerms callee (fun name => known name ∨ Binds name p) ps

end

section Nodes

variable {callee callee' : String → Prop}

mutual

/-- Which rules may be applied and which names are known only has to do with what the nodes of a
pattern apply and look up. -/
theorem knows_of_nodes {a b : String → Prop} :
    ∀ p : Pattern, (p.Everywhere fun q => (∀ name, q = .apply name → callee name → callee' name) ∧
      ∀ name ∈ q.reads, a name → b name) → p.Knows callee a → p.Knows callee' b
  | .choice alts, h, hp => knowsEach_of_nodes alts (everywhere_iff.1 h).2 hp
  | .seq ps, h, hp => knowsTerms_of_nodes ps (everywhere_iff.1 h).2 hp
  | .scope _ ps, h, hp => knowsTerms_of_nodes ps (everywhere_iff.1 h).2 hp
  | .label p _, h, hp => knows_of_nodes p ((everywhere_iff.1 h).2 p (.head _)) hp
  | .leftrec p _, h, hp => knows_of_nodes p ((everywhere_iff.1 h).2 p (.head _)) hp
  | .memo p _, h, hp => knows_of_nodes p ((everywhere_iff.1 h).2 p (.head _)) hp
  | .not p, h, hp => knows_of_nodes p ((everywhere_iff.1 h).2 p (.head _)) hp
  | .opt p, h, hp => knows_of_nodes p ((everywhere_iff.1 h).2 p (.head _)) hp
  | .star p, h, hp => knows_of_nodes p ((everywhere_iff.1 h).2 p (.head _)) hp
  | .plus p, h, hp => knows_of_nodes p ((everywhere_iff.1 h).2 p (.head _)) hp
  | .paren p, h, hp => knows_of_nodes p ((everywhere_iff.1 h).2 p (.head _)) hp
  | .capture p, h, hp => knows_of_nodes p ((everywhere_iff.1 h).2 p (.head _)) hp
  | .apply name, h, hp => (everywhere_iff.1 h).1.1 name rfl hp
  | .pred _, h, hp => fun name hn => (everywhere_iff.1 h).1.2 name hn (hp name hn)
  | .eq _, h, hp => fun name hn => (everywhere_iff.1 h).1.2 name hn (hp name hn)
  | .action _, h, hp => fun name hn => (everywhere_iff.1 h).1.2 name hn (hp name hn)
  | .lit _, _, _ => trivial
  | .range _ _, _, _ => trivial
  | .pos, _, _ => trivial
  | .empty, _, _ => trivial

theorem knowsEach_of_nodes {a b : String → Prop} :
    ∀ ps : List Pattern, (∀ p ∈ ps, p.Everywhere fun q =>
      (∀ name, q = .apply name → callee name → callee' name) ∧
        ∀ name ∈ q.reads, a name → b name) → KnowsEach callee a ps → KnowsEach callee' b ps
  | [], _, _ => trivial
  | p :: ps, h, hp => hp.imp (knows_of_nodes p (h p (.head _)))
      (knowsEach_of_nodes ps fun q hq => h q (.tail _ hq))

theorem knowsTerms_of_nodes {a b : String → Prop} :
    ∀ ps : List Pattern, (∀ p ∈ ps, p.Everywhere fun q =>
      (∀ name, q = .apply name → callee name → callee' name) ∧
        ∀ name ∈ q.reads, a name → b name) → KnowsTerms callee a ps → KnowsTerms callee' b ps
  | [], _, _ => trivial
  | p :: ps, h, hp => by
    refine hp.imp (knows_of_nodes p (h p (.head _))) (knowsTerms_of_nodes ps fun q hq r hr => ?_)
    -- What the first term has bound stays known.
    obtain ⟨applies, reads⟩ := h q (.tail _ hq) r hr
    exact ⟨applies, fun name hn => Or.imp_left (reads name hn)⟩

end

end Nodes

/-- A pattern that looks up only known names does so if more are known. -/
theorem knows_mono {callee a b : String → Prop} (h : ∀ name, a name → b name) (p : Pattern)
    (hp : p.Knows callee a) : p.Knows callee b :=
  knows_of_nodes p (fun _ _ => ⟨fun _ _ => id, fun name _ => h name⟩) hp

mutual

/-- If all names are known and all rules may be applied, there is nothing to ask of a pattern. -/
theorem knows_of_all {callee a : String → Prop} (rules : ∀ name, callee name)
    (names : ∀ name, a name) : ∀ p : Pattern, p.Knows callee a
  | .choice alts => knowsEach_of_all rules names alts
  | .seq ps => knowsTerms_of_all rules names ps
  | .scope _ ps => knowsTerms_of_all rules names ps
  | .label p _ => knows_of_all rules names p
  | .leftrec p _ => knows_of_all rules names p
  | .memo p _ => knows_of_all rules names p
  | .apply name => rules name
  | .lit _ => trivial
  | .range _ _ => trivial
  | .not p => knows_of_all rules names p
  | .opt p => knows_of_all rules names p
  | .star p => knows_of_all rules names p
  | .plus p => knows_of_all rules names p
  | .paren p => knows_of_all rules names p
  | .capture p => knows_of_all rules names p
  | .pred _ => fun name _ => names name
  | .eq _ => fun name _ => names name
  | .action _ => fun name _ => names name
  | .pos => trivial
  | .empty => trivial

theorem knowsEach_of_all {callee a : String → Prop} (rules : ∀ name, callee name)
    (names : ∀ name, a name) : ∀ ps : List Pattern, KnowsEach callee a ps
  | [] => trivial
  | p :: ps => ⟨knows_of_all rules names p, knowsEach_of_all rules names ps⟩

theorem knowsTerms_of_all {callee a : String → Prop} (rules : ∀ name, callee name)
    (names : ∀ name, a name) : ∀ ps : List Pattern, KnowsTerms callee a ps
  | [] => trivial
  | p :: ps => ⟨knows_of_all rules names p,
      knowsTerms_of_all rules (fun name => .inl (names name)) ps⟩

end

end Pegboard.Pattern
