import Pegboard.Proofs.Normalize.Printable

/-!
# Tidy bodies

Normalization puts scopes where labels are, and so the labels of a body are exposed in few places
only: among the terms of a scope, in a label, or in a lookahead.  A body is tidy if what stands in
any other place is closed.  A scope that is put into a tidy body is a scope around closed patterns.

## Main Definitions

* `Pattern.Tidy`: sequences, choices, repetitions and captures are closed, wherever they stand.

## Main Results

* `tidy_of_normalize`: the bodies of a grammar normalized from text are tidy.
-/

namespace Pegboard

namespace Pattern

/-- Whether a node other than a scope, a label or a lookahead has closed parts. -/
def TidyNode : Pattern → Prop
  | .choice alts => ClosedAll alts
  | .seq ps => ClosedAll ps
  | .opt p => p.Closed
  | .star p => p.Closed
  | .plus p => p.Closed
  | .capture p => p.Closed
  | _ => True

def Tidy (p : Pattern) : Prop := p.Everywhere TidyNode

/-! ## Putting scopes in -/

/-- A group is closed once scopes are put into it. -/
theorem closed_rebuild_of_isGroup {rule : String} {p : Pattern} (h : p.IsGroup) :
    (p.rebuild (scopeNode rule)).Closed := by
  cases p with
  | choice alts => exact closed_rebuild_choice rule alts
  | _ => exact h.elim

/-- What needs no parentheses before a sign of repetition is closed once scopes are put into it. -/
theorem closed_rebuild_of_prim {rule : String} {p : Pattern} (authored : p.AuthoredNode)
    (fits : p.Fits .prim) : (p.rebuild (scopeNode rule)).Closed := by
  have prim := fits.level_prim
  cases p with
  | paren q =>
    show (q.rebuild (scopeNode rule)).Closed
    exact closed_rebuild_of_isGroup authored
  | capture q =>
    show (q.rebuild (scopeNode rule)).Closed
    exact closed_rebuild_of_isGroup authored
  | choice | seq | scope | leftrec | memo => exact fits.isTerm.elim
  | label | not | opt | star | plus => contradiction
  | _ => trivial

/-- A body that was parsed is tidy once scopes are put into it. -/
theorem tidy_insertScopes {rule : String} {p : Pattern} (h : p.Authored) :
    (p.insertScopes rule).Tidy := by
  refine everywhere_insertScopes (fun q hq => ?_) (fun _ _ => trivial) h
  obtain ⟨own, parts⟩ := everywhere_iff.1 hq
  have closed : ∀ r ∈ q.parts, r.Fits .prim → (r.rebuild (scopeNode rule)).Closed :=
    fun r hr fits => closed_rebuild_of_prim (everywhere_iff.1 (parts r hr)).1 fits
  cases q with
  | choice alts =>
    have here : ((choice alts).rebuild (scopeNode rule)).Closed := closed_rebuild_choice rule alts
    rw [rebuild, rebuildAll_eq_map, scopeNode] at here
    exact here
  | seq ps =>
    rw [mapParts, scopeNode]
    split
    · trivial
    · next none => exact closedAll_of_not_any none
  | capture r => exact closed_rebuild_of_isGroup own
  | opt r => exact closed r (.head _) own
  | star r => exact closed r (.head _) own
  | plus r => exact closed r (.head _) own
  | scope | leftrec | memo => exact own.elim
  | _ => trivial

/-! ## The other passes -/

/-- A pass that keeps patterns closed keeps nodes tidy. -/
theorem tidyNode_mapParts {g : Pattern → Pattern} (keep : ∀ q : Pattern, q.Closed → (g q).Closed)
    {p : Pattern} (h : p.TidyNode) : (p.mapParts g).TidyNode := by
  have all : ∀ {ps : List Pattern}, ClosedAll ps → ClosedAll (ps.map g) := by
    intro ps closed
    refine closedAll_iff.2 fun q hq => ?_
    obtain ⟨r, hr, rfl⟩ := List.mem_map.1 hq
    exact keep r (closedAll_iff.1 closed r hr)
  cases p with
  | choice => exact all h
  | seq => exact all h
  | opt => exact keep _ h
  | star => exact keep _ h
  | plus => exact keep _ h
  | capture => exact keep _ h
  | _ => trivial

theorem tidy_insertPositional {rule : String} {p : Pattern} (h : p.Tidy) :
    (p.insertPositional rule).Tidy := by
  refine everywhere_insertPositional (fun q hq => ?_) (fun _ _ => trivial) h
  have own := tidyNode_mapParts (g := rebuild (positionalNode rule))
    (fun _ => closed_insertPositional) (everywhere_iff.1 hq).1
  generalize q.mapParts (rebuild (positionalNode rule)) = q at own ⊢
  cases q with
  | seq ps =>
    rw [positionalNode]
    split
    · trivial
    · exact own
  | scope owner ps => trivial
  | _ => exact own

theorem tidy_simplify {p : Pattern} (h : p.Tidy) : p.simplify.Tidy :=
  everywhere_simplify
    (fun _ hq => tidyNode_mapParts (fun _ => closed_simplify) (everywhere_iff.1 hq).1) trivial h

end Pattern

theorem Bodies.tidy_finishBody {recursive : List String} {rule : String} {body : Pattern}
    (h : body.Tidy) : (finishBody recursive rule body).Tidy :=
  Pattern.tidy_simplify (Pattern.tidy_insertPositional (everywhere_wrapLeftRecursive trivial h))

/-- The bodies of a grammar that is normalized from text are tidy. -/
theorem tidy_of_normalize {rs : RuleSet} {leftAssoc : List String} {g : Grammar}
    (authored : ∀ r ∈ rs.rules, Token.Writable (.ident r.name) ∧ r.body.Authored)
    (normalized : rs.normalize ⟨false, leftAssoc⟩ = .ok g) : ∀ b ∈ g.bodies, b.2.Tidy := by
  obtain ⟨-, -, rfl⟩ := RuleSet.normalize_eq_ok.1 normalized
  intro b hb
  obtain ⟨r, hr, -, hbody⟩ := RuleSet.rule_of_finished hb
  rw [hbody]
  exact Bodies.tidy_finishBody (Pattern.tidy_insertScopes (authored r hr).2)

end Pegboard
