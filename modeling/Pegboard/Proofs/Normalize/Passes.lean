import Pegboard.Normalize
import Pegboard.Proofs.Grammar.Parts

/-!
# The passes of normalization

What is so of all nodes of a body once a pass went over it.  For each pass it is enough to look at
one node whose parts have been gone over, and at what the pass puts around a part.

## Main Results

* `Pattern.everywhere_insertScopes`: all nodes once scopes are put in.
* `Pattern.everywhere_insertPositional`: all nodes once positional labels are put in.
* `Pattern.everywhere_simplify`: all nodes after simplification.
* `Pattern.Steady`: what the passes keep, because it is so of all nodes that they put in.
-/

namespace Pegboard

namespace Pattern

variable {P Q : Pattern → Prop} {rule : String}

/-! ## Scopes -/

theorem everywhere_scopeAlternative {p : Pattern}
    (scope : p.hasLabel = true → Q (.scope rule [p])) (h : p.Everywhere Q) :
    (scopeAlternative rule p).Everywhere Q := by
  unfold scopeAlternative
  split
  · exact h
  · exact h
  · split
    · next label => exact everywhere_around (scope label) rfl h
    · exact h

/-- Scopes are put in at every node, and around alternatives with a label. -/
theorem everywhere_insertScopes
    (node : ∀ q : Pattern, q.Everywhere P →
      Q (scopeNode rule (q.mapParts (rebuild (scopeNode rule)))))
    (scope : ∀ q : Pattern, q.hasLabel = true → Q (.scope rule [q])) {p : Pattern}
    (h : p.Everywhere P) : (p.insertScopes rule).Everywhere Q := by
  have rebuilt : (p.rebuild (scopeNode rule)).Everywhere Q := by
    refine everywhere_of_rebuild (fun q hq parts => ?_) h
    have own := node q hq
    generalize q.mapParts (rebuild (scopeNode rule)) = q at parts own ⊢
    cases q with
    | choice alts =>
      refine everywhere_iff.2 ⟨own, fun r hr => ?_⟩
      obtain ⟨alt, halt, rfl⟩ := List.mem_map.1 hr
      exact everywhere_scopeAlternative (scope alt) (parts alt halt)
    | seq ps =>
      rw [scopeNode] at own ⊢
      split at own
      · next label => exact everywhere_iff.2 ⟨by rwa [if_pos label], by rwa [if_pos label]⟩
      · next none => exact everywhere_iff.2 ⟨by rwa [if_neg none], by rwa [if_neg none]⟩
    | _ => exact everywhere_iff.2 ⟨own, parts⟩
  unfold insertScopes
  split
  · next hchoice => exact hchoice ▸ rebuilt
  · exact everywhere_scopeAlternative (scope _) rebuilt

/-! ## Positional labels -/

theorem everywhere_labelTerms (label : ∀ (q : Pattern) (position : Nat),
    Q (.label q (positionalName position))) {ps : List Pattern} (h : ∀ p ∈ ps, p.Everywhere Q)
    (position : Nat) : ∀ p ∈ labelTerms position ps, p.Everywhere Q := by
  induction ps generalizing position with
  | nil => exact fun _ hp => by contradiction
  | cons p ps ih =>
    rw [labelTerms]
    refine List.forall_mem_cons.2 ⟨?_, ih (fun q hq => h q (.tail _ hq)) (position + 1)⟩
    split
    · exact everywhere_around (label p position) rfl (h p (.head _))
    · exact h p (.head _)

/-- Positional labels are put in at every node, and around terms. -/
theorem everywhere_insertPositional
    (node : ∀ q : Pattern, q.Everywhere P →
      Q (positionalNode rule (q.mapParts (rebuild (positionalNode rule)))))
    (label : ∀ (q : Pattern) (position : Nat), Q (.label q (positionalName position)))
    {p : Pattern} (h : p.Everywhere P) : (p.insertPositional rule).Everywhere Q := by
  refine everywhere_of_rebuild (fun q hq parts => ?_) h
  have own := node q hq
  generalize q.mapParts (rebuild (positionalNode rule)) = q at parts own ⊢
  cases q with
  | seq ps =>
    rw [positionalNode] at own ⊢
    split at own
    · next needs =>
      rw [if_pos needs]
      exact everywhere_iff.2 ⟨own, everywhere_labelTerms label parts 1⟩
    · next none =>
      rw [if_neg none]
      exact everywhere_iff.2 ⟨own, parts⟩
  | scope owner ps => exact everywhere_iff.2 ⟨own, everywhere_labelTerms label parts 1⟩
  | _ => exact everywhere_iff.2 ⟨own, parts⟩

/-! ## Simplification -/

/-- What stays when groups are taken away was there, the empty pattern apart. -/
theorem everywhere_simplify (node : ∀ q : Pattern, q.Everywhere P → Q (q.mapParts simplify))
    (empty : Q .empty) {p : Pattern} (h : p.Everywhere P) : p.simplify.Everywhere Q := by
  refine everywhere_of_rebuild (fun q hq parts => ?_) h
  have own : Q (q.mapParts (rebuild simplifyNode)) := node q hq
  generalize q.mapParts (rebuild simplifyNode) = q at parts own ⊢
  unfold simplifyNode
  split
  · exact parts _ (.head _)
  · exact parts _ (.head _)
  · exact everywhere_leaf empty rfl
  · exact parts _ (.head _)
  · exact everywhere_iff.2 ⟨own, parts⟩

/-! ## What the passes keep -/

/-- Something that is so of a node whatever its parts are, and of all nodes that the passes put in,
apart from the wrappers. -/
structure Steady (P : Pattern → Prop) : Prop where
  parts : ∀ (f : Pattern → Pattern) {p : Pattern}, P p → P (p.mapParts f)
  choice : ∀ ps, P (.choice ps)
  seq : ∀ ps, P (.seq ps)
  scope : ∀ owner ps, P (.scope owner ps)
  label : ∀ p name, P (.label p name)
  empty : P .empty

namespace Steady

theorem insertScopes (steady : Steady P) {p : Pattern} (h : p.Everywhere P) :
    (p.insertScopes rule).Everywhere P := by
  refine everywhere_insertScopes (fun q hq => ?_) (fun q _ => steady.scope rule [q]) h
  have own := steady.parts (rebuild (scopeNode rule)) (everywhere_iff.1 hq).1
  unfold scopeNode
  split
  · split
    · exact steady.scope _ _
    · exact steady.seq _
  · exact steady.choice _
  · exact own

theorem insertPositional (steady : Steady P) {p : Pattern} (h : p.Everywhere P) :
    (p.insertPositional rule).Everywhere P := by
  refine everywhere_insertPositional (fun q hq => ?_) (fun q _ => steady.label q _) h
  have own := steady.parts (rebuild (positionalNode rule)) (everywhere_iff.1 hq).1
  unfold positionalNode
  split
  · split
    · exact steady.scope _ _
    · exact steady.seq _
  · exact steady.scope _ _
  · exact own

theorem simplify (steady : Steady P) {p : Pattern} (h : p.Everywhere P) :
    p.simplify.Everywhere P :=
  everywhere_simplify (fun _ hq => steady.parts _ (everywhere_iff.1 hq).1) steady.empty h

end Steady

end Pattern

/-! ## Left recursion -/

/-- A body that may have been wrapped for left recursion. -/
theorem Bodies.everywhere_wrapLeftRecursive {Q : Pattern → Prop} {recursive : List String}
    {rule : String} {body : Pattern} (wrapper : Q (.leftrec body rule)) (h : body.Everywhere Q) :
    (wrapLeftRecursive recursive rule body).Everywhere Q := by
  unfold wrapLeftRecursive
  split
  · exact Pattern.everywhere_around wrapper rfl h
  · exact h

end Pegboard
