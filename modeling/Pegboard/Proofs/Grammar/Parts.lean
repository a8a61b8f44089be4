import Pegboard.Grammar.Mention
import Pegboard.Proofs.Grammar.Opening

/-!
# The parts of a pattern

Many passes over patterns do the same at every node: they change the parts first and then the node.
This module speaks of a node by its parts, whatever its form, so that a property of such a pass
follows from what it does at one node.

## Main Definitions

* `Pattern.mapParts`: a pattern with its parts changed.
* `Pattern.expr?`: the expression that a node holds.
* `Pattern.said`: what a pattern mentions apart from its parts.

## Main Results

* `Pattern.induction_parts`: induction from the parts of a pattern to the pattern.
* `Pattern.rebuild_absorb`: a rebuilding that undoes another one at every node undoes it as a whole.
* `Pattern.everywhere_of_rebuild`: what is so of all nodes after rebuilding.
* `Pattern.mem_nodes_rebuild`: what becomes of a node when a pattern is rebuilt.
* `Pattern.kept_rebuild`: what is mentioned after rebuilding.
* `Pattern.mem_applied_iff`, `Pattern.mem_labels_iff`, `Pattern.mem_variableNames_iff`: the nodes at
  which a name is mentioned.
-/

namespace Pegboard.Pattern

/-- A pattern with its parts changed. -/
def mapParts (g : Pattern → Pattern) : Pattern → Pattern
  | .choice alts => .choice (alts.map g)
  | .seq ps => .seq (ps.map g)
  | .scope rule ps => .scope rule (ps.map g)
  | .label p name => .label (g p) name
  | .leftrec p rule => .leftrec (g p) rule
  | .memo p rule => .memo (g p) rule
  | .not p => .not (g p)
  | .opt p => .opt (g p)
  | .star p => .star (g p)
  | .plus p => .plus (g p)
  | .paren p => .paren (g p)
  | .capture p => .capture (g p)
  | .apply name => .apply name
  | .lit text => .lit text
  | .range lo hi => .range lo hi
  | .pred e => .pred e
  | .eq e => .eq e
  | .action e => .action e
  | .pos => .pos
  | .empty => .empty

theorem parts_mapParts (g : Pattern → Pattern) (p : Pattern) :
    (p.mapParts g).parts = p.parts.map g := by
  cases p <;> rfl

theorem mapParts_mapParts (f g : Pattern → Pattern) (p : Pattern) :
    (p.mapParts f).mapParts g = p.mapParts fun q => g (f q) := by
  cases p <;> simp [mapParts, Function.comp_def]

theorem mapParts_congr {f g : Pattern → Pattern} {p : Pattern} (h : ∀ q ∈ p.parts, f q = g q) :
    p.mapParts f = p.mapParts g := by
  cases p <;> simp [parts] at h <;> simp [mapParts] <;> exact h

theorem mapParts_eq_self {g : Pattern → Pattern} {p : Pattern} (h : ∀ q ∈ p.parts, g q = q) :
    p.mapParts g = p := by
  rw [mapParts_congr h]
  cases p <;> simp [mapParts]

/-- Rebuilding changes the parts and then the node. -/
theorem rebuild_eq (f : Pattern → Pattern) (p : Pattern) :
    p.rebuild f = f (p.mapParts (rebuild f)) := by
  cases p <;> simp only [rebuild, mapParts, rebuildAll_eq_map]

/-! ## Induction -/

theorem sizeOf_lt_of_mem_parts {p q : Pattern} (h : q ∈ p.parts) : sizeOf q < sizeOf p := by
  have hlist : sizeOf q < sizeOf p.parts := List.sizeOf_lt_of_mem h
  cases p with
  | choice ps =>
    simp only [parts, choice.sizeOf_spec] at *
    omega
  | seq ps =>
    simp only [parts, seq.sizeOf_spec] at *
    omega
  | scope rule ps =>
    simp only [parts, scope.sizeOf_spec] at *
    omega
  | _ =>
    simp only [parts, List.mem_singleton, List.not_mem_nil] at h
    try subst h
    all_goals simp <;> omega

/-- Induction from the parts of a pattern to the pattern. -/
@[elab_as_elim]
theorem induction_parts {motive : Pattern → Prop}
    (node : ∀ p, (∀ q ∈ p.parts, motive q) → motive p) (p : Pattern) : motive p :=
  node p fun q _ => induction_parts node q
termination_by sizeOf p
decreasing_by exact sizeOf_lt_of_mem_parts (by assumption)

/-- A rebuilding that does not see what `f` does at a node does not see a rebuilding by `f`. -/
theorem rebuild_absorb {f g : Pattern → Pattern}
    (h : ∀ q : Pattern, (f q).rebuild g = q.rebuild g) (p : Pattern) :
    (p.rebuild f).rebuild g = p.rebuild g := by
  induction p using induction_parts with
  | node p ih =>
    rw [rebuild_eq f, h, rebuild_eq g, mapParts_mapParts, mapParts_congr ih, ← rebuild_eq g p]

/-- What is so of all nodes after rebuilding, if it is so at a node once it is so of its parts. -/
theorem everywhere_of_rebuild {P Q : Pattern → Prop} {f : Pattern → Pattern}
    (change : ∀ q : Pattern, q.Everywhere P →
      (∀ r ∈ (q.mapParts (rebuild f)).parts, r.Everywhere Q) →
        (f (q.mapParts (rebuild f))).Everywhere Q) {p : Pattern} (h : p.Everywhere P) :
    (p.rebuild f).Everywhere Q := by
  induction p using induction_parts with
  | node p ih =>
    rw [rebuild_eq]
    refine change p h fun r hr => ?_
    rw [parts_mapParts] at hr
    obtain ⟨q, hq, rfl⟩ := List.mem_map.1 hr
    exact ih q hq ((everywhere_iff.1 h).2 q hq)

/-! ## Nodes -/

theorem mem_nodes_iff {p r : Pattern} : r ∈ p.nodes ↔ r = p ∨ ∃ q ∈ p.parts, r ∈ q.nodes := by
  have list (ps : List Pattern) : r ∈ nodesAll ps ↔ ∃ q ∈ ps, r ∈ q.nodes := by
    induction ps with
    | nil => simp [nodesAll]
    | cons q ps ih => simp [nodesAll, ih]
  rw [nodes_eq, List.mem_cons, list]

theorem mem_nodes_self (p : Pattern) : p ∈ p.nodes := mem_nodes_iff.2 (.inl rfl)

theorem mem_nodes_of_part {p q : Pattern} (h : q ∈ p.parts) : q ∈ p.nodes :=
  mem_nodes_iff.2 (.inr ⟨q, h, q.mem_nodes_self⟩)

theorem mem_nodes_trans {p q r : Pattern} (hq : q ∈ p.nodes) (hr : r ∈ q.nodes) : r ∈ p.nodes := by
  induction p using induction_parts with
  | node p ih =>
    rcases mem_nodes_iff.1 hq with rfl | ⟨part, hpart, hq⟩
    · exact hr
    · exact mem_nodes_iff.2 (.inr ⟨part, hpart, ih part hpart hq⟩)

/-- What becomes of a node is a node of what becomes of the pattern, if the change of a node keeps
its parts. -/
theorem mem_nodes_rebuild {f : Pattern → Pattern}
    (keep : ∀ q : Pattern, ∀ r ∈ q.parts, r ∈ (f q).nodes) {p q : Pattern} (h : q ∈ p.nodes) :
    q.rebuild f ∈ (p.rebuild f).nodes := by
  induction p using induction_parts with
  | node p ih =>
    rcases mem_nodes_iff.1 h with rfl | ⟨part, hpart, h⟩
    · exact mem_nodes_self _
    · rw [rebuild_eq f p]
      refine mem_nodes_trans (keep _ (part.rebuild f) ?_) (ih part hpart h)
      rw [parts_mapParts]
      exact List.mem_map_of_mem hpart

/-! ## What is mentioned -/

/-- The expression that a node holds. -/
def expr? : Pattern → Option Expr
  | .pred e => some e
  | .eq e => some e
  | .action e => some e
  | _ => none

/-- What a pattern mentions apart from its parts, the forms of wrappers left out. -/
def said : Pattern → List Mention
  | .label _ name => [.label name]
  | .apply name => [.apply name]
  | .lit text => [.lit text]
  | .range lo hi => [.range lo hi]
  | .pred e => e.mentions
  | .eq e => e.mentions
  | .action e => e.mentions
  | _ => []

theorem said_mapParts (g : Pattern → Pattern) (p : Pattern) : (p.mapParts g).said = p.said := by
  cases p <;> rfl

section Kept

variable {α : Type} {kind : Mention → Option α} {f : Pattern → Pattern}

/-- What of one kind is mentioned: what a pattern says itself, and then what its parts mention. -/
theorem kept_eq (blind : ∀ outer inner, kind (.wrapper outer inner) = none) (p : Pattern) :
    p.mentions.filterMap kind
      = p.said.filterMap kind ++ p.parts.flatMap fun q => q.mentions.filterMap kind := by
  cases p <;>
    simp [mentions, said, parts, mentionsAll_eq_flatMap, List.filterMap_flatMap,
      List.filterMap_cons, blind]
  split <;> rfl

/-- Rebuilding keeps what is mentioned of one kind if the change of a node does. -/
theorem kept_rebuild (blind : ∀ outer inner, kind (.wrapper outer inner) = none)
    (change : ∀ q : Pattern, (f q).mentions.filterMap kind = q.mentions.filterMap kind)
    (p : Pattern) : (p.rebuild f).mentions.filterMap kind = p.mentions.filterMap kind := by
  induction p using induction_parts with
  | node p ih =>
    rw [rebuild_eq, change, kept_eq blind, kept_eq blind p, said_mapParts, parts_mapParts,
      List.flatMap_map]
    congr 1
    rw [List.flatMap_def, List.flatMap_def, List.map_congr_left ih]

/-- What of one kind is mentioned is what the nodes say of it. -/
theorem mem_kept_iff (blind : ∀ outer inner, kind (.wrapper outer inner) = none) {p : Pattern}
    {x : α} : x ∈ p.mentions.filterMap kind ↔ ∃ q ∈ p.nodes, x ∈ q.said.filterMap kind := by
  induction p using induction_parts with
  | node p ih =>
    rw [kept_eq blind, List.mem_append, List.mem_flatMap]
    constructor
    · rintro (own | ⟨q, hq, inside⟩)
      · exact ⟨p, p.mem_nodes_self, own⟩
      · obtain ⟨r, hr, own⟩ := (ih q hq).1 inside
        exact ⟨r, mem_nodes_iff.2 (.inr ⟨q, hq, hr⟩), own⟩
    · rintro ⟨r, hr, own⟩
      rcases mem_nodes_iff.1 hr with rfl | ⟨q, hq, hr⟩
      · exact .inl own
      · exact .inr ⟨q, hq, (ih q hq).2 ⟨r, hr, own⟩⟩

end Kept

/-- A pattern applies the rules that one of its nodes applies, at whatever depth. -/
theorem mem_applied_iff {p : Pattern} {name : String} :
    name ∈ p.applied ↔ .apply name ∈ p.nodes := by
  have said (q : Pattern) : name ∈ q.said.filterMap Mention.appliedName? ↔ q = .apply name := by
    cases q <;> simp [said, Mention.appliedName?, Expr.mentions, eq_comm]
  rw [applied, mem_kept_iff fun _ _ => rfl]
  simp only [said, exists_eq_right]

theorem applied_subset_of_part {p q : Pattern} (h : q ∈ p.parts) : q.applied ⊆ p.applied := by
  intro name hname
  exact mem_applied_iff.2 (mem_nodes_trans (mem_nodes_of_part h) (mem_applied_iff.1 hname))

/-- A pattern has the labels that stand somewhere in it. -/
theorem mem_labels_iff {p : Pattern} {name : String} :
    name ∈ p.labels ↔ ∃ inner, .label inner name ∈ p.nodes := by
  have said (q : Pattern) :
      name ∈ q.said.filterMap Mention.labelName? ↔ ∃ inner, q = .label inner name := by
    cases q <;> simp [said, Mention.labelName?, Expr.mentions, eq_comm]
  rw [labels, mem_kept_iff fun _ _ => rfl]
  simp only [said]
  exact ⟨fun ⟨_, hq, inner, h⟩ => ⟨inner, h ▸ hq⟩, fun ⟨inner, hq⟩ => ⟨_, hq, inner, rfl⟩⟩

/-- The labels of a node are labels of the pattern. -/
theorem labels_subset_of_node {p q : Pattern} (h : q ∈ p.nodes) : q.labels ⊆ p.labels := by
  intro name hname
  obtain ⟨inner, label⟩ := mem_labels_iff.1 hname
  exact mem_labels_iff.2 ⟨inner, mem_nodes_trans h label⟩

/-- A pattern mentions the variables of the expressions that its nodes hold. -/
theorem mem_variableNames_iff {p : Pattern} {name : String} :
    name ∈ p.variableNames ↔
      ∃ q ∈ p.nodes, ∃ e, q.expr? = some e ∧ name ∈ e.variableNames := by
  have said (q : Pattern) : name ∈ q.said.filterMap Mention.variableName? ↔
      ∃ e, q.expr? = some e ∧ name ∈ e.variableNames := by
    cases q <;> simp [said, expr?, Mention.variableName?, Expr.mentions]
  rw [variableNames, mem_kept_iff fun _ _ => rfl]
  simp only [said]

end Pegboard.Pattern
