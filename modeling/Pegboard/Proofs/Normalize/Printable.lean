import Pegboard.Proofs.Grammar.Written
import Pegboard.Proofs.Normalize.Closed
import Pegboard.Proofs.Normalize.Passes

/-!
# Normalized rules are printable

Whatever normalization puts into the rules of a grammar text can be written again: scopes stand
where labels are, positional names are names, and simplification leaves no group of a single part.

## Main Definitions

* `Pattern.ScopedNode`: a node between the passes of normalization.

## Main Results

* `printable_of_normalize`: the bodies of a grammar normalized from text are printable.
-/

namespace Pegboard

namespace Pattern

/-! ## Labels -/

/-- A pattern has a label if it is one, or if a part of it has one. -/
theorem hasLabel_iff_parts {p : Pattern} : p.hasLabel = true ↔
    (∃ q name, p = .label q name) ∨ ∃ q ∈ p.parts, q.hasLabel = true := by
  have own : p.said.filterMap Mention.labelName? ≠ [] ↔ ∃ q name, p = .label q name := by
    cases p <;> simp [said, Mention.labelName?, Expr.mentions]
  have split : p.mentions.filterMap Mention.labelName? = p.said.filterMap Mention.labelName? ++
      p.parts.flatMap fun q => q.mentions.filterMap Mention.labelName? :=
    kept_eq (fun _ _ => rfl) p
  have here : p.hasLabel = true ↔ p.mentions.filterMap Mention.labelName? ≠ [] := by
    rw [hasLabel, labels, Bool.not_eq_true', List.isEmpty_eq_false_iff]
  rw [here, split, ← own, Ne, List.append_eq_nil_iff, Classical.not_and_iff_not_or_not,
    List.flatMap_eq_nil_iff]
  simp [hasLabel, labels]

theorem any_hasLabel_iff {ps : List Pattern} :
    ps.any hasLabel = true ↔ ∃ q ∈ ps, q.hasLabel = true := List.any_eq_true

theorem hasLabel_of_simplify {p : Pattern} (h : p.hasLabel = true) : p.simplify.hasLabel = true := by
  rwa [← hasLabel_skeleton, skeleton_simplify, hasLabel_skeleton]

theorem any_hasLabel_labelTerms {position : Nat} {ps : List Pattern}
    (h : ps.any hasLabel = true ∨ anyNeedsLabel position ps = true) :
    (labelTerms position ps).any hasLabel = true := by
  induction ps generalizing position with
  | nil => rcases h with h | h <;> contradiction
  | cons p ps ih =>
    rw [labelTerms, List.any_cons, Bool.or_eq_true]
    by_cases needs : needsLabel position p ps = true
    · rw [if_pos needs]
      exact .inl (hasLabel_iff_parts.2 (.inl ⟨_, _, rfl⟩))
    · rw [if_neg needs]
      rcases h with h | h
      · rw [List.any_cons, Bool.or_eq_true] at h
        exact h.imp_right fun h => ih (.inl h)
      · rw [anyNeedsLabel, Bool.or_eq_true] at h
        exact .inr (ih (.inr (h.resolve_left needs)))

theorem hasLabel_positionalNode {rule : String} {p : Pattern} (h : p.hasLabel = true) :
    (positionalNode rule p).hasLabel = true := by
  unfold positionalNode
  split
  · split
    · next needs =>
      exact hasLabel_iff_parts.2 (.inr (any_hasLabel_iff.1 (any_hasLabel_labelTerms (.inr needs))))
    · exact h
  · next owner ps =>
    have any : ps.any hasLabel = true := any_hasLabel_iff.2
      ((hasLabel_iff_parts.1 h).resolve_left (by simp))
    exact hasLabel_iff_parts.2 (.inr (any_hasLabel_iff.1 (any_hasLabel_labelTerms (.inl any))))
  · exact h

/-- Positional labels take no label away. -/
theorem hasLabel_insertPositional {rule : String} {p : Pattern} (h : p.hasLabel = true) :
    (p.insertPositional rule).hasLabel = true := by
  induction p using induction_parts with
  | node p ih =>
    rw [insertPositional, rebuild_eq]
    refine hasLabel_positionalNode (hasLabel_iff_parts.2 ?_)
    rcases hasLabel_iff_parts.1 h with ⟨q, name, rfl⟩ | ⟨q, hq, hlabel⟩
    · exact .inl ⟨_, _, rfl⟩
    · refine .inr ⟨q.rebuild (positionalNode rule), ?_, ih q hq hlabel⟩
      rw [parts_mapParts]
      exact List.mem_map_of_mem hq

theorem any_hasLabel_map {f : Pattern → Pattern} (keep : ∀ p, p.hasLabel = true →
    (f p).hasLabel = true) {ps : List Pattern} (h : ps.any hasLabel = true) :
    (ps.map f).any hasLabel = true := by
  obtain ⟨q, hq, hlabel⟩ := any_hasLabel_iff.1 h
  exact any_hasLabel_iff.2 ⟨f q, List.mem_map_of_mem hq, keep q hlabel⟩

/-! ## The passes -/

/-- A node between the passes of normalization: it can be written, a choice has an alternative, and a
scope has a label. -/
def ScopedNode : Pattern → Prop
  | .choice alts => alts ≠ []
  | .scope _ ps => ps.any hasLabel = true
  | p => p.WrittenNode

/-- Whether a pattern is one that comes about in normalization. -/
def Scoped (p : Pattern) : Prop := p.Everywhere ScopedNode

theorem scoped_insertScopes {rule : String} {p : Pattern} (h : p.Authored) :
    (p.insertScopes rule).Scoped := by
  refine everywhere_insertScopes (fun q hq => ?_)
    (fun q hlabel => any_hasLabel_iff.2 ⟨q, .head _, hlabel⟩) h
  have own := (everywhere_iff.1 hq).1
  cases q with
  | choice alts =>
    have some : alts ≠ [] := own.1
    show (alts.map (rebuild (scopeNode rule))).map (scopeAlternative rule) ≠ []
    simpa using some
  | seq ps =>
    rw [mapParts, scopeNode]
    split
    · next hlabel => exact hlabel
    · trivial
  | scope | leftrec | memo => exact own.elim
  | label => exact own.1
  | not | opt | star | plus | paren | capture => trivial
  | _ => exact own

/-- A positional name is a name. -/
theorem writable_positionalName (position : Nat) :
    Token.Writable (.ident (positionalName position)) := by
  refine ⟨'_', (toString position).toList, ?_, by decide, fun d hd => ?_⟩
  · rw [positionalName, String.toList_append]
    rfl
  · rw [Nat.toString_eq_ofList_toDigits, String.toList_ofList] at hd
    have digit : d.isDigit = true := Nat.isDigit_of_mem_toDigits (by decide) (by decide) hd
    exact Lexeme.isNameChar_of_isAsciiDigit digit

theorem scoped_insertPositional {rule : String} {p : Pattern} (h : p.Scoped) :
    (p.insertPositional rule).Scoped := by
  refine everywhere_insertPositional (fun q hq => ?_)
    (fun _ position => writable_positionalName position) h
  have own := (everywhere_iff.1 hq).1
  cases q with
  | choice alts =>
    have some : alts ≠ [] := own
    show alts.map (rebuild (positionalNode rule)) ≠ []
    simpa using some
  | seq ps =>
    rw [mapParts, positionalNode]
    split
    · next needs => exact any_hasLabel_labelTerms (.inr needs)
    · trivial
  | scope owner ps =>
    have any : (ps.map (rebuild (positionalNode rule))).any hasLabel = true :=
      any_hasLabel_map (fun _ => hasLabel_insertPositional) own
    exact any_hasLabel_labelTerms (.inl any)
  | _ => exact own

/-- Simplification leaves no group of a single part. -/
theorem printable_simplify {p : Pattern} (h : p.Scoped) : p.simplify.Printable := by
  refine everywhere_of_rebuild (fun q hq parts => ?_) h
  have own := (everywhere_iff.1 hq).1
  cases q with
  | choice alts =>
    rcases alts with _ | ⟨q, _ | ⟨r, rest⟩⟩
    · exact absurd rfl own
    · exact parts _ (.head _)
    · exact everywhere_iff.2 ⟨⟨trivial, by simp [SimpleNode, mapParts, simplifyNode]⟩, parts⟩
  | seq ps =>
    rcases ps with _ | ⟨q, _ | ⟨r, rest⟩⟩
    · exact everywhere_iff.2 ⟨⟨trivial, trivial⟩, parts⟩
    · exact parts _ (.head _)
    · exact everywhere_iff.2 ⟨⟨trivial, by simp [SimpleNode, mapParts, simplifyNode]⟩, parts⟩
  | scope owner ps =>
    have any : (ps.map (rebuild simplifyNode)).any hasLabel = true :=
      any_hasLabel_map (fun _ => hasLabel_of_simplify) own
    exact everywhere_iff.2 ⟨⟨trivial, any⟩, parts⟩
  | paren q => exact parts _ (.head _)
  | _ => exact everywhere_iff.2 ⟨⟨own, trivial⟩, parts⟩

end Pattern

/-- The bodies of a grammar that is normalized from text are printable, and the names of its rules
can be written. -/
theorem printable_of_normalize {rs : RuleSet} {options : NormalizeOptions} {g : Grammar}
    (authored : ∀ r ∈ rs.rules, Token.Writable (.ident r.name) ∧ r.body.Authored)
    (normalized : rs.normalize options = .ok g) :
    ∀ b ∈ g.bodies, Token.Writable (.ident b.1) ∧ b.2.Printable := by
  refine RuleSet.forall_mem_of_normalize
    (P := fun name body => Token.Writable (.ident name) ∧ body.Printable) normalized
    (fun r hr => ?_) fun _ _ _ h => ⟨h.1, Bodies.everywhere_wrapMemo_of ⟨trivial, trivial⟩ h.2⟩
  obtain ⟨name, body⟩ := authored r hr
  exact ⟨name, Pattern.printable_simplify (Pattern.scoped_insertPositional
    (Bodies.everywhere_wrapLeftRecursive trivial (Pattern.scoped_insertScopes body)))⟩

end Pegboard
