import Mathlib.Data.List.Forall2
import Pegboard.Proofs.Grammar.Lines
import Pegboard.Proofs.Normalize.Printable

/-!
# Settled bodies

Positional labels are put in once.  A body is settled if no sequence of it needs any more of them;
the pass gives settled bodies, and it leaves a settled body as it is.  The other passes keep a body
settled, and so does printing it and reading it back, for the terms of a sequence stay in their
order, mention the same variables, and have their labels.

## Main Definitions

* `Pattern.Settled`: no sequence of a pattern needs a positional label.

## Main Results

* `Pattern.settled_insertPositional`, `Pattern.insertPositional_of_settled`: the pass that labels
  settles, and it leaves what is settled.
* `Pattern.settled_rereadBody`: what is read back of a settled body is settled.
-/

namespace Pegboard.Pattern

/-- Whether no sequence of a pattern needs a positional label. -/
def SettledNode (p : Pattern) : Prop := ∀ ps, p.terms? = some ps → anyNeedsLabel 1 ps = false

def Settled (p : Pattern) : Prop := p.Everywhere SettledNode

/-- A term is settled by itself. -/
theorem settledNode_single {p : Pattern} {q : Pattern} (h : p.terms? = some [q]) :
    p.SettledNode := by
  intro ps hps
  obtain rfl := Option.some.inj (h.symm.trans hps)
  simp [anyNeedsLabel, needsLabel]

theorem settledNode_of_none {p : Pattern} (h : p.terms? = none) : p.SettledNode :=
  fun ps hps => by rw [h] at hps; contradiction

/-! ## Terms that need no more labels -/

/-- Whether a term mentions the same variables as another one and has the labels that it has. -/
def NoNeedier (p q : Pattern) : Prop :=
  q.variableNames = p.variableNames ∧
    ∀ name, p.isLabelNamed name = true → q.isLabelNamed name = true

theorem NoNeedier.refl (p : Pattern) : NoNeedier p p := ⟨rfl, fun _ h => h⟩

theorem anyMentions_congr {ps qs : List Pattern} (h : List.Forall₂ NoNeedier ps qs)
    (name : String) : (qs.any fun q => q.variableNames.contains name)
      = ps.any fun p => p.variableNames.contains name := by
  induction h with
  | nil => rfl
  | cons first _ ih => rw [List.any_cons, List.any_cons, first.1, ih]

/-- Terms that need no label need none when they are changed to ones that are not needier. -/
theorem anyNeedsLabel_of_noNeedier {ps qs : List Pattern} (h : List.Forall₂ NoNeedier ps qs)
    {position : Nat} (settled : anyNeedsLabel position ps = false) :
    anyNeedsLabel position qs = false := by
  induction h generalizing position with
  | nil => rfl
  | @cons p q ps qs first rest ih =>
    rw [anyNeedsLabel, Bool.or_eq_false_iff] at settled ⊢
    refine ⟨?_, ih settled.2⟩
    have here := settled.1
    simp only [needsLabel, Bool.and_eq_false_iff, Bool.not_eq_false'] at here ⊢
    rw [anyMentions_congr rest]
    exact here.imp_right (first.2 _)

/-- Labels settle terms. -/
theorem anyNeedsLabel_labelTerms (ps : List Pattern) (position : Nat) :
    anyNeedsLabel position (labelTerms position ps) = false := by
  induction ps generalizing position with
  | nil => rfl
  | cons p ps ih =>
    rw [labelTerms, anyNeedsLabel, ih, Bool.or_false]
    have mentions : ∀ (later : List Pattern) (k : Nat) (name : String),
        ((labelTerms k later).any fun q => q.variableNames.contains name)
          = later.any fun q => q.variableNames.contains name := by
      intro later
      induction later with
      | nil => exact fun _ _ => rfl
      | cons q later ih =>
        intro k name
        have hlabel : (label q (positionalName k)).variableNames = q.variableNames := by
          rw [variableNames, Pattern.mentions]
          rfl
        rw [labelTerms, List.any_cons, List.any_cons, ih]
        split
        · rw [hlabel]
        · rfl
    have here : ∀ q : Pattern, needsLabel position q (labelTerms (position + 1) ps)
        = needsLabel position q ps := by
      intro q
      simp only [needsLabel, mentions]
    rw [here]
    split
    · simp [needsLabel, isLabelNamed]
    · next h => simpa using h

theorem labelTerms_of_settled {ps : List Pattern} {position : Nat}
    (h : anyNeedsLabel position ps = false) : labelTerms position ps = ps := by
  induction ps generalizing position with
  | nil => rfl
  | cons p ps ih =>
    rw [anyNeedsLabel, Bool.or_eq_false_iff] at h
    rw [labelTerms, h.1, ih h.2]
    rfl

/-! ## The pass that labels -/

theorem positionalNode_of_settled {rule : String} {p : Pattern} (h : p.SettledNode) :
    positionalNode rule p = p := by
  unfold positionalNode
  split
  · next ps => rw [h ps rfl]; rfl
  · next owner ps => rw [labelTerms_of_settled (h ps rfl)]
  · rfl

/-- A settled body is left as it is. -/
theorem insertPositional_of_settled {rule : String} {p : Pattern} (h : p.Settled) :
    p.insertPositional rule = p := by
  induction p using induction_parts with
  | node p ih =>
    rw [Settled, everywhere_iff] at h
    have parts : p.mapParts (rebuild (positionalNode rule)) = p :=
      mapParts_eq_self fun q hq => ih q hq (h.2 q hq)
    rw [insertPositional, rebuild_eq, parts, positionalNode_of_settled h.1]

/-- The pass that labels settles a body. -/
theorem settled_insertPositional (rule : String) (p : Pattern) :
    (p.insertPositional rule).Settled := by
  refine everywhere_insertPositional (P := fun _ => True) (fun q _ => ?_)
    (fun _ _ => settledNode_of_none rfl) fun _ _ => trivial
  generalize q.mapParts (rebuild (positionalNode rule)) = q
  cases q with
  | seq ps =>
    rw [positionalNode]
    split
    · intro qs hqs
      obtain rfl := Option.some.inj hqs
      exact anyNeedsLabel_labelTerms ps 1
    · next none =>
      intro qs hqs
      obtain rfl := Option.some.inj hqs
      simpa using none
  | scope owner ps =>
    intro qs hqs
    obtain rfl := Option.some.inj hqs
    exact anyNeedsLabel_labelTerms ps 1
  | _ => exact settledNode_of_none rfl

/-! ## The other passes -/

section Passes

variable {f : Pattern → Pattern}

/-- A pass that keeps variables and labels keeps terms settled. -/
theorem settledNode_mapParts (keep : ∀ p, NoNeedier p (p.rebuild f)) {p : Pattern}
    (h : p.SettledNode) : (p.mapParts (rebuild f)).SettledNode := by
  have terms : ∀ ps : List Pattern, List.Forall₂ NoNeedier ps (ps.map (rebuild f)) := by
    intro ps
    induction ps with
    | nil => exact .nil
    | cons p ps ih => exact .cons (keep p) ih
  intro qs hqs
  cases p with
  | seq ps =>
    obtain rfl := Option.some.inj hqs
    exact anyNeedsLabel_of_noNeedier (terms ps) (h ps rfl)
  | scope rule ps =>
    obtain rfl := Option.some.inj hqs
    exact anyNeedsLabel_of_noNeedier (terms ps) (h ps rfl)
  | _ => contradiction

end Passes

theorem noNeedier_simplify (p : Pattern) : NoNeedier p (p.rebuild simplifyNode) := by
  refine ⟨?_, fun name h => ?_⟩
  · rw [← variableNames_skeleton, ← variableNames_skeleton p]
    exact congrArg variableNames (skeleton_simplify p)
  · cases p with
    | label q n => exact h
    | _ => contradiction

theorem settled_simplify {p : Pattern} (h : p.Settled) : p.simplify.Settled :=
  everywhere_simplify (fun _ hq => settledNode_mapParts noNeedier_simplify (everywhere_iff.1 hq).1)
    (settledNode_of_none rfl) h

theorem noNeedier_scopes (rule : String) (p : Pattern) :
    NoNeedier p (p.rebuild (scopeNode rule)) := by
  refine ⟨?_, fun name h => ?_⟩
  · rw [← variableNames_skeleton, ← variableNames_skeleton p]
    exact congrArg variableNames (rebuild_absorb (skeleton_scopeNode rule) p)
  · cases p with
    | label q n => exact h
    | _ => contradiction

theorem settled_insertScopes {rule : String} {p : Pattern} (h : p.Settled) :
    (p.insertScopes rule).Settled := by
  refine everywhere_insertScopes (fun q hq => ?_) (fun _ _ => settledNode_single rfl) h
  have kept := settledNode_mapParts (noNeedier_scopes rule) (everywhere_iff.1 hq).1
  generalize q.mapParts (rebuild (scopeNode rule)) = q at kept ⊢
  unfold scopeNode
  split
  · split
    · exact kept
    · exact kept
  · exact settledNode_of_none rfl
  · exact kept

/-! ## Reading back -/

/-- The terms that are read back are no needier than those that were printed. -/
theorem noNeedier_coreTerms (ps : List Pattern) : List.Forall₂ NoNeedier ps (coreTerms ps) := by
  induction ps with
  | nil => exact .nil
  | cons p ps ih =>
    have same := skeleton_coreTerms (p :: ps)
    rw [coreTerms] at same ⊢
    refine .cons ⟨?_, fun name h => ?_⟩ ih
    · rw [← variableNames_skeleton, (List.cons.inj same).1, variableNames_skeleton]
    · cases p with
      | label q n => exact h
      | _ => contradiction

/-- What is read back of a settled body is settled. -/
theorem settled_rereadBody {p : Pattern} (h : p.Settled) : p.rereadBody.Settled := by
  refine everywhere_rereadBody
    ⟨fun _ none _ => settledNode_of_none none, fun _ => settledNode_single rfl⟩ ?_ h
  intro q ps hps settled qs hqs
  obtain rfl := Option.some.inj hqs
  exact anyNeedsLabel_of_noNeedier (noNeedier_coreTerms ps) (settled ps hps)

end Pegboard.Pattern
