import Pegboard.Proofs.Grammar.Parts
import Pegboard.Proofs.Normalize.Closed

/-!
# What matching depends on

Patterns of different form may do the same.  A group of one part does what the part does, a scope
around patterns that bind nothing outside of scopes of their own does what the sequence does, and a
label that binds a name which is never looked up does what the pattern under it does.  The essence
of a pattern is what remains without all that.

Which names are looked up is a parameter, and so is a change of the expressions.

## Main Definitions

* `Pattern.exposed`: the names that a pattern binds in the scope where it stands.
* `Pattern.essence`: a pattern without what does nothing.
* `Pattern.Hides`: none of the names that a pattern exposes is looked up.

## Main Results

* `Pattern.exposed_eq_nil`: the closed patterns bind nothing there.
* `Pattern.essence_simplify`: simplification leaves the essence.
* `Pattern.mem_exposed_essence`: the essence exposes only names that are looked up.
-/

namespace Pegboard.Pattern

/-! ## Names that are bound outside -/

mutual

/-- The names that a pattern may bind in the scope where it stands. -/
def exposed : Pattern → List String
  | .choice alts => exposedAll alts
  | .seq ps => exposedAll ps
  | .scope _ _ => []
  | .label p name => name :: exposed p
  | .leftrec p _ => exposed p
  | .memo p _ => exposed p
  | .not p => exposed p
  | .opt p => exposed p
  | .star p => exposed p
  | .plus p => exposed p
  | .paren p => exposed p
  | .capture p => exposed p
  | .apply _ => []
  | .lit _ => []
  | .range _ _ => []
  | .pred _ => []
  | .eq _ => []
  | .action _ => []
  | .pos => []
  | .empty => []

/-- The names that the patterns of a list may bind in the scope where they stand. -/
def exposedAll : List Pattern → List String
  | [] => []
  | p :: ps => exposed p ++ exposedAll ps

end

theorem mem_exposedAll {name : String} {ps : List Pattern} :
    name ∈ exposedAll ps ↔ ∃ p ∈ ps, name ∈ p.exposed := by
  induction ps with
  | nil => simp [exposedAll]
  | cons p ps ih => simp [exposedAll, ih]

mutual

/-- A pattern exposes no names exactly if its labels are all in scopes of its own. -/
theorem exposed_eq_nil : ∀ p : Pattern, p.exposed = [] ↔ p.Closed
  | .choice alts => exposedAll_eq_nil alts
  | .seq ps => exposedAll_eq_nil ps
  | .scope _ _ => by simp [exposed, Closed]
  | .label _ _ => by simp [exposed, Closed]
  | .leftrec p _ => exposed_eq_nil p
  | .memo p _ => exposed_eq_nil p
  | .not p => exposed_eq_nil p
  | .opt p => exposed_eq_nil p
  | .star p => exposed_eq_nil p
  | .plus p => exposed_eq_nil p
  | .paren p => exposed_eq_nil p
  | .capture p => exposed_eq_nil p
  | .apply _ => by simp [exposed, Closed]
  | .lit _ => by simp [exposed, Closed]
  | .range _ _ => by simp [exposed, Closed]
  | .pred _ => by simp [exposed, Closed]
  | .eq _ => by simp [exposed, Closed]
  | .action _ => by simp [exposed, Closed]
  | .pos => by simp [exposed, Closed]
  | .empty => by simp [exposed, Closed]

theorem exposedAll_eq_nil : ∀ ps : List Pattern, exposedAll ps = [] ↔ ClosedAll ps
  | [] => by simp [exposedAll, ClosedAll]
  | p :: ps => by
    rw [exposedAll, ClosedAll, List.append_eq_nil_iff, exposed_eq_nil p, exposedAll_eq_nil ps]

end

/-! ## The essence -/

section Essence

variable (seen : String → Bool) (f : Expr → Expr)

/-- A node without what does nothing, once that is so of its parts: `seen` tells which names are
looked up, and `f` changes expressions. -/
def essenceNode : Pattern → Pattern
  | .scope _ ps => if (exposedAll ps).isEmpty then simplifyNode (.seq ps) else .scope "" ps
  | .label p name => if seen name then .label p name else p
  | .pred e => .pred (f e)
  | .eq e => .eq (f e)
  | .action e => .action (f e)
  | p => simplifyNode p

/-- A pattern without what does nothing. -/
def essence (p : Pattern) : Pattern := p.rebuild (essenceNode seen f)

variable {seen f}

theorem essence_eq (p : Pattern) :
    p.essence seen f = essenceNode seen f (p.mapParts (essence seen f)) :=
  rebuild_eq _ p

theorem essence_choice (alts : List Pattern) :
    (Pattern.choice alts).essence seen f = simplifyNode (.choice (alts.map (essence seen f))) := by
  rw [essence_eq]
  rfl

theorem essence_seq (ps : List Pattern) :
    (Pattern.seq ps).essence seen f = simplifyNode (.seq (ps.map (essence seen f))) := by
  rw [essence_eq]
  rfl

/-- A scope of closed terms is a sequence. -/
theorem essence_scope_of_closed {rule : String} {ps : List Pattern}
    (h : ClosedAll (ps.map (essence seen f))) :
    (Pattern.scope rule ps).essence seen f = (Pattern.seq ps).essence seen f := by
  rw [essence_eq, essence_eq (.seq ps), mapParts, mapParts, essenceNode, (exposedAll_eq_nil _).2 h]
  rfl

theorem essence_scope_of_not_closed {rule : String} {ps : List Pattern}
    (h : ¬ ClosedAll (ps.map (essence seen f))) :
    (Pattern.scope rule ps).essence seen f = .scope "" (ps.map (essence seen f)) := by
  rw [essence_eq, mapParts, essenceNode, if_neg]
  simpa [exposedAll_eq_nil] using h

/-- Simplification leaves the essence. -/
theorem essence_simplify (p : Pattern) : p.simplify.essence seen f = p.essence seen f := by
  refine rebuild_absorb (fun q => ?_) p
  show (simplifyNode q).essence seen f = q.essence seen f
  unfold simplifyNode
  split <;> rfl

theorem closed_essence {p : Pattern} (h : p.Closed) : (p.essence seen f).Closed := by
  refine closed_rebuild (fun q hq => ?_) p h
  unfold essenceNode
  split
  · split
    · next ps none =>
      have closed : ClosedAll ps := (exposedAll_eq_nil ps).1 (List.isEmpty_iff.1 none)
      exact closed_simplifyNode (p := .seq ps) closed
    · trivial
  · exact hq.elim
  · trivial
  · trivial
  · trivial
  · exact closed_simplifyNode hq

theorem closedAll_map_essence {ps : List Pattern} (h : ClosedAll ps) :
    ClosedAll (ps.map (essence seen f)) := by
  refine closedAll_iff.2 fun q hq => ?_
  obtain ⟨p, hp, rfl⟩ := List.mem_map.1 hq
  exact closed_essence (closedAll_iff.1 h p hp)

theorem exposed_simplifyNode (p : Pattern) : (simplifyNode p).exposed = p.exposed := by
  unfold simplifyNode
  split <;> simp [exposed, exposedAll]

/-- The essence exposes only names that are looked up. -/
theorem mem_exposed_essence {name : String} {p : Pattern}
    (h : name ∈ (p.essence seen f).exposed) : name ∈ p.exposed ∧ seen name = true := by
  induction p using induction_parts with
  | node p ih =>
    have among {ps : List Pattern} (hps : ∀ q ∈ ps, q ∈ p.parts)
        (h : name ∈ exposedAll (ps.map (essence seen f))) :
        name ∈ exposedAll ps ∧ seen name = true := by
      obtain ⟨_, himage, hname⟩ := mem_exposedAll.1 h
      obtain ⟨q, hq, rfl⟩ := List.mem_map.1 himage
      obtain ⟨here, hseen⟩ := ih q (hps q hq) hname
      exact ⟨mem_exposedAll.2 ⟨q, hq, here⟩, hseen⟩
    rw [essence_eq] at h
    cases p with
    | choice alts =>
      change name ∈ (simplifyNode (.choice _)).exposed at h
      rw [exposed_simplifyNode] at h
      exact among (fun _ hq => hq) h
    | seq ps =>
      change name ∈ (simplifyNode (.seq _)).exposed at h
      rw [exposed_simplifyNode] at h
      exact among (fun _ hq => hq) h
    | scope rule ps =>
      rw [mapParts, essenceNode] at h
      split at h
      · next none =>
        rw [exposed_simplifyNode, exposed, List.isEmpty_iff.1 none] at h
        contradiction
      · contradiction
    | label q other =>
      rw [mapParts, essenceNode] at h
      split at h
      · next hseen =>
        rcases List.mem_cons.1 h with rfl | h
        · exact ⟨.head _, hseen⟩
        · exact (ih q (.head _) h).imp_left (List.mem_cons_of_mem _)
      · exact (ih q (.head _) h).imp_left (List.mem_cons_of_mem _)
    | leftrec q _ | memo q _ => exact ih q (.head _) h
    | not q | opt q | star q | plus q | paren q | capture q => exact ih q (.head _) h
    | _ => contradiction

end Essence

/-! ## Names that are not looked up -/

/-- Whether none of the names that a pattern exposes is looked up. -/
def Hides (seen : String → Bool) (p : Pattern) : Prop := ∀ name ∈ p.exposed, seen name = false

theorem closed_essence_of_hides {seen : String → Bool} {f : Expr → Expr} {p : Pattern}
    (h : p.Hides seen) : (p.essence seen f).Closed := by
  rw [← exposed_eq_nil, List.eq_nil_iff_forall_not_mem]
  intro name hname
  obtain ⟨here, hseen⟩ := mem_exposed_essence hname
  rw [h name here] at hseen
  contradiction

end Pegboard.Pattern
