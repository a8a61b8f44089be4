import Pegboard.Normalize
import Pegboard.Proofs.Expr.Flat
import Pegboard.Proofs.Grammar.Parts

/-!
# What printing shows

Printing does not show everything of a pattern.  The wrappers of left recursion and memoization are
left out, a scope is printed like a sequence, and what holds a single part is printed like the part.
The skeleton of a pattern is what remains without all that.  Patterns with the same skeleton are
printed alike, and the passes of normalization that put in or take out only what is not printed
leave the skeleton as it is.

## Main Definitions

* `Pattern.skeleton`: a pattern without what is not printed.
* `Pattern.flattened`: a pattern with all its expressions made flat.
* `Pattern.WrittenNode`: a node whose names and expressions can be written.
* `Pattern.SimpleNode`: a node as simplification leaves it.
* `Pattern.FilledNode`: a node with a part where any number of them may stand.

## Main Results

* `Pattern.skeleton_insertScopes`, `Pattern.skeleton_simplify`: passes that leave the skeleton.
* `Pattern.simplify_flattened`: the skeleton of what has no scopes and wrappers.
* `Pattern.kept_skeleton`: the skeleton mentions the same.
* `Pattern.printedAlike_of_skeleton_eq`: patterns with the same skeleton are printed alike.
-/

namespace Pegboard.Pattern

/-! ## The skeleton -/

/-- A node without what is not printed, once that is so of its parts. -/
def skeletonNode : Pattern → Pattern
  | .scope _ ps => simplifyNode (.seq ps)
  | .leftrec p _ => p
  | .memo p _ => p
  | .pred e => .pred e.flat
  | .eq e => .eq e.flat
  | .action e => .action e.flat
  | p => simplifyNode p

/-- A pattern without what is not printed. -/
def skeleton (p : Pattern) : Pattern := p.rebuild skeletonNode

theorem skeleton_eq (p : Pattern) : p.skeleton = skeletonNode (p.mapParts skeleton) :=
  rebuild_eq skeletonNode p

theorem skeleton_choice_single (p : Pattern) : (Pattern.choice [p]).skeleton = p.skeleton := rfl

theorem skeleton_paren (p : Pattern) : (Pattern.paren p).skeleton = p.skeleton := rfl

theorem skeleton_scope (rule : String) (ps : List Pattern) :
    (Pattern.scope rule ps).skeleton = (Pattern.seq ps).skeleton := rfl

/-- A choice shows no more of its alternatives than their skeletons. -/
theorem skeleton_choice_congr {as bs : List Pattern} (h : as.map skeleton = bs.map skeleton) :
    (Pattern.choice as).skeleton = (Pattern.choice bs).skeleton := by
  rw [skeleton_eq, skeleton_eq, mapParts, mapParts, h]

theorem skeleton_seq_congr {as bs : List Pattern} (h : as.map skeleton = bs.map skeleton) :
    (Pattern.seq as).skeleton = (Pattern.seq bs).skeleton := by
  rw [skeleton_eq, skeleton_eq, mapParts, mapParts, h]

/-! ## Passes that leave the skeleton -/

/-- Simplification leaves the skeleton. -/
theorem skeleton_simplify (p : Pattern) : p.simplify.skeleton = p.skeleton := by
  refine rebuild_absorb (fun q => ?_) p
  show (simplifyNode q).skeleton = q.skeleton
  unfold simplifyNode
  split <;> rfl

theorem skeleton_scopeAlternative (rule : String) (p : Pattern) :
    (scopeAlternative rule p).skeleton = p.skeleton := by
  unfold scopeAlternative
  split
  · rfl
  · rfl
  · split <;> rfl

theorem skeleton_scopeNode (rule : String) (p : Pattern) :
    (scopeNode rule p).skeleton = p.skeleton := by
  unfold scopeNode
  split
  · split <;> rfl
  · refine skeleton_choice_congr ?_
    rw [List.map_map]
    exact List.map_congr_left fun q _ => skeleton_scopeAlternative rule q
  · rfl

/-- Putting scopes in leaves the skeleton. -/
theorem skeleton_insertScopes (rule : String) (p : Pattern) :
    (p.insertScopes rule).skeleton = p.skeleton := by
  have hrebuild : (p.rebuild (scopeNode rule)).skeleton = p.skeleton :=
    rebuild_absorb (skeleton_scopeNode rule) p
  unfold insertScopes
  split
  · next alts halts => rw [← halts, hrebuild]
  · rw [skeleton_scopeAlternative, hrebuild]

theorem skeleton_wrapLeftRecursive (recursive : List String) (rule : String) (p : Pattern) :
    (Bodies.wrapLeftRecursive recursive rule p).skeleton = p.skeleton := by
  unfold Bodies.wrapLeftRecursive
  split <;> rfl

/-! ## Patterns with flat expressions -/

/-- A node with its expression made flat. -/
def flatNode : Pattern → Pattern
  | .pred e => .pred e.flat
  | .eq e => .eq e.flat
  | .action e => .action e.flat
  | p => p

/-- A pattern with all its expressions made flat. -/
def flattened (p : Pattern) : Pattern := p.rebuild flatNode

/-- Making an expression flat has not to do with the parts of a node. -/
theorem mapParts_flatNode (g : Pattern → Pattern) (p : Pattern) :
    p.flatNode.mapParts g = (p.mapParts g).flatNode := by
  cases p <;> rfl

theorem flattened_eq (p : Pattern) : p.flattened = (p.mapParts flattened).flatNode :=
  rebuild_eq flatNode p

theorem flattened_eq_self {p : Pattern} (h : p.Everywhere fun q => q.flatNode = q) :
    p.flattened = p := by
  induction p using induction_parts with
  | node p ih =>
    rw [everywhere_iff] at h
    rw [flattened_eq, mapParts_eq_self fun q hq => ih q hq (h.2 q hq), h.1]

/-- Whether a node is none of those that only normalization puts in. -/
def RawNode : Pattern → Prop
  | .scope _ _ => False
  | .leftrec _ _ => False
  | .memo _ _ => False
  | _ => True

/-- Without scopes and wrappers, all that is not printed is groups and how suffixes are nested. -/
theorem simplify_flattened {p : Pattern} (h : p.Everywhere RawNode) :
    p.flattened.simplify = p.skeleton := by
  induction p using induction_parts with
  | node p ih =>
    rw [everywhere_iff] at h
    have parts : (p.mapParts flattened).mapParts simplify = p.mapParts skeleton := by
      rw [mapParts_mapParts]
      exact mapParts_congr fun q hq => ih q hq (h.2 q hq)
    rw [flattened_eq, simplify, rebuild_eq, mapParts_flatNode]
    show simplifyNode ((p.mapParts flattened).mapParts simplify).flatNode = p.skeleton
    rw [parts, skeleton_eq]
    cases p with
    | scope | leftrec | memo => exact h.1.elim
    | _ => rfl

/-! ## What the skeleton mentions -/

theorem mentions_flat (e : Expr) : e.flat.mentions = e.mentions := by
  rw [Expr.mentions, Expr.mentions, Expr.variableNames_flat]

/-- The skeleton mentions the same, the forms of wrappers left out. -/
theorem kept_skeleton {α : Type} {kind : Mention → Option α}
    (blind : ∀ outer inner, kind (.wrapper outer inner) = none) (p : Pattern) :
    p.skeleton.mentions.filterMap kind = p.mentions.filterMap kind := by
  have hsimplify : ∀ q : Pattern,
      (simplifyNode q).mentions.filterMap kind = q.mentions.filterMap kind := by
    intro q
    unfold simplifyNode
    split <;> simp [mentions, mentionsAll, blind]
  refine kept_rebuild blind (fun q => ?_) p
  unfold skeletonNode
  split
  · exact hsimplify (.seq _)
  · rfl
  · rfl
  · rw [mentions, mentions, mentions_flat]
  · rw [mentions, mentions, mentions_flat]
  · rw [mentions, mentions, mentions_flat]
  · exact hsimplify _

theorem applied_skeleton (p : Pattern) : p.skeleton.applied = p.applied :=
  kept_skeleton (fun _ _ => rfl) p

theorem applied_simplify (p : Pattern) : p.simplify.applied = p.applied := by
  rw [← applied_skeleton, skeleton_simplify, applied_skeleton]

theorem applied_insertScopes (rule : String) (p : Pattern) :
    (p.insertScopes rule).applied = p.applied := by
  rw [← applied_skeleton, skeleton_insertScopes, applied_skeleton]

theorem labels_skeleton (p : Pattern) : p.skeleton.labels = p.labels :=
  kept_skeleton (fun _ _ => rfl) p

theorem variableNames_skeleton (p : Pattern) : p.skeleton.variableNames = p.variableNames :=
  kept_skeleton (fun _ _ => rfl) p

theorem hasLabel_skeleton (p : Pattern) : p.skeleton.hasLabel = p.hasLabel := by
  rw [hasLabel, hasLabel, labels_skeleton]

/-! ## How a pattern is printed -/

/-- A node whose names and expressions can be written. -/
def WrittenNode : Pattern → Prop
  | .label _ name => Token.Writable (.ident name)
  | .apply name => Token.Writable (.ident name)
  | .pred e => e.Written
  | .eq e => e.Written
  | .action e => e.Written
  | _ => True

/-- A node as simplification leaves it: choices and sequences have two parts or more, a scope has a
label, and there are no parentheses. -/
def SimpleNode : Pattern → Prop
  | .choice alts => 2 ≤ alts.length
  | .seq ps => 2 ≤ ps.length
  | .scope _ ps => ps.any hasLabel = true
  | .paren _ => False
  | _ => True

/-- A node that has a part where others than one may stand. -/
def FilledNode : Pattern → Prop
  | .choice alts => alts ≠ []
  | .seq ps => ps ≠ []
  | .scope _ ps => ps ≠ []
  | _ => True

theorem SimpleNode.filled {p : Pattern} (h : p.SimpleNode) : p.FilledNode := by
  cases p with
  | choice alts => exact List.ne_nil_of_length_pos (Nat.lt_of_lt_of_le Nat.zero_lt_two h)
  | seq ps => exact List.ne_nil_of_length_pos (Nat.lt_of_lt_of_le Nat.zero_lt_two h)
  | scope rule ps =>
    rintro rfl
    contradiction
  | _ => trivial

/-- Whether a pattern is one that normalization may give and that can be written. -/
def Printable (p : Pattern) : Prop := p.Everywhere fun q => q.WrittenNode ∧ q.SimpleNode

theorem layoutAlts_eq_map (ps : List Pattern) : layoutAlts ps = ps.map (layout .seq) := by
  induction ps with
  | nil => rfl
  | cons p ps ih => rw [layoutAlts, ih, List.map_cons]

theorem layoutTerms_eq_map (ps : List Pattern) :
    layoutTerms ps = ps.map fun p => (isAction p, layout .term p) := by
  induction ps with
  | nil => rfl
  | cons p ps ih => rw [layoutTerms, ih, List.map_cons]

/-- The part that a pattern prints as, if it prints as one. -/
def printsAs? : Pattern → Option Pattern
  | .choice [p] => some p
  | .seq [p] => some p
  | .scope _ [p] => some p
  | .leftrec p _ => some p
  | .memo p _ => some p
  | _ => none

/-- Everything that printing looks at is the same of a pattern and of the part that it prints as. -/
theorem of_printsAs? {p q : Pattern} (h : p.printsAs? = some q) :
    q ∈ p.parts ∧ p.level = q.level ∧ p.isAction = q.isAction ∧ p.skeleton = q.skeleton ∧
      ∀ least, layout least p = q.level.grouped least (layout (q.level.inside least) q) := by
  unfold printsAs? at h
  split at h <;> simp only [Option.some.injEq, reduceCtorEq] at h
  all_goals
    subst h
    exact ⟨.head _, rfl, rfl, rfl, fun _ => rfl⟩

/-- Where nothing is asked of the level, there are no parentheses. -/
@[simp] theorem grouped_choice (own : Level) (row : Layout) : own.grouped .choice row = row := by
  cases own <;> rfl

/-- What a pattern prints as, where its level is asked for, is in parentheses or not. -/
theorem grouped_inside (least own : Level) (row : Level → Layout)
    (h : ∀ l, row l = own.grouped l (row .choice)) :
    own.grouped least (row (own.inside least)) = row least := by
  rw [h least, Level.grouped, Level.inside, Level.grouped]
  split
  · rfl
  · next hloose => rw [h least, Level.grouped, if_neg hloose]

/-- What is asked of the level of a pattern only decides about parentheses. -/
theorem layout_eq_grouped (p : Pattern) (least : Level) :
    layout least p = p.level.grouped least (layout .choice p) := by
  induction p using induction_parts generalizing least with
  | node p ih =>
    cases hsingle : p.printsAs? with
    | some q =>
      obtain ⟨hmem, hlevel, -, -, hlayout⟩ := of_printsAs? hsingle
      have hq : ∀ l, layout l q = q.level.grouped l (layout .choice q) := ih q hmem
      rw [hlayout, hlayout, hlevel, grouped_inside least _ (fun l => layout l q) hq,
        grouped_inside .choice _ (fun l => layout l q) hq, hq]
    | none =>
      -- The sides differ only in how often the row of the pattern itself is grouped.
      have hgrouped : ∀ row : Layout, p.level.grouped least row
          = p.level.grouped least (p.level.grouped .choice row) := by
        intro row
        rw [grouped_choice]
      cases p with
      | choice ps | seq ps | scope rule ps =>
        rcases ps with _ | ⟨q, _ | ⟨r, rest⟩⟩
        · exact hgrouped _
        · contradiction
        · exact hgrouped _
      | leftrec q rule => contradiction
      | memo q rule => contradiction
      | label | not | opt | star | plus => exact hgrouped _
      | _ => cases least <;> rfl

/-- A pattern is printed like the part that it prints as. -/
theorem layout_of_printsAs? {p q : Pattern} (h : p.printsAs? = some q) (least : Level) :
    layout least p = layout least q := by
  rw [(of_printsAs? h).2.2.2.2,
    grouped_inside least _ (fun l => layout l q) (layout_eq_grouped q)]

/-- What is the empty pattern, alone in choices and sequences, shows no more than it, and prints as
a pair of parentheses. -/
theorem shown_of_isEmpty {p : Pattern} (h : p.isEmpty = true) :
    p.skeleton = .empty ∧ ∀ least, layout least p = emptyGroup := by
  induction p using induction_parts with
  | node p ih =>
    cases hsingle : p.printsAs? with
    | some q =>
      obtain ⟨hmem, -, -, hskeleton, -⟩ := of_printsAs? hsingle
      have inner : q.isEmpty = true := by
        unfold printsAs? at hsingle
        split at hsingle <;> simp only [Option.some.injEq, reduceCtorEq] at hsingle
        · exact hsingle ▸ h
        · exact hsingle ▸ h
        all_goals contradiction
      obtain ⟨skeleton, layout⟩ := ih q hmem inner
      exact ⟨hskeleton.trans skeleton,
        fun least => (layout_of_printsAs? hsingle least).trans (layout least)⟩
    | none =>
      cases p with
      | empty => exact ⟨rfl, fun _ => rfl⟩
      | choice alts => rcases alts with _ | ⟨q, _ | ⟨r, rest⟩⟩ <;> contradiction
      | seq ps => rcases ps with _ | ⟨q, _ | ⟨r, rest⟩⟩ <;> contradiction
      | _ => contradiction

theorem skeleton_of_isEmpty {p : Pattern} (h : p.isEmpty = true) : p.skeleton = .empty :=
  (shown_of_isEmpty h).1

theorem layout_of_isEmpty {p : Pattern} (h : p.isEmpty = true) (least : Level) :
    layout least p = emptyGroup := (shown_of_isEmpty h).2 least

theorem layout_capture (least : Level) (p : Pattern) : layout least (.capture p)
    = Layout.between .openBrace .closeBrace (layout .choice p) := by
  rw [layout]
  split
  · next h => rw [layout_of_isEmpty h]
  · rfl

/-! ## The skeleton is printed alike -/

/-- Everything that printing looks at is the same of two patterns. -/
structure PrintedAlike (p q : Pattern) : Prop where
  level : p.level = q.level
  isAction : p.isAction = q.isAction
  layout : ∀ least, layout least p = layout least q

theorem PrintedAlike.refl (p : Pattern) : PrintedAlike p p := ⟨rfl, rfl, fun _ => rfl⟩

/-- Terms of a sequence are printed alike if they are so one by one. -/
theorem joinTerms_congr {f : Pattern → Pattern} (ps : List Pattern)
    (h : ∀ p ∈ ps, PrintedAlike (f p) p) :
    joinTerms (layoutTerms (ps.map f)) = joinTerms (layoutTerms ps) := by
  rw [layoutTerms_eq_map, layoutTerms_eq_map, List.map_map]
  congr 1
  refine List.map_congr_left fun p hp => ?_
  simp only [Function.comp_apply, (h p hp).isAction, (h p hp).layout]

theorem layoutAlts_congr {f : Pattern → Pattern} (ps : List Pattern)
    (h : ∀ p ∈ ps, PrintedAlike (f p) p) : layoutAlts (ps.map f) = layoutAlts ps := by
  rw [layoutAlts_eq_map, layoutAlts_eq_map, List.map_map]
  exact List.map_congr_left fun p hp => (h p hp).layout .seq

namespace PrintedAlike

variable {p q r : Pattern} {rest : List Pattern} {f : Pattern → Pattern}

theorem trans (h : PrintedAlike p q) (h' : PrintedAlike q r) : PrintedAlike p r :=
  ⟨h.level.trans h'.level, h.isAction.trans h'.isAction,
    fun least => (h.layout least).trans (h'.layout least)⟩

theorem choice (h : ∀ x ∈ q :: r :: rest, PrintedAlike (f x) x) :
    PrintedAlike (.choice ((q :: r :: rest).map f)) (.choice (q :: r :: rest)) := by
  refine ⟨rfl, rfl, fun least => ?_⟩
  show grouped least _ (.joined _ (layoutAlts ((q :: r :: rest).map f))) = _
  rw [layoutAlts_congr (q :: r :: rest) h]
  rfl

theorem seq (h : ∀ x ∈ q :: r :: rest, PrintedAlike (f x) x) :
    PrintedAlike (.seq ((q :: r :: rest).map f)) (.seq (q :: r :: rest)) := by
  refine ⟨rfl, rfl, fun least => ?_⟩
  show grouped least _ (joinTerms (layoutTerms ((q :: r :: rest).map f))) = _
  rw [joinTerms_congr (q :: r :: rest) h]
  rfl

/-- The scope of several terms does not show. -/
theorem scope (rule : String) (q r : Pattern) (rest : List Pattern) :
    PrintedAlike (.seq (q :: r :: rest)) (.scope rule (q :: r :: rest)) :=
  ⟨rfl, rfl, fun _ => rfl⟩

theorem label (h : PrintedAlike p q) (name : String) :
    PrintedAlike (.label p name) (.label q name) := by
  refine ⟨rfl, rfl, fun least => ?_⟩
  rw [Pattern.layout, Pattern.layout, h.layout]
  rfl

theorem not (h : PrintedAlike p q) : PrintedAlike (.not p) (.not q) := by
  refine ⟨rfl, rfl, fun least => ?_⟩
  rw [Pattern.layout, Pattern.layout, h.layout]
  rfl

theorem repeatable (h : PrintedAlike p q) : p.repeatable (Pattern.layout p.innerLevel p)
    = q.repeatable (Pattern.layout q.innerLevel q) := by
  rw [Pattern.repeatable, Pattern.repeatable, innerLevel, innerLevel, h.isAction, h.layout]

theorem opt (h : PrintedAlike p q) : PrintedAlike (.opt p) (.opt q) := by
  refine ⟨rfl, rfl, fun least => ?_⟩
  rw [Pattern.layout, Pattern.layout, h.repeatable]
  rfl

theorem star (h : PrintedAlike p q) : PrintedAlike (.star p) (.star q) := by
  refine ⟨rfl, rfl, fun least => ?_⟩
  rw [Pattern.layout, Pattern.layout, h.repeatable]
  rfl

theorem plus (h : PrintedAlike p q) : PrintedAlike (.plus p) (.plus q) := by
  refine ⟨rfl, rfl, fun least => ?_⟩
  rw [Pattern.layout, Pattern.layout, h.repeatable]
  rfl

theorem capture (h : PrintedAlike p q) : PrintedAlike (.capture p) (.capture q) := by
  refine ⟨rfl, rfl, fun least => ?_⟩
  rw [layout_capture, layout_capture, h.layout]

end PrintedAlike

/-- The skeleton of a printable pattern is printed like the pattern. -/
theorem printedAlike_skeleton {p : Pattern} (h : p.Printable) : PrintedAlike p.skeleton p := by
  induction p using induction_parts with
  | node p ih =>
    rw [Printable, everywhere_iff] at h
    have hparts : ∀ q ∈ p.parts, PrintedAlike q.skeleton q := fun q hq => ih q hq (h.2 q hq)
    cases hsingle : p.printsAs? with
    | some q =>
      obtain ⟨hmem, hlevel, hisAction, hskeleton, -⟩ := of_printsAs? hsingle
      have hq := hparts q hmem
      rw [hskeleton]
      exact ⟨hq.level.trans hlevel.symm, hq.isAction.trans hisAction.symm,
        fun least => (hq.layout least).trans (layout_of_printsAs? hsingle least).symm⟩
    | none =>
      cases p with
      | choice alts =>
        rcases alts with _ | ⟨q, _ | ⟨r, rest⟩⟩
        · exact .refl _
        · contradiction
        · rw [show (Pattern.choice (q :: r :: rest)).skeleton
            = .choice ((q :: r :: rest).map skeleton) from skeleton_eq _]
          exact .choice hparts
      | seq ps =>
        rcases ps with _ | ⟨q, _ | ⟨r, rest⟩⟩
        · exact absurd h.1.2 (by simp [SimpleNode])
        · contradiction
        · rw [show (Pattern.seq (q :: r :: rest)).skeleton
            = .seq ((q :: r :: rest).map skeleton) from skeleton_eq _]
          exact .seq hparts
      | scope rule ps =>
        rcases ps with _ | ⟨q, _ | ⟨r, rest⟩⟩
        · exact absurd h.1.2 (by simp [SimpleNode])
        · contradiction
        · rw [show (Pattern.scope rule (q :: r :: rest)).skeleton
            = .seq ((q :: r :: rest).map skeleton) from skeleton_eq _]
          exact (PrintedAlike.seq hparts).trans (.scope rule q r rest)
      | leftrec q rule => contradiction
      | memo q rule => contradiction
      | label q name => exact (hparts q (.head _)).label name
      | not q => exact (hparts q (.head _)).not
      | opt q => exact (hparts q (.head _)).opt
      | star q => exact (hparts q (.head _)).star
      | plus q => exact (hparts q (.head _)).plus
      | capture q => exact (hparts q (.head _)).capture
      | paren q => exact h.1.2.elim
      | pred e =>
        refine ⟨rfl, rfl, fun least => ?_⟩
        show layout least (.pred e.flat) = _
        rw [layout, layout, Expr.layout_flat e h.1.1]
      | eq e =>
        refine ⟨rfl, rfl, fun least => ?_⟩
        show layout least (.eq e.flat) = _
        rw [layout, layout, Expr.layout_flat e h.1.1]
      | action e =>
        refine ⟨rfl, rfl, fun least => ?_⟩
        show layout least (.action e.flat) = _
        rw [layout, layout, Expr.layout_flat e h.1.1]
      | _ => exact .refl _

/-- Printable patterns with the same skeleton are printed alike. -/
theorem printedAlike_of_skeleton_eq {p q : Pattern} (hp : p.Printable) (hq : q.Printable)
    (h : p.skeleton = q.skeleton) : PrintedAlike p q := by
  have hp' := printedAlike_skeleton hp
  have hq' := printedAlike_skeleton hq
  rw [h] at hp'
  exact ⟨hp'.level.symm.trans hq'.level, hp'.isAction.symm.trans hq'.isAction,
    fun least => (hp'.layout least).symm.trans (hq'.layout least)⟩

end Pegboard.Pattern
