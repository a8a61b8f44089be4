import Mathlib.Data.List.Forall2
import Pegboard.Lint.Shadowed
import Pegboard.Proofs.Match.Thinning
import Pegboard.Proofs.Normalize.Analyses

/-!
# Taking out a shadowed alternative

An alternative that is reported as shadowed is a literal, seen through groups, that comes after one of
its prefixes.  This module takes one such alternative out of its choice, wherever the choice stands,
and follows the gap through normalization.

A literal applies nothing, binds nothing and leads nowhere, so the analyses of a body do not notice
that it is gone.  The passes over the body do the same around the gap.  Only at the end, where groups
go, a choice may be left that has a single alternative, and then the alternative takes its place.

## Main Definitions

* `Pattern.Drops`: one alternative that is reported as shadowed is taken out of a pattern.

## Main Results

* `Pattern.mem_shadowings_iff`: what is reported of a pattern is what can be taken out of it.
* `Pattern.Drops.leadsAlike`, `Pattern.Drops.applied`, `Pattern.Drops.hasFreeVariables`: the analyses
  do not see the gap.
* `Pattern.Drops.insertScopes`, `Pattern.Drops.insertPositional`: the passes keep it.
* `Pattern.Drops.thins`: in the simplified pattern the alternative is missing.
-/

namespace Pegboard

/-- The second pattern is the first one without one alternative, somewhere in it, that is reported as
shadowed. -/
inductive Pattern.Drops (s : Shadowing) : Pattern → Pattern → Prop where
  | here {before after alt} (shadowed : Shadowing.of? before alt = some s) :
      Drops s (.choice (before ++ alt :: after)) (.choice (before ++ after))
  | choice {before after p q} (h : Drops s p q) :
      Drops s (.choice (before ++ p :: after)) (.choice (before ++ q :: after))
  | seq {before after p q} (h : Drops s p q) :
      Drops s (.seq (before ++ p :: after)) (.seq (before ++ q :: after))
  | scope {rule before after p q} (h : Drops s p q) :
      Drops s (.scope rule (before ++ p :: after)) (.scope rule (before ++ q :: after))
  | label {name p q} (h : Drops s p q) : Drops s (.label p name) (.label q name)
  | leftrec {rule p q} (h : Drops s p q) : Drops s (.leftrec p rule) (.leftrec q rule)
  | memo {rule p q} (h : Drops s p q) : Drops s (.memo p rule) (.memo q rule)
  | not {p q} (h : Drops s p q) : Drops s (.not p) (.not q)
  | opt {p q} (h : Drops s p q) : Drops s (.opt p) (.opt q)
  | star {p q} (h : Drops s p q) : Drops s (.star p) (.star q)
  | plus {p q} (h : Drops s p q) : Drops s (.plus p) (.plus q)
  | paren {p q} (h : Drops s p q) : Drops s (.paren p) (.paren q)
  | capture {p q} (h : Drops s p q) : Drops s (.capture p) (.capture q)

/-! ## What is reported -/

namespace Shadowing

variable {s : Shadowing} {before : List Pattern} {alt : Pattern}

/-- An alternative is shadowed by the first literal before it that it begins with. -/
theorem of?_eq_some : of? before alt = some s ↔ alt.literal? = some s.later ∧
    (before.filterMap Pattern.literal?).find? (·.toList.isPrefixOf s.later.toList)
      = some s.earlier := by
  rcases s with ⟨earlier, later⟩
  simp only [of?, Option.bind_eq_bind, Option.bind_eq_some_iff, pure, Option.some.injEq,
    Shadowing.mk.injEq]
  constructor
  · rintro ⟨text, literal, found, first, rfl, rfl⟩
    exact ⟨literal, first⟩
  · rintro ⟨literal, first⟩
    exact ⟨later, literal, earlier, first, rfl, rfl⟩

/-- What shadows an alternative is a literal before it. -/
theorem exists_earlier (h : of? before alt = some s) :
    ∃ p ∈ before, p.literal? = some s.earlier ∧ s.earlier.toList <+: s.later.toList := by
  obtain ⟨-, first⟩ := of?_eq_some.1 h
  obtain ⟨p, hp, literal⟩ := List.mem_filterMap.1 (List.mem_of_find?_eq_some first)
  have starts : s.earlier.toList.isPrefixOf s.later.toList = true :=
    List.find?_some (p := fun text : String => text.toList.isPrefixOf s.later.toList) first
  exact ⟨p, hp, literal, List.isPrefixOf_iff_prefix.1 starts⟩

/-- Alternatives that amount to the same literals are shadowed alike. -/
theorem of?_map {f : Pattern → Pattern} (h : ∀ p : Pattern, (f p).literal? = p.literal?) :
    of? (before.map f) (f alt) = of? before alt := by
  have same : (before.map f).filterMap Pattern.literal? = before.filterMap Pattern.literal? := by
    rw [List.filterMap_map]
    exact congrArg (List.filterMap · before) (funext h)
  rw [of?, of?, h, same]

theorem mem_among_iff {alts : List Pattern} : s ∈ among before alts ↔
    ∃ pre alt post, alts = pre ++ alt :: post ∧ of? (before ++ pre) alt = some s := by
  induction alts generalizing before with
  | nil => simp [among]
  | cons alt alts ih =>
    rw [among, List.mem_append, Option.mem_toList, ih]
    constructor
    · rintro (here | ⟨pre, later, post, rfl, there⟩)
      · exact ⟨[], alt, alts, rfl, by rw [List.append_nil]; exact here⟩
      · exact ⟨alt :: pre, later, post, rfl, by rw [List.append_cons]; exact there⟩
    · rintro ⟨pre, later, post, heq, shadowed⟩
      cases pre with
      | nil =>
        obtain ⟨rfl, rfl⟩ := List.cons.inj heq
        exact .inl (by rwa [List.append_nil] at shadowed)
      | cons b pre =>
        obtain ⟨rfl, rfl⟩ := List.cons.inj heq
        exact .inr ⟨pre, later, post, rfl, by rwa [List.append_cons] at shadowed⟩

end Shadowing

namespace Pattern

variable {s : Shadowing} {p q : Pattern}

/-- What is reported of a pattern is reported of one of its own alternatives or of a part. -/
theorem mem_shadowings : s ∈ p.shadowings ↔
    (∃ alts, p = .choice alts ∧ s ∈ Shadowing.among [] alts) ∨ ∃ q ∈ p.parts, s ∈ q.shadowings := by
  cases p <;> simp [shadowings, shadowingsAll_eq_flatMap, parts]

/-- **What is reported of a pattern is what can be taken out of it.** -/
theorem mem_shadowings_iff : s ∈ p.shadowings ↔ ∃ q, p.Drops s q := by
  constructor
  · induction p using induction_parts with
    | node p ih =>
      intro h
      rcases mem_shadowings.1 h with ⟨alts, rfl, own⟩ | ⟨part, hpart, h⟩
      · obtain ⟨before, alt, after, rfl, shadowed⟩ := Shadowing.mem_among_iff.1 own
        exact ⟨_, .here shadowed⟩
      · obtain ⟨q, drops⟩ := ih part hpart h
        have listed {ps : List Pattern} (hps : part ∈ ps) :
            ∃ before after, ps = before ++ part :: after := List.append_of_mem hps
        have single {r : Pattern} (hr : part ∈ [r]) : r.Drops s q :=
          List.mem_singleton.1 hr ▸ drops
        cases p with
        | choice alts =>
          obtain ⟨before, after, rfl⟩ := @listed alts hpart
          exact ⟨_, .choice drops⟩
        | seq ps =>
          obtain ⟨before, after, rfl⟩ := @listed ps hpart
          exact ⟨_, .seq drops⟩
        | scope _ ps =>
          obtain ⟨before, after, rfl⟩ := @listed ps hpart
          exact ⟨_, .scope drops⟩
        | label => exact ⟨_, .label (single hpart)⟩
        | leftrec => exact ⟨_, .leftrec (single hpart)⟩
        | memo => exact ⟨_, .memo (single hpart)⟩
        | not => exact ⟨_, .not (single hpart)⟩
        | opt => exact ⟨_, .opt (single hpart)⟩
        | star => exact ⟨_, .star (single hpart)⟩
        | plus => exact ⟨_, .plus (single hpart)⟩
        | paren => exact ⟨_, .paren (single hpart)⟩
        | capture => exact ⟨_, .capture (single hpart)⟩
        | _ => contradiction
  · rintro ⟨q, drops⟩
    induction drops with
    | here shadowed =>
      exact mem_shadowings.2 (.inl ⟨_, rfl, Shadowing.mem_among_iff.2 ⟨_, _, _, rfl, shadowed⟩⟩)
    | @choice before after p | @seq before after p | @scope _ before after p =>
      exact mem_shadowings.2 (.inr ⟨p, List.mem_append_right _ (.head _), by assumption⟩)
    | _ _ ih => exact mem_shadowings.2 (.inr ⟨_, .head _, ih⟩)

/-! ## Literals -/

/-- A literal says nothing but its text, whatever groups are around it. -/
theorem kept_literal {α : Type} {kind : Mention → Option α}
    (blind : ∀ outer inner, kind (.wrapper outer inner) = none)
    (silent : ∀ text, kind (.lit text) = none) {text : String} (h : p.literal? = some text) :
    p.mentions.filterMap kind = [] := by
  induction p using literal?.induct with
  | case1 => simp [mentions, silent]
  | case2 p ih | case3 p ih => simpa [mentions, mentionsAll] using ih h
  | case4 p ih => simpa [mentions, blind] using ih h
  | case5 p => simp [literal?] at h

theorem leads_literal {text : String} (h : p.literal? = some text) (enter : String → Leads) :
    p.leads enter = .no := by
  induction p using literal?.induct with
  | case1 => rfl
  | case2 p ih => simp [leads, leadsFirst, ih h]
  | case3 p ih => simp [leads, leadsAny, ih h]
  | case4 p ih => exact ih h
  | case5 p => simp [literal?] at h

/-- An alternative that leads nowhere makes no difference to a choice. -/
theorem leadsAny_middle {enter : String → Leads} (h : p.leads enter = .no)
    (before after : List Pattern) :
    leadsAny enter (before ++ p :: after) = leadsAny enter (before ++ after) := by
  induction before with
  | nil => simp [leadsAny, h]
  | cons b before ih => simp only [List.cons_append, leadsAny, ih]

theorem simplify_literal {text : String} (h : p.literal? = some text) :
    p.simplify = .lit text := by
  induction p using literal?.induct with
  | case1 => exact congrArg _ (Option.some.inj h)
  | case2 p ih | case3 p ih | case4 p ih => exact ih h
  | case5 p => simp [literal?] at h

theorem hasLabel_literal {text : String} (h : p.literal? = some text) : p.hasLabel = false := by
  have nothing : p.labels = [] := kept_literal (fun _ _ => rfl) (fun _ => rfl) h
  rw [hasLabel, nothing]
  rfl

/-- Rebuilding leaves literals, if the change of a node does. -/
theorem literal?_rebuild {f : Pattern → Pattern}
    (node : ∀ p : Pattern, (f p).literal? = p.literal?) (p : Pattern) :
    (p.rebuild f).literal? = p.literal? := by
  induction p using induction_parts with
  | node p ih =>
    rw [rebuild_eq, node]
    cases p with
    | choice ps | seq ps =>
      rcases ps with _ | ⟨p, _ | ⟨q, ps⟩⟩
      · rfl
      · exact ih p (.head _)
      · rfl
    | paren p => exact ih p (.head _)
    | _ => rfl

theorem literal?_scopeAlternative (rule : String) (p : Pattern) :
    (p.scopeAlternative rule).literal? = p.literal? := by
  unfold scopeAlternative
  split
  · rfl
  · rfl
  · split
    · next labelled =>
      cases literal : p.literal? with
      | none => rfl
      | some text =>
        rw [hasLabel_literal literal] at labelled
        contradiction
    · rfl

theorem literal?_scopeNode (rule : String) (p : Pattern) :
    (scopeNode rule p).literal? = p.literal? := by
  unfold scopeNode
  split
  · next ps =>
    split
    · next labelled =>
      rcases ps with _ | ⟨p, _ | ⟨q, ps⟩⟩
      · rfl
      · cases literal : p.literal? with
        | none => exact literal.symm
        | some text => simp [hasLabel_literal literal] at labelled
      · rfl
    · rfl
  · next alts =>
    rcases alts with _ | ⟨p, _ | ⟨q, ps⟩⟩
    · rfl
    · exact literal?_scopeAlternative rule p
    · rfl
  · rfl

/-- A sequence of one term has no term that is referred to. -/
theorem literal?_positionalNode (rule : String) (p : Pattern) :
    (positionalNode rule p).literal? = p.literal? := by
  unfold positionalNode
  split
  · next ps =>
    split
    · next needed =>
      rcases ps with _ | ⟨p, _ | ⟨q, ps⟩⟩
      · rfl
      · simp [anyNeedsLabel, needsLabel] at needed
      · rfl
    · rfl
  · rfl
  · rfl

/-! ## Simplified nodes where alternatives are missing -/

theorem thins_middle (h : p.Thins q) (before after : List Pattern) :
    List.Forall₂ Thins (before ++ p :: after) (before ++ q :: after) := by
  induction before with
  | nil => exact .cons h (thins_all after)
  | cons b before ih => exact .cons b.thins_self ih

theorem thins_choice {ps qs : List Pattern} (h : List.Forall₂ Thins ps qs) :
    (simplifyNode (.choice ps)).Thins (simplifyNode (.choice qs)) := by
  rcases h with _ | ⟨hp, _ | ⟨hq, rest⟩⟩
  · exact .choice .nil
  · exact hp
  · exact .choice (.cons hp (.cons hq rest))

theorem thins_seq {ps qs : List Pattern} (h : List.Forall₂ Thins ps qs) :
    (simplifyNode (.seq ps)).Thins (simplifyNode (.seq qs)) := by
  rcases h with _ | ⟨hp, _ | ⟨hq, rest⟩⟩
  · exact .empty
  · exact hp
  · exact .seq (.cons hp (.cons hq rest))

/-- A choice without a literal that comes after one of its prefixes.  If nothing but the prefix is
left, the prefix takes the place of the choice. -/
theorem thins_missing {before after : List Pattern} {earlier later : String}
    (first : .lit earlier ∈ before) (starts : earlier.toList <+: later.toList) :
    (simplifyNode (.choice (before ++ .lit later :: after))).Thins
      (simplifyNode (.choice (before ++ after))) := by
  rcases before with _ | ⟨b, _ | ⟨c, before⟩⟩
  · contradiction
  · obtain rfl := List.mem_singleton.1 first
    cases after with
    | nil => exact .sole starts
    | cons a after => exact .missing first starts
  · exact .missing first starts

namespace Drops

/-! ## What the analyses see -/

/-- Without a shadowed alternative a pattern mentions the same but for literals. -/
theorem kept {α : Type} {kind : Mention → Option α}
    (blind : ∀ outer inner, kind (.wrapper outer inner) = none)
    (silent : ∀ text, kind (.lit text) = none) (h : p.Drops s q) :
    q.mentions.filterMap kind = p.mentions.filterMap kind := by
  induction h with
  | here shadowed =>
    have nothing := kept_literal blind silent (Shadowing.of?_eq_some.1 shadowed).1
    rw [kept_eq blind, kept_eq blind]
    simp [said, parts, nothing]
  | choice _ ih | seq _ ih | scope _ ih | label _ ih | leftrec _ ih | memo _ ih | not _ ih
  | opt _ ih | star _ ih | plus _ ih | paren _ ih | capture _ ih =>
    rw [kept_eq blind, kept_eq blind]
    simp [said, parts, ih]

theorem applied (h : p.Drops s q) : q.applied = p.applied :=
  h.kept (fun _ _ => rfl) fun _ => rfl

theorem variableNames (h : p.Drops s q) : q.variableNames = p.variableNames :=
  h.kept (fun _ _ => rfl) fun _ => rfl

theorem labels (h : p.Drops s q) : q.labels = p.labels := h.kept (fun _ _ => rfl) fun _ => rfl

theorem hasLabel (h : p.Drops s q) : q.hasLabel = p.hasLabel := by
  rw [Pattern.hasLabel, Pattern.hasLabel, h.labels]

theorem hasFreeVariables (h : p.Drops s q) : q.hasFreeVariables = p.hasFreeVariables := by
  rw [Pattern.hasFreeVariables, Pattern.hasFreeVariables, h.variableNames, h.labels]

/-- Without a shadowed alternative a pattern leads into the same rules. -/
theorem leads (h : p.Drops s q) (enter : String → Leads) : q.leads enter = p.leads enter := by
  induction h with
  | @here before after alt shadowed =>
    have nowhere := leads_literal (Shadowing.of?_eq_some.1 shadowed).1 enter
    show leadsAny enter (before ++ after) = leadsAny enter (before ++ alt :: after)
    exact (leadsAny_middle nowhere before after).symm
  | choice _ ih => exact leadsAny_of_map (by simp [ih])
  | seq _ ih | scope _ ih => exact leadsFirst_of_map (by simp [ih])
  | opt _ ih | star _ ih | not _ ih => simp only [Pattern.leads, ih]
  | plus _ ih | label _ ih | capture _ ih | paren _ ih | memo _ ih => exact ih
  | leftrec => rfl

theorem leadsAlike (h : p.Drops s q) : p.LeadsAlike (fun _ => True) q := by
  intro enter enter' same
  obtain rfl : enter = enter' := by
    funext name
    exact same name trivial
  exact (h.leads enter).symm

/-! ## Scopes -/

theorem scopeAlternative (h : p.Drops s q) (rule : String) :
    (p.scopeAlternative rule).Drops s (q.scopeAlternative rule) := by
  have boxed : (if p.hasLabel then Pattern.scope rule [p] else p).Drops s
      (if q.hasLabel then .scope rule [q] else q) := by
    rw [h.hasLabel]
    split
    · exact @Drops.scope s rule [] [] p q h
    · exact h
  cases h with
  | seq h => exact .seq h
  | scope h => exact .scope h
  | _ => exact boxed

/-- The gap is still there when scopes are put in. -/
theorem rebuild_scopeNode (h : p.Drops s q) (rule : String) :
    (p.rebuild (scopeNode rule)).Drops s (q.rebuild (scopeNode rule)) := by
  have choice (alts : List Pattern) : (Pattern.choice alts).rebuild (scopeNode rule)
      = .choice (alts.map fun p => (p.rebuild (scopeNode rule)).scopeAlternative rule) := by
    rw [rebuild, rebuildAll_eq_map, scopeNode, List.map_map]
    rfl
  induction h with
  | here shadowed =>
    rw [choice, choice, List.map_append, List.map_append, List.map_cons]
    refine .here ((Shadowing.of?_map fun p => ?_).trans shadowed)
    rw [literal?_scopeAlternative, literal?_rebuild (literal?_scopeNode rule)]
  | choice _ ih =>
    rw [choice, choice, List.map_append, List.map_append, List.map_cons, List.map_cons]
    exact .choice (ih.scopeAlternative rule)
  | seq _ ih =>
    rw [rebuild, rebuild, rebuildAll_eq_map, rebuildAll_eq_map, scopeNode, scopeNode]
    simp only [List.map_append, List.map_cons, List.any_append, List.any_cons, ih.hasLabel]
    split
    · exact .scope ih
    · exact .seq ih
  | scope _ ih =>
    rw [rebuild, rebuild, rebuildAll_eq_map, rebuildAll_eq_map, scopeNode, scopeNode]
    · simp only [List.map_append, List.map_cons]
      exact .scope ih
    all_goals simp
  | label _ ih => exact .label ih
  | leftrec _ ih => exact .leftrec ih
  | memo _ ih => exact .memo ih
  | not _ ih => exact .not ih
  | opt _ ih => exact .opt ih
  | star _ ih => exact .star ih
  | plus _ ih => exact .plus ih
  | paren _ ih => exact .paren ih
  | capture _ ih => exact .capture ih

theorem insertScopes (h : p.Drops s q) (rule : String) :
    (p.insertScopes rule).Drops s (q.insertScopes rule) := by
  have inside := h.rebuild_scopeNode rule
  unfold Pattern.insertScopes
  generalize p.rebuild (scopeNode rule) = p' at inside
  generalize q.rebuild (scopeNode rule) = q' at inside
  have boxed := inside.scopeAlternative rule
  cases inside with
  | here shadowed => exact .here shadowed
  | choice h => exact .choice h
  | _ => exact boxed

/-! ## Positional labels -/

theorem isLabelNamed (h : p.Drops s q) (name : String) :
    q.isLabelNamed name = p.isLabelNamed name := by
  cases h <;> rfl

/-- Whether a term needs a label does not depend on the gap in a later one. -/
theorem needsLabel_later (h : p.Drops s q) (position : Nat) (term : Pattern)
    (before after : List Pattern) : needsLabel position term (before ++ q :: after)
      = needsLabel position term (before ++ p :: after) := by
  simp only [needsLabel, List.any_append, List.any_cons, h.variableNames]

/-- Whether a term needs a label does not depend on the gap in it. -/
theorem needsLabel_self (h : p.Drops s q) (position : Nat) (later : List Pattern) :
    needsLabel position q later = needsLabel position p later := by
  simp only [needsLabel, h.isLabelNamed]

theorem anyNeedsLabel (h : p.Drops s q) (before after : List Pattern) (position : Nat) :
    anyNeedsLabel position (before ++ q :: after)
      = anyNeedsLabel position (before ++ p :: after) := by
  induction before generalizing position with
  | nil => simp only [List.nil_append, Pattern.anyNeedsLabel, h.needsLabel_self]
  | cons b before ih =>
    simp only [List.cons_append, Pattern.anyNeedsLabel, h.needsLabel_later, ih]

/-- The gap is in one of the terms when they are labelled. -/
theorem labelTerms (h : p.Drops s q) (before after : List Pattern) (position : Nat) :
    ∃ pre p' q' post, labelTerms position (before ++ p :: after) = pre ++ p' :: post ∧
      labelTerms position (before ++ q :: after) = pre ++ q' :: post ∧ p'.Drops s q' := by
  induction before generalizing position with
  | nil =>
    simp only [List.nil_append, Pattern.labelTerms, h.needsLabel_self]
    split
    · exact ⟨[], _, _, _, rfl, rfl, .label h⟩
    · exact ⟨[], _, _, _, rfl, rfl, h⟩
  | cons b before ih =>
    obtain ⟨pre, p', q', post, hp, hq, drops⟩ := ih (position + 1)
    simp only [List.cons_append, Pattern.labelTerms, h.needsLabel_later, hp, hq]
    exact ⟨_ :: pre, p', q', post, rfl, rfl, drops⟩

/-- The gap is still there when positional labels are put in. -/
theorem insertPositional (h : p.Drops s q) (rule : String) :
    (p.insertPositional rule).Drops s (q.insertPositional rule) := by
  have choice (alts : List Pattern) : (Pattern.choice alts).insertPositional rule
      = .choice (alts.map fun p => p.insertPositional rule) := by
    rw [Pattern.insertPositional, rebuild, rebuildAll_eq_map]
    rfl
  have seq (ps : List Pattern) : (Pattern.seq ps).insertPositional rule
      = positionalNode rule (.seq (ps.map fun p => p.insertPositional rule)) := by
    rw [Pattern.insertPositional, rebuild, rebuildAll_eq_map]
    rfl
  have scope (owner : String) (ps : List Pattern) : (Pattern.scope owner ps).insertPositional rule
      = .scope owner (Pattern.labelTerms 1 (ps.map fun p => p.insertPositional rule)) := by
    rw [Pattern.insertPositional, rebuild, rebuildAll_eq_map]
    rfl
  induction h with
  | here shadowed =>
    rw [choice, choice, List.map_append, List.map_append, List.map_cons]
    exact .here ((Shadowing.of?_map (literal?_rebuild (literal?_positionalNode rule))).trans
      shadowed)
  | choice _ ih =>
    rw [choice, choice, List.map_append, List.map_append, List.map_cons, List.map_cons]
    exact .choice ih
  | seq _ ih =>
    rw [seq, seq, List.map_append, List.map_append, List.map_cons, List.map_cons, positionalNode,
      positionalNode, ih.anyNeedsLabel]
    split
    · obtain ⟨pre, p', q', post, hp, hq, drops⟩ := ih.labelTerms _ _ 1
      rw [hp, hq]
      exact .scope drops
    · exact .seq ih
  | scope _ ih =>
    rw [scope, scope, List.map_append, List.map_append, List.map_cons, List.map_cons]
    obtain ⟨pre, p', q', post, hp, hq, drops⟩ := ih.labelTerms _ _ 1
    rw [hp, hq]
    exact .scope drops
  | label _ ih => exact .label ih
  | leftrec _ ih => exact .leftrec ih
  | memo _ ih => exact .memo ih
  | not _ ih => exact .not ih
  | opt _ ih => exact .opt ih
  | star _ ih => exact .star ih
  | plus _ ih => exact .plus ih
  | paren _ ih => exact .paren ih
  | capture _ ih => exact .capture ih

/-! ## The gap in a simplified pattern -/

/-- In a simplified pattern the alternative is missing. -/
theorem thins (h : p.Drops s q) : p.simplify.Thins q.simplify := by
  induction h with
  | here shadowed =>
    obtain ⟨p, hp, literal, starts⟩ := Shadowing.exists_earlier shadowed
    rw [simplify_choice, simplify_choice, List.map_append, List.map_append, List.map_cons,
      simplify_literal (Shadowing.of?_eq_some.1 shadowed).1]
    exact thins_missing (List.mem_map.2 ⟨p, hp, simplify_literal literal⟩) starts
  | choice _ ih =>
    rw [simplify_choice, simplify_choice, List.map_append, List.map_append, List.map_cons,
      List.map_cons]
    exact thins_choice (thins_middle ih _ _)
  | seq _ ih =>
    rw [simplify_seq, simplify_seq, List.map_append, List.map_append, List.map_cons,
      List.map_cons]
    exact thins_seq (thins_middle ih _ _)
  | scope _ ih =>
    rw [simplify_scope, simplify_scope, List.map_append, List.map_append, List.map_cons,
      List.map_cons]
    exact .scope (thins_middle ih _ _)
  | label _ ih => exact .label ih
  | leftrec _ ih => exact .leftrec ih
  | memo _ ih => exact .memo ih
  | not _ ih => exact .not ih
  | opt _ ih => exact .opt ih
  | star _ ih => exact .star ih
  | plus _ ih => exact .plus ih
  | paren _ ih => exact ih
  | capture _ ih => exact .capture ih

end Drops

end Pattern

end Pegboard
