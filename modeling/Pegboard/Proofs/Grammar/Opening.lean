import Pegboard.Grammar.Rules

/-!
# What a pattern may come to first

Two questions about a pattern, answered by its form: whether it may succeed without consuming
input, and which rules it may apply at the offset where it starts.  Both answers err on one side
only.  What they exclude cannot happen, in any match; that is proved where matches are.

Whether a pattern may be empty depends on the rules that it applies, and those on others.  So it is
asked relative to a set of names, and a set that suits all bodies is `EmptyClosed`.  The least such
set is `Bodies.mayBeEmpty`.

## Main Definitions

* `Pattern.nullable`: a pattern may succeed without consuming input.
* `Pattern.opens`: a pattern may apply a rule where it starts.
* `Pattern.Everywhere`: something is so of all nodes of a pattern.
* `Bodies.EmptyClosed`, `Bodies.mayBeEmpty`: the names of rules that may be empty.
* `Bodies.LeftCall`: the body of one rule may apply another one where it starts.
* `Bodies.Within`: a rule may be applied where the seed of another one grows.
-/

namespace Pegboard

namespace Pattern

/-! ## Patterns that may be empty -/

mutual

/-- Whether a pattern may succeed without consuming input, if that is so of the rules in `empty`.
The wrappers may give what was recorded for their rule in place of what is inside them. -/
def nullable (empty : String → Prop) : Pattern → Prop
  | .choice alts => nullableAny empty alts
  | .seq ps => nullableAll empty ps
  | .scope _ ps => nullableAll empty ps
  | .label p _ => nullable empty p
  | .leftrec p rule => nullable empty p ∨ empty rule
  | .memo p rule => nullable empty p ∨ empty rule
  | .apply name => empty name
  | .lit text => text.toList = []
  | .range _ _ => False
  | .not _ => True
  | .opt _ => True
  | .star _ => True
  | .plus p => nullable empty p
  | .paren p => nullable empty p
  | .capture p => nullable empty p
  | .pred _ => True
  | .eq _ => True
  | .action _ => True
  | .pos => True
  | .empty => True

/-- Whether one of some alternatives may be empty. -/
def nullableAny (empty : String → Prop) : List Pattern → Prop
  | [] => False
  | p :: ps => nullable empty p ∨ nullableAny empty ps

/-- Whether all of some terms may be empty. -/
def nullableAll (empty : String → Prop) : List Pattern → Prop
  | [] => True
  | p :: ps => nullable empty p ∧ nullableAll empty ps

end

mutual

/-- More rules that may be empty make no pattern less so. -/
theorem nullable_mono {a b : String → Prop} (h : ∀ name, a name → b name) :
    ∀ p : Pattern, nullable a p → nullable b p
  | .choice alts, hp => nullableAny_mono h alts hp
  | .seq ps, hp => nullableAll_mono h ps hp
  | .scope _ ps, hp => nullableAll_mono h ps hp
  | .label p _, hp => nullable_mono h p hp
  | .leftrec p rule, hp => Or.imp (nullable_mono h p) (h rule) hp
  | .memo p rule, hp => Or.imp (nullable_mono h p) (h rule) hp
  | .apply name, hp => h name hp
  | .lit _, hp => hp
  | .range _ _, hp => hp
  | .not _, _ => trivial
  | .opt _, _ => trivial
  | .star _, _ => trivial
  | .plus p, hp => nullable_mono h p hp
  | .paren p, hp => nullable_mono h p hp
  | .capture p, hp => nullable_mono h p hp
  | .pred _, _ => trivial
  | .eq _, _ => trivial
  | .action _, _ => trivial
  | .pos, _ => trivial
  | .empty, _ => trivial

theorem nullableAny_mono {a b : String → Prop} (h : ∀ name, a name → b name) :
    ∀ ps : List Pattern, nullableAny a ps → nullableAny b ps
  | p :: ps, hp => Or.imp (nullable_mono h p) (nullableAny_mono h ps) hp

theorem nullableAll_mono {a b : String → Prop} (h : ∀ name, a name → b name) :
    ∀ ps : List Pattern, nullableAll a ps → nullableAll b ps
  | [], _ => trivial
  | p :: ps, hp => And.imp (nullable_mono h p) (nullableAll_mono h ps) hp

end

/-! ## The nodes of a pattern -/

/-- The parts that a pattern is put together from. -/
def parts : Pattern → List Pattern
  | .choice alts => alts
  | .seq ps => ps
  | .scope _ ps => ps
  | .label p _ => [p]
  | .leftrec p _ => [p]
  | .memo p _ => [p]
  | .not p => [p]
  | .opt p => [p]
  | .star p => [p]
  | .plus p => [p]
  | .paren p => [p]
  | .capture p => [p]
  | .apply _ => []
  | .lit _ => []
  | .range _ _ => []
  | .pred _ => []
  | .eq _ => []
  | .action _ => []
  | .pos => []
  | .empty => []

mutual

/-- A pattern and all that it is put together from, at any depth. -/
def nodes : Pattern → List Pattern
  | .choice alts => .choice alts :: nodesAll alts
  | .seq ps => .seq ps :: nodesAll ps
  | .scope rule ps => .scope rule ps :: nodesAll ps
  | .label p name => .label p name :: nodes p
  | .leftrec p rule => .leftrec p rule :: nodes p
  | .memo p rule => .memo p rule :: nodes p
  | .not p => .not p :: nodes p
  | .opt p => .opt p :: nodes p
  | .star p => .star p :: nodes p
  | .plus p => .plus p :: nodes p
  | .paren p => .paren p :: nodes p
  | .capture p => .capture p :: nodes p
  | .apply name => [.apply name]
  | .lit text => [.lit text]
  | .range lo hi => [.range lo hi]
  | .pred e => [.pred e]
  | .eq e => [.eq e]
  | .action e => [.action e]
  | .pos => [.pos]
  | .empty => [.empty]

/-- The nodes of the patterns of a list. -/
def nodesAll : List Pattern → List Pattern
  | [] => []
  | p :: ps => nodes p ++ nodesAll ps

end

theorem nodes_eq (p : Pattern) : p.nodes = p :: nodesAll p.parts := by
  cases p <;> simp [nodes, nodesAll, parts]

/-- Whether something is so of all nodes of a pattern. -/
def Everywhere (P : Pattern → Prop) (p : Pattern) : Prop := ∀ q ∈ p.nodes, P q

theorem forall_mem_nodesAll {P : Pattern → Prop} {ps : List Pattern} :
    (∀ q ∈ nodesAll ps, P q) ↔ ∀ p ∈ ps, p.Everywhere P := by
  induction ps with
  | nil => simp [nodesAll]
  | cons p ps ih =>
    simp only [nodesAll, List.mem_append, or_imp, forall_and, ih, List.forall_mem_cons]
    rfl

/-- Something is so of all nodes if it is so of the pattern and of all nodes of its parts. -/
theorem everywhere_iff {P : Pattern → Prop} {p : Pattern} :
    p.Everywhere P ↔ P p ∧ ∀ q ∈ p.parts, q.Everywhere P := by
  rw [Everywhere, nodes_eq, List.forall_mem_cons, forall_mem_nodesAll]

theorem everywhere_leaf {P : Pattern → Prop} {p : Pattern} (own : P p) (leaf : p.parts = []) :
    p.Everywhere P :=
  everywhere_iff.2 ⟨own, fun q hq => by rw [leaf] at hq; contradiction⟩

/-- Something is so of all nodes of what stands around a pattern if it is so of all its nodes. -/
theorem everywhere_around {P : Pattern → Prop} {p q : Pattern} (own : P p) (around : p.parts = [q])
    (h : q.Everywhere P) : p.Everywhere P :=
  everywhere_iff.2 ⟨own, fun r hr => by
    rw [around] at hr
    exact List.mem_singleton.1 hr ▸ h⟩

/-- Whether the rule of a wrapper is in `empty` if what is inside may be empty.  It is so of all
patterns but wrappers. -/
def WrapClosed (empty : String → Prop) : Pattern → Prop
  | .leftrec p rule => p.nullable empty → empty rule
  | .memo p rule => p.nullable empty → empty rule
  | _ => True

/-- A set that is closed under wrappers for each of many sets is so for what they have in common. -/
theorem wrapClosed_forall {sets : (String → Prop) → Prop} {p : Pattern}
    (h : ∀ empty, sets empty → p.WrapClosed empty) :
    p.WrapClosed fun name => ∀ empty, sets empty → empty name := by
  cases p with
  | leftrec p rule =>
    exact fun hp empty hs => h empty hs (nullable_mono (fun _ hn => hn empty hs) p hp)
  | memo p rule =>
    exact fun hp empty hs => h empty hs (nullable_mono (fun _ hn => hn empty hs) p hp)
  | _ => trivial

/-! ## Rules that are applied first -/

mutual

/-- Whether a pattern may apply the rule `name`, or grow a seed of it, at the offset where the
pattern starts, if of the terms of a sequence those in `skip` may be passed on the way. -/
def opens (skip : Pattern → Prop) (name : String) : Pattern → Prop
  | .choice alts => opensAny skip name alts
  | .seq ps => opensTerms skip name ps
  | .scope _ ps => opensTerms skip name ps
  | .label p _ => opens skip name p
  | .leftrec p rule => rule = name ∨ opens skip name p
  | .memo p _ => opens skip name p
  | .apply rule => rule = name
  | .not p => opens skip name p
  | .opt p => opens skip name p
  | .star p => opens skip name p
  | .plus p => opens skip name p
  | .paren p => opens skip name p
  | .capture p => opens skip name p
  | .lit _ => False
  | .range _ _ => False
  | .pred _ => False
  | .eq _ => False
  | .action _ => False
  | .pos => False
  | .empty => False

/-- Whether one of some alternatives may apply a rule where it starts. -/
def opensAny (skip : Pattern → Prop) (name : String) : List Pattern → Prop
  | [] => False
  | p :: ps => opens skip name p ∨ opensAny skip name ps

/-- Whether some terms may apply a rule where the first of them starts. -/
def opensTerms (skip : Pattern → Prop) (name : String) : List Pattern → Prop
  | [] => False
  | p :: ps => opens skip name p ∨ skip p ∧ opensTerms skip name ps

end

mutual

/-- What may be passed only has to do with the nodes of a pattern. -/
theorem opens_of_skip {skip skip' : Pattern → Prop} {name : String} :
    ∀ p : Pattern, (p.Everywhere fun q => skip q → skip' q) → p.opens skip name →
      p.opens skip' name
  | .choice alts, h, hp => opensAny_of_skip alts (everywhere_iff.1 h).2 hp
  | .seq ps, h, hp => opensTerms_of_skip ps (everywhere_iff.1 h).2 hp
  | .scope _ ps, h, hp => opensTerms_of_skip ps (everywhere_iff.1 h).2 hp
  | .leftrec p _, h, hp => hp.imp_right (opens_of_skip p ((everywhere_iff.1 h).2 p (.head _)))
  | .label p _, h, hp => opens_of_skip p ((everywhere_iff.1 h).2 p (.head _)) hp
  | .memo p _, h, hp => opens_of_skip p ((everywhere_iff.1 h).2 p (.head _)) hp
  | .not p, h, hp => opens_of_skip p ((everywhere_iff.1 h).2 p (.head _)) hp
  | .opt p, h, hp => opens_of_skip p ((everywhere_iff.1 h).2 p (.head _)) hp
  | .star p, h, hp => opens_of_skip p ((everywhere_iff.1 h).2 p (.head _)) hp
  | .plus p, h, hp => opens_of_skip p ((everywhere_iff.1 h).2 p (.head _)) hp
  | .paren p, h, hp => opens_of_skip p ((everywhere_iff.1 h).2 p (.head _)) hp
  | .capture p, h, hp => opens_of_skip p ((everywhere_iff.1 h).2 p (.head _)) hp
  | .apply _, _, hp => hp

theorem opensAny_of_skip {skip skip' : Pattern → Prop} {name : String} :
    ∀ ps : List Pattern, (∀ p ∈ ps, p.Everywhere fun q => skip q → skip' q) →
      opensAny skip name ps → opensAny skip' name ps
  | p :: ps, h, hp =>
    hp.imp (opens_of_skip p (h p (.head _))) (opensAny_of_skip ps fun q hq => h q (.tail _ hq))

theorem opensTerms_of_skip {skip skip' : Pattern → Prop} {name : String} :
    ∀ ps : List Pattern, (∀ p ∈ ps, p.Everywhere fun q => skip q → skip' q) →
      opensTerms skip name ps → opensTerms skip' name ps
  | p :: ps, h, hp =>
    hp.imp (opens_of_skip p (h p (.head _)))
      (And.imp ((everywhere_iff.1 (h p (.head _))).1)
        (opensTerms_of_skip ps fun q hq => h q (.tail _ hq)))

end

/-! ## Rebuilding -/

section Rebuild

variable {f : Pattern → Pattern} {empty : String → Prop} {name : String}

mutual

/-- If a change of nodes makes none that may be empty of one that may not, then rebuilding does not
either. -/
theorem nullable_of_rebuild (hf : ∀ q : Pattern, (f q).nullable empty → q.nullable empty) :
    ∀ p : Pattern, (p.rebuild f).nullable empty → p.nullable empty
  | .choice alts, h => nullableAny_of_rebuild hf alts (hf _ h)
  | .seq ps, h => nullableAll_of_rebuild hf ps (hf _ h)
  | .scope _ ps, h => nullableAll_of_rebuild hf ps (hf _ h)
  | .leftrec p _, h => Or.imp_left (nullable_of_rebuild hf p) (hf _ h)
  | .memo p _, h => Or.imp_left (nullable_of_rebuild hf p) (hf _ h)
  | .label p n, h => nullable_of_rebuild hf p (hf (.label _ n) h)
  | .plus p, h => nullable_of_rebuild hf p (hf (.plus _) h)
  | .paren p, h => nullable_of_rebuild hf p (hf (.paren _) h)
  | .capture p, h => nullable_of_rebuild hf p (hf (.capture _) h)
  | .not _, _ => trivial
  | .opt _, _ => trivial
  | .star _, _ => trivial
  | .apply _, h => hf _ h
  | .lit _, h => hf _ h
  | .range _ _, h => hf _ h
  | .pred _, _ => trivial
  | .eq _, _ => trivial
  | .action _, _ => trivial
  | .pos, _ => trivial
  | .empty, _ => trivial

theorem nullableAny_of_rebuild (hf : ∀ q : Pattern, (f q).nullable empty → q.nullable empty) :
    ∀ ps : List Pattern, nullableAny empty (rebuildAll f ps) → nullableAny empty ps
  | p :: ps, h => Or.imp (nullable_of_rebuild hf p) (nullableAny_of_rebuild hf ps) h

theorem nullableAll_of_rebuild (hf : ∀ q : Pattern, (f q).nullable empty → q.nullable empty) :
    ∀ ps : List Pattern, nullableAll empty (rebuildAll f ps) → nullableAll empty ps
  | [], _ => trivial
  | p :: ps, h => And.imp (nullable_of_rebuild hf p) (nullableAll_of_rebuild hf ps) h

end

mutual

/-- If a change of nodes lets none of them open a rule that did not before, then rebuilding does not
either. -/
theorem opens_of_rebuild
    (hf : ∀ q : Pattern, (f q).nullable empty → q.nullable empty)
    (ho : ∀ q : Pattern, (f q).opens (nullable empty) name → q.opens (nullable empty) name) :
    ∀ p : Pattern, (p.rebuild f).opens (nullable empty) name → p.opens (nullable empty) name
  | .choice alts, h => opensAny_of_rebuild hf ho alts (ho _ h)
  | .seq ps, h => opensTerms_of_rebuild hf ho ps (ho _ h)
  | .scope _ ps, h => opensTerms_of_rebuild hf ho ps (ho _ h)
  | .leftrec p _, h => Or.imp_right (opens_of_rebuild hf ho p) (ho _ h)
  | .memo p n, h => opens_of_rebuild hf ho p (ho (.memo _ n) h)
  | .label p n, h => opens_of_rebuild hf ho p (ho (.label _ n) h)
  | .not p, h => opens_of_rebuild hf ho p (ho (.not _) h)
  | .opt p, h => opens_of_rebuild hf ho p (ho (.opt _) h)
  | .star p, h => opens_of_rebuild hf ho p (ho (.star _) h)
  | .plus p, h => opens_of_rebuild hf ho p (ho (.plus _) h)
  | .paren p, h => opens_of_rebuild hf ho p (ho (.paren _) h)
  | .capture p, h => opens_of_rebuild hf ho p (ho (.capture _) h)
  | .apply _, h => ho _ h
  | .lit _, h => ho _ h
  | .range _ _, h => ho _ h
  | .pred _, h => ho _ h
  | .eq _, h => ho _ h
  | .action _, h => ho _ h
  | .pos, h => ho _ h
  | .empty, h => ho _ h

theorem opensAny_of_rebuild
    (hf : ∀ q : Pattern, (f q).nullable empty → q.nullable empty)
    (ho : ∀ q : Pattern, (f q).opens (nullable empty) name → q.opens (nullable empty) name) :
    ∀ ps : List Pattern, opensAny (nullable empty) name (rebuildAll f ps) →
      opensAny (nullable empty) name ps
  | p :: ps, h => Or.imp (opens_of_rebuild hf ho p) (opensAny_of_rebuild hf ho ps) h

theorem opensTerms_of_rebuild
    (hf : ∀ q : Pattern, (f q).nullable empty → q.nullable empty)
    (ho : ∀ q : Pattern, (f q).opens (nullable empty) name → q.opens (nullable empty) name) :
    ∀ ps : List Pattern, opensTerms (nullable empty) name (rebuildAll f ps) →
      opensTerms (nullable empty) name ps
  | p :: ps, h =>
    Or.imp (opens_of_rebuild hf ho p)
      (And.imp (nullable_of_rebuild hf p) (opensTerms_of_rebuild hf ho ps)) h

end

end Rebuild

end Pattern

namespace Bodies

/-! ## The rules that may be empty -/

/-- A set of names that holds every rule which may be empty if the rules in the set may. -/
structure EmptyClosed (bodies : Bodies) (empty : String → Prop) : Prop where
  /-- It holds the rules whose bodies may be empty. -/
  rule : ∀ name body, bodies.body? name = some body → body.nullable empty → empty name
  /-- It holds the rules of the wrappers whose insides may be empty. -/
  wrapper : ∀ b ∈ bodies, b.2.Everywhere (Pattern.WrapClosed empty)
  /-- It holds the builtin rule that matches nothing. -/
  builtin : bodies.body? BuiltinRule.end.name = none → empty BuiltinRule.end.name

/-- The rules that may be empty: those in every closed set. -/
def mayBeEmpty (bodies : Bodies) (name : String) : Prop :=
  ∀ empty, bodies.EmptyClosed empty → empty name

theorem mayBeEmpty_closed (bodies : Bodies) : bodies.EmptyClosed bodies.mayBeEmpty where
  rule name body found hbody empty closed :=
    closed.rule name body found (Pattern.nullable_mono (fun _ h => h empty closed) body hbody)
  wrapper b hb q hq := Pattern.wrapClosed_forall fun _ closed => closed.wrapper b hb q hq
  builtin none _ closed := closed.builtin none

/-- All names together are closed. -/
theorem emptyClosed_univ (bodies : Bodies) : bodies.EmptyClosed fun _ => True where
  rule _ _ _ _ := trivial
  wrapper _ _ q _ := by cases q <;> simp [Pattern.WrapClosed]
  builtin _ := trivial

theorem mem_of_body? {bodies : Bodies} {name : String} {body : Pattern}
    (h : bodies.body? name = some body) : (name, body) ∈ bodies := by
  obtain ⟨b, hb, rfl⟩ := Option.map_eq_some_iff.1 h
  have named : b.1 = name := by simpa using List.find?_some hb
  exact named ▸ List.mem_of_find?_eq_some hb

theorem body?_of_mem {bodies : Bodies} (nodup : (bodies.map (·.1)).Nodup) {b : String × Pattern}
    (hb : b ∈ bodies) : bodies.body? b.1 = some b.2 := by
  induction bodies with
  | nil => contradiction
  | cons c bodies ih =>
    obtain ⟨fresh, nodup⟩ := List.nodup_cons.1 nodup
    rw [body?, List.find?_cons]
    rcases List.mem_cons.1 hb with rfl | hb
    · simp
    · have hne : (c.1 == b.1) = false := by
        rw [beq_eq_false_iff_ne]
        exact fun same => fresh (List.mem_map.2 ⟨b, hb, same.symm⟩)
      rw [hne]
      exact ih nodup hb

/-! ## Left calls -/

/-- The body of the rule `caller` may apply the rule `callee` at the offset where it starts. -/
def LeftCall (bodies : Bodies) (caller callee : String) : Prop :=
  ∃ body, bodies.body? caller = some body ∧
    body.opens (Pattern.nullable bodies.mayBeEmpty) callee

/-- One rule comes to another through left calls, or is it. -/
inductive LeftPath (bodies : Bodies) : String → String → Prop where
  | refl {a} : LeftPath bodies a a
  | step {a b c} (call : bodies.LeftCall a b) (rest : LeftPath bodies b c) : LeftPath bodies a c

theorem LeftPath.trans {bodies : Bodies} {a b c : String} (h : bodies.LeftPath a b)
    (rest : bodies.LeftPath b c) : bodies.LeftPath a c := by
  induction h with
  | refl => exact rest
  | step first _ ih => exact .step first (ih rest)

/-- A way to another rule ends with a left call of it. -/
theorem LeftPath.last {bodies : Bodies} {a c : String} (h : bodies.LeftPath a c) :
    a = c ∨ ∃ b, bodies.LeftCall b c := by
  induction h with
  | refl => exact .inl rfl
  | @step a b c call _ ih =>
    rcases ih with rfl | last
    · exact .inr ⟨a, call⟩
    · exact .inr last

/-- Where a seed of the rule `seed` grows, the rule `name` may come to be applied before anything is
consumed. -/
def Within (bodies : Bodies) (seed name : String) : Prop :=
  ∃ b ∈ bodies, ∃ inner, Pattern.leftrec inner seed ∈ b.2.nodes ∧
    ∃ first, inner.opens (Pattern.nullable bodies.mayBeEmpty) first ∧ bodies.LeftPath first name

theorem Within.step {bodies : Bodies} {seed a b : String} (h : bodies.Within seed a)
    (call : bodies.LeftCall a b) : bodies.Within seed b := by
  obtain ⟨rule, hrule, inner, hinner, first, opens, path⟩ := h
  exact ⟨rule, hrule, inner, hinner, first, opens, path.trans (.step call .refl)⟩

end Bodies

end Pegboard
