import Pegboard.Normalize
import Pegboard.Proofs.Match.Frame

/-!
# Labels of normalized grammars

In a normalized grammar every label is in a scope of the rule where it stands.  Putting scopes in
makes it so, and the passes after that keep it so.

## Main Results

* `RuleSet.normalize_eq_ok`: what normalization gives, if it succeeds.
* `RuleSet.body?_of_normalize`: what becomes of the body of a rule.
* `RuleSet.forall_mem_of_normalize`: what is so of all bodies of a normalized grammar.
* `RuleSet.closed_of_normalize`: the bodies of a normalized grammar are closed.
-/

namespace Pegboard

namespace Pattern

/-! ## Patterns without labels -/

mutual

/-- A pattern that mentions no label is closed. -/
theorem closed_of_mentions : ∀ p : Pattern, (∀ m ∈ p.mentions, m.labelName? = none) → p.Closed
  | .choice alts, h => closedAll_of_mentions alts h
  | .seq ps, h => closedAll_of_mentions ps h
  | .scope _ _, _ => trivial
  | .label _ name, h => by
    have := h (.label name) (.head _)
    contradiction
  | .leftrec p _, h => closed_of_mentions p h
  | .memo p _, h => closed_of_mentions p h
  | .not p, h => closed_of_mentions p fun m hm => h m (.tail _ hm)
  | .opt p, h => closed_of_mentions p fun m hm => h m (.tail _ hm)
  | .star p, h => closed_of_mentions p fun m hm => h m (.tail _ hm)
  | .plus p, h => closed_of_mentions p fun m hm => h m (.tail _ hm)
  | .paren p, h => closed_of_mentions p fun m hm => h m (.tail _ hm)
  | .capture p, h => closed_of_mentions p fun m hm => h m (.tail _ hm)
  | .apply _, _ => trivial
  | .lit _, _ => trivial
  | .range _ _, _ => trivial
  | .pred _, _ => trivial
  | .eq _, _ => trivial
  | .action _, _ => trivial
  | .pos, _ => trivial
  | .empty, _ => trivial

theorem closedAll_of_mentions : ∀ ps : List Pattern,
    (∀ m ∈ mentionsAll ps, m.labelName? = none) → ClosedAll ps
  | [], _ => trivial
  | p :: ps, h =>
    ⟨closed_of_mentions p fun m hm => h m (List.mem_append_left _ hm),
      closedAll_of_mentions ps fun m hm => h m (List.mem_append_right _ hm)⟩

end

theorem closed_of_not_hasLabel {p : Pattern} (h : p.hasLabel = false) : p.Closed := by
  refine closed_of_mentions p fun m hm => ?_
  have hnil : p.labels = [] := by simpa [hasLabel] using h
  cases hname : m.labelName? with
  | none => rfl
  | some name =>
    have hmem : name ∈ p.labels := List.mem_filterMap.2 ⟨m, hm, hname⟩
    rw [hnil] at hmem
    contradiction

/-! ## Putting scopes in -/

/-- A sequence that does not become a scope has no labels. -/
theorem closedAll_of_not_any {ps : List Pattern} (h : ¬ ps.any hasLabel = true) : ClosedAll ps := by
  refine closedAll_iff.2 fun q hq => closed_of_not_hasLabel ?_
  simpa using fun hlabel => h (List.any_eq_true.2 ⟨q, hq, hlabel⟩)

/-- A sequence that stays one when scopes are put in is closed. -/
theorem closedAll_of_rebuild_eq_seq {rule : String} {p : Pattern} {qs : List Pattern}
    (h : p.rebuild (scopeNode rule) = .seq qs) : ClosedAll qs := by
  cases p with
  | seq ps =>
    rw [rebuild, scopeNode] at h
    split at h
    · contradiction
    · next none =>
      rw [Pattern.seq.injEq] at h
      exact h ▸ closedAll_of_not_any none
  | _ => simp [rebuild, scopeNode] at h

/-- An alternative is closed once scopes are put into it. -/
theorem closed_scopeAlternative (rule : String) (p : Pattern) :
    (scopeAlternative rule (p.rebuild (scopeNode rule))).Closed := by
  unfold scopeAlternative
  split
  · next hseq =>
    rw [hseq]
    exact closedAll_of_rebuild_eq_seq hseq
  · next hscope =>
    rw [hscope]
    trivial
  · split
    · trivial
    · next hnone => exact closed_of_not_hasLabel (by simpa using hnone)

/-- A choice is closed once scopes are put into it. -/
theorem closed_rebuild_choice (rule : String) (alts : List Pattern) :
    ((choice alts).rebuild (scopeNode rule)).Closed := by
  rw [rebuild, rebuildAll_eq_map, scopeNode]
  refine closedAll_iff.2 fun q hq => ?_
  rw [List.map_map] at hq
  obtain ⟨p, -, rfl⟩ := List.mem_map.1 hq
  exact closed_scopeAlternative rule p

/-- The body of a rule is closed once scopes are put into it. -/
theorem closed_insertScopes (rule : String) (body : Pattern) :
    (body.insertScopes rule).Closed := by
  unfold insertScopes
  split
  · next alts hchoice =>
    cases body with
    | choice ps => exact hchoice ▸ closed_rebuild_choice rule ps
    | seq ps =>
      rw [rebuild, scopeNode] at hchoice
      split at hchoice <;> contradiction
    | _ => simp [rebuild, scopeNode] at hchoice
  · exact closed_scopeAlternative rule body

/-! ## The other passes -/

section Rebuild

variable {f : Pattern → Pattern}

mutual

/-- Rebuilding with a function that keeps patterns closed keeps them so. -/
theorem closed_rebuild (hf : ∀ q : Pattern, q.Closed → (f q).Closed) :
    ∀ p : Pattern, p.Closed → (p.rebuild f).Closed
  | .choice alts, h => hf _ (closedAll_rebuild hf alts h)
  | .seq ps, h => hf _ (closedAll_rebuild hf ps h)
  | .scope _ _, _ => hf _ trivial
  | .leftrec p _, h => hf _ (closed_rebuild hf p h)
  | .memo p _, h => hf _ (closed_rebuild hf p h)
  | .not p, h => hf _ (closed_rebuild hf p h)
  | .opt p, h => hf _ (closed_rebuild hf p h)
  | .star p, h => hf _ (closed_rebuild hf p h)
  | .plus p, h => hf _ (closed_rebuild hf p h)
  | .paren p, h => hf _ (closed_rebuild hf p h)
  | .capture p, h => hf _ (closed_rebuild hf p h)
  | .apply _, _ => hf _ trivial
  | .lit _, _ => hf _ trivial
  | .range _ _, _ => hf _ trivial
  | .pred _, _ => hf _ trivial
  | .eq _, _ => hf _ trivial
  | .action _, _ => hf _ trivial
  | .pos, _ => hf _ trivial
  | .empty, _ => hf _ trivial

theorem closedAll_rebuild (hf : ∀ q : Pattern, q.Closed → (f q).Closed) :
    ∀ ps : List Pattern, ClosedAll ps → ClosedAll (rebuildAll f ps)
  | [], _ => trivial
  | p :: ps, h => ⟨closed_rebuild hf p h.1, closedAll_rebuild hf ps h.2⟩

end

end Rebuild

theorem closed_insertPositional {rule : String} {p : Pattern} (h : p.Closed) :
    (p.insertPositional rule).Closed := by
  refine closed_rebuild (fun q hq => ?_) p h
  unfold positionalNode
  split
  · split
    · trivial
    · exact hq
  · trivial
  · exact hq

theorem closed_simplifyNode {p : Pattern} (h : p.Closed) : (simplifyNode p).Closed := by
  unfold simplifyNode
  split
  · exact h.1
  · exact h.1
  · trivial
  · exact h
  · exact h

theorem closed_simplify {p : Pattern} (h : p.Closed) : p.simplify.Closed :=
  closed_rebuild (fun _ => closed_simplifyNode) p h

end Pattern

namespace Bodies

theorem closed_finishBody {recursive : List String} {rule : String} {body : Pattern}
    (h : body.Closed) : (finishBody recursive rule body).Closed := by
  refine Pattern.closed_simplify (Pattern.closed_insertPositional ?_)
  unfold wrapLeftRecursive
  split <;> exact h

theorem closed_wrapMemo {memoizable : List String} {rule : String} {body : Pattern}
    (h : body.Closed) : (wrapMemo memoizable rule body).Closed := by
  unfold wrapMemo
  split
  · exact h
  · split <;> exact h

/-- The nodes of a body that may have been wrapped for memoization. -/
theorem everywhere_wrapMemo {memoizable : List String} {P : Pattern → Prop} {rule : String}
    {body : Pattern} : (wrapMemo memoizable rule body).Everywhere P ↔
      body.Everywhere P ∧ P (wrapMemo memoizable rule body) := by
  have here : ∀ {p : Pattern}, p.Everywhere P → P p := fun h => (Pattern.everywhere_iff.1 h).1
  unfold wrapMemo
  split
  · exact ⟨fun h => ⟨h, here h⟩, fun h => h.1⟩
  · split
    · rw [Pattern.everywhere_iff]
      simp [Pattern.parts, and_comm]
    · exact ⟨fun h => ⟨h, here h⟩, fun h => h.1⟩

/-- What is so of all nodes of a body, and of the wrapper, is so after wrapping. -/
theorem everywhere_wrapMemo_of {memoizable : List String} {P : Pattern → Prop} {rule : String}
    {body : Pattern} (wrapper : P (.memo body rule)) (h : body.Everywhere P) :
    (wrapMemo memoizable rule body).Everywhere P := by
  refine everywhere_wrapMemo.2 ⟨h, ?_⟩
  have here : P body := (Pattern.everywhere_iff.1 h).1
  unfold wrapMemo
  split
  · exact here
  · split
    · exact wrapper
    · exact here

theorem mem_mapBodies {f : String → Pattern → Pattern} {bodies : Bodies} {b : String × Pattern} :
    b ∈ bodies.mapBodies f ↔ ∃ body, (b.1, body) ∈ bodies ∧ b.2 = f b.1 body := by
  rw [mapBodies, List.mem_map]
  constructor
  · rintro ⟨c, hc, rfl⟩
    exact ⟨c.2, hc, rfl⟩
  · rintro ⟨body, hb, hbody⟩
    exact ⟨(b.1, body), hb, by rw [← hbody]⟩

/-- A change of all bodies shows in the body of every rule. -/
theorem body?_mapBodies (f : String → Pattern → Pattern) (bodies : Bodies) (name : String) :
    (bodies.mapBodies f).body? name = (bodies.body? name).map (f name) := by
  induction bodies with
  | nil => rfl
  | cons b bodies ih =>
    simp only [body?, mapBodies, List.map_cons, List.find?_cons] at ih ⊢
    by_cases hname : b.1 = name
    · simp [hname]
    · have hne : (b.1 == name) = false := by simpa using hname
      rw [hne]
      exact ih

/-- A change of all bodies leaves the rule where matching starts. -/
theorem start_mapBodies (f : String → Pattern → Pattern) (bodies : Bodies)
    (leftAssoc leftAssoc' : List String) :
    Grammar.start ⟨bodies.mapBodies f, leftAssoc⟩ = Grammar.start ⟨bodies, leftAssoc'⟩ := by
  cases bodies <;> rfl

theorem mem_leftRecursive {bodies : Bodies} {rule : String} {body : Pattern}
    (hb : (rule, body) ∈ bodies) (recursive : bodies.isLeftRecursive rule body = true) :
    rule ∈ bodies.leftRecursive :=
  List.mem_map.2 ⟨(rule, body), List.mem_filter.2 ⟨hb, recursive⟩, rfl⟩

end Bodies

namespace RuleSet

/-- What normalization gives, if it succeeds: the rules are valid, those that are to associate to
the left are left-recursive, and the bodies are the finished ones, memoized if that was asked. -/
theorem normalize_eq_ok {rs : RuleSet} {options : NormalizeOptions} {g : Grammar} :
    rs.normalize options = .ok g ↔ rs.validate = .ok () ∧
      (∀ name ∈ options.leftAssoc, name ∈ rs.scopedBodies.leftRecursive) ∧
      g = ⟨if options.memoize then rs.finished.memoize else rs.finished, options.leftAssoc⟩ := by
  unfold normalize
  cases rs.validate with
  | error e => simp [bind, Except.bind]
  | ok u =>
    simp only [bind, Except.bind, true_and]
    cases hfind : options.leftAssoc.find? fun name =>
        !rs.scopedBodies.leftRecursive.contains name with
    | some name =>
      have hname := List.find?_some hfind
      have hmem := List.mem_of_find?_eq_some hfind
      simp only [throw, throwThe, MonadExceptOf.throw, reduceCtorEq, false_iff, not_and]
      intro hall
      simp [hall name hmem] at hname
    | none =>
      have hall : ∀ name ∈ options.leftAssoc, name ∈ rs.scopedBodies.leftRecursive := by
        intro name hn
        simpa using List.find?_eq_none.1 hfind name hn
      simp only [pure, Except.pure, Except.ok.injEq]
      exact ⟨fun h => ⟨hall, h.symm⟩, fun h => h.2.symm⟩

/-- The body of a rule after all passes but memoization is that with scopes after the other passes,
wrapped if the rule is found to be left-recursive. -/
theorem body?_finished {rs : RuleSet} {rule : String} {body : Pattern}
    (found : rs.finished.body? rule = some body) :
    ∃ inScope, rs.scopedBodies.body? rule = some inScope ∧
      body = Bodies.wrapLeftRecursive rs.scopedBodies.leftRecursive rule
        ((inScope.insertPositional rule).simplify) := by
  rw [finished, Bodies.body?_mapBodies, Option.map_eq_some_iff] at found
  obtain ⟨inScope, h, rfl⟩ := found
  refine ⟨inScope, h, ?_⟩
  rw [Bodies.finishBody, Bodies.wrapLeftRecursive, Bodies.wrapLeftRecursive]
  split <;> rfl

/-- The body of a rule in the normalized grammar: wrapped if the rule is found to be left-recursive,
and else what the passes over one body make of it, which may be memoized. -/
theorem body?_of_normalize {rs : RuleSet} {options : NormalizeOptions} {g : Grammar}
    (normalized : rs.normalize options = .ok g) {rule : String}
    {body : Pattern} (found : g.body? rule = some body) :
    (∃ inner, body = .leftrec inner rule) ∨
      ∃ written, rs.scopedBodies.body? rule = some written ∧
        rule ∉ rs.scopedBodies.leftRecursive ∧
          (body = (written.insertPositional rule).simplify ∨
            body = .memo ((written.insertPositional rule).simplify) rule) := by
  obtain ⟨-, -, rfl⟩ := normalize_eq_ok.1 normalized
  have hbody : ∃ finished, rs.finished.body? rule = some finished ∧
      (body = finished ∨ body = Bodies.wrapMemo rs.finished.memoizable rule finished) := by
    change Bodies.body? (if options.memoize then rs.finished.memoize else rs.finished) rule
      = some body at found
    split at found
    · rw [Bodies.memoize, Bodies.body?_mapBodies, Option.map_eq_some_iff] at found
      obtain ⟨finished, h, rfl⟩ := found
      exact ⟨finished, h, .inr rfl⟩
    · exact ⟨body, found, .inl rfl⟩
  obtain ⟨finished, h, hbody⟩ := hbody
  obtain ⟨written, hwritten, rfl⟩ := body?_finished h
  by_cases hmem : rs.scopedBodies.leftRecursive.contains rule = true
  · rw [Bodies.wrapLeftRecursive, if_pos hmem] at hbody
    exact .inl ⟨_, hbody.elim id id⟩
  · refine .inr ⟨written, hwritten, mt List.contains_iff_mem.2 hmem, ?_⟩
    rw [Bodies.wrapLeftRecursive, if_neg hmem] at hbody
    rcases hbody with hbody | hbody
    · exact .inl hbody
    · unfold Bodies.wrapMemo at hbody
      split at hbody
      · exact .inl hbody
      · split at hbody
        · exact .inr hbody
        · exact .inl hbody

/-- Every finished body is that of a rule as it was written. -/
theorem rule_of_finished {rs : RuleSet} {b : String × Pattern} (hb : b ∈ rs.finished) :
    ∃ r ∈ rs.rules, r.name = b.1 ∧ b.2 = Bodies.finishBody rs.scopedBodies.leftRecursive r.name
      (r.body.insertScopes r.name) := by
  obtain ⟨inner, hinner, hbody⟩ := Bodies.mem_mapBodies.1 hb
  obtain ⟨written, hwritten, hscopes⟩ := Bodies.mem_mapBodies.1 hinner
  obtain ⟨r, hr, hrule⟩ := List.mem_map.1 hwritten
  obtain ⟨hname, rfl⟩ := Prod.mk.inj hrule
  rw [show inner = _ from hscopes, ← show r.name = b.1 from hname] at hbody
  exact ⟨r, hr, hname, hbody⟩

/-- What is so of the finished body of every rule, and stays so when a body is wrapped for
memoization, is so of every body of the normalized grammar. -/
theorem forall_mem_of_normalize {rs : RuleSet} {options : NormalizeOptions} {g : Grammar}
    {P : String → Pattern → Prop} (normalized : rs.normalize options = .ok g)
    (finish : ∀ r ∈ rs.rules, P r.name (Bodies.finishBody rs.scopedBodies.leftRecursive r.name
      (r.body.insertScopes r.name)))
    (wrap : ∀ memoizable rule body, P rule body → P rule (Bodies.wrapMemo memoizable rule body)) :
    ∀ b ∈ g.bodies, P b.1 b.2 := by
  have finished : ∀ b ∈ rs.finished, P b.1 b.2 := by
    intro b hb
    obtain ⟨r, hr, hname, hbody⟩ := rule_of_finished hb
    rw [hbody, ← hname]
    exact finish r hr
  obtain ⟨-, -, rfl⟩ := normalize_eq_ok.1 normalized
  cases options.memoize with
  | false => exact finished
  | true =>
    intro b hb
    obtain ⟨body, hbody, hb⟩ := Bodies.mem_mapBodies.1 hb
    rw [hb]
    exact wrap _ _ _ (finished _ hbody)

/-- In a normalized grammar every label is in a scope of the rule where it stands. -/
theorem closed_of_normalize {rs : RuleSet} {options : NormalizeOptions} {g : Grammar}
    (h : rs.normalize options = .ok g) : ∀ b ∈ g.bodies, b.2.Closed :=
  forall_mem_of_normalize (P := fun _ body => body.Closed) h
    (fun _ _ => Bodies.closed_finishBody (Pattern.closed_insertScopes _ _))
    fun _ _ _ => Bodies.closed_wrapMemo

end RuleSet

end Pegboard
