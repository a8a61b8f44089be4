import Mathlib.Data.List.Permutation
import Pegboard.Proofs.Normalize.Source

/-!
# Printing again

The text of a grammar is parsed and normalized to a grammar that has the same text, if no expression
in the grammar runs on into the term that follows it.  What is read back of a body has the skeleton of
the body, the passes leave the skeleton, and printing shows no more than the skeleton and how a body
is divided into alternatives.

## Main Definitions

* `Pattern.again`: a body after it was printed, read back and normalized.

## Main Results

* `Pattern.skeleton_again`, `Pattern.alternatives_again`: what is printed of it is the same.
* `pretty_idempotent`: the text of a guarded grammar is the text of what it is read back as.
-/

namespace Pegboard

namespace Pattern

/-! ## A body after it was read back -/

/-- A body after it was printed, read back and normalized. -/
def again (recursive : List String) (rule : String) (body : Pattern) : Pattern :=
  Bodies.finishBody recursive rule (body.rereadBody.insertScopes rule)

/-- No label is put in again. -/
theorem again_eq (recursive : List String) (rule : String) {body : Pattern} (h : body.Settled) :
    body.again recursive rule
      = (Bodies.wrapLeftRecursive recursive rule (body.rereadBody.insertScopes rule)).simplify := by
  have settled : (Bodies.wrapLeftRecursive recursive rule
      (body.rereadBody.insertScopes rule)).Settled :=
    Bodies.everywhere_wrapLeftRecursive (settledNode_of_none rfl)
      (settled_insertScopes (settled_rereadBody h))
  rw [again, Bodies.finishBody, insertPositional_of_settled settled]

/-- Normalizing what is read back gives the skeleton that was there. -/
theorem skeleton_again (recursive : List String) (rule : String) {body : Pattern}
    (h : body.Settled) : (body.again recursive rule).skeleton = body.skeleton := by
  rw [again_eq recursive rule h, skeleton_simplify, skeleton_wrapLeftRecursive,
    skeleton_insertScopes, skeleton_rereadBody]

/-! ## Alternatives -/

/-- What becomes of an alternative when scopes are put in. -/
def scopedAlternative (rule : String) (p : Pattern) : Pattern :=
  scopeAlternative rule (p.rebuild (scopeNode rule))

theorem insertScopes_choice (rule : String) (alts : List Pattern) :
    (choice alts).insertScopes rule = choice (alts.map (scopedAlternative rule)) := by
  have rebuilt : (choice alts).rebuild (scopeNode rule)
      = choice (alts.map (scopedAlternative rule)) := by
    rw [rebuild, rebuildAll_eq_map, scopeNode, List.map_map]
    rfl
  rw [insertScopes, rebuilt]

theorem skeleton_scopedAlternative (rule : String) (p : Pattern) :
    (scopedAlternative rule p).skeleton = p.skeleton := by
  rw [scopedAlternative, skeleton_scopeAlternative]
  exact rebuild_absorb (skeleton_scopeNode rule) p

theorem unwrapped_simplify_wrapLeftRecursive (recursive : List String) (rule : String)
    (p : Pattern) : (Bodies.wrapLeftRecursive recursive rule p).simplify.unwrapped
      = p.simplify.unwrapped := by
  unfold Bodies.wrapLeftRecursive
  split <;> rfl

theorem unwrapped_again (recursive : List String) (rule : String) {body : Pattern}
    (h : body.Settled) : (body.again recursive rule).unwrapped
      = (choice ((body.alternatives.map rereadAlternative).map
          (scopedAlternative rule))).simplify.unwrapped := by
  rw [again_eq recursive rule h, unwrapped_simplify_wrapLeftRecursive, rereadBody,
    insertScopes_choice]

theorem alternatives_of_choice {p : Pattern} {alts : List Pattern} (h : p.unwrapped = choice alts) :
    p.alternatives = alts := by
  rw [alternatives, h]

theorem alternatives_of_ne {p : Pattern} (h : ∀ alts, p.unwrapped ≠ choice alts) :
    p.alternatives = [p.unwrapped] := by
  unfold alternatives
  split
  · next alts hchoice => exact absurd hchoice (h alts)
  · rfl

/-- No wrapper is left when a pattern is unwrapped. -/
theorem unwrapped_ne (p : Pattern) :
    (∀ q rule, p.unwrapped ≠ leftrec q rule) ∧ ∀ q rule, p.unwrapped ≠ memo q rule := by
  fun_induction unwrapped p with
  | case1 p _ ih => exact ih
  | case2 p _ ih => exact ih
  | case3 p hleftrec hmemo => exact ⟨hleftrec, hmemo⟩

theorem unwrapped_unwrapped (p : Pattern) : p.unwrapped.unwrapped = p.unwrapped := by
  fun_induction unwrapped p with
  | case1 p _ ih => exact ih
  | case2 p _ ih => exact ih
  | case3 p hleftrec hmemo => rw [unwrapped.eq_def]; split <;> simp_all

theorem core_of_level_seq {p : Pattern} (h : p.level = .seq) : ∃ ps, p.core = seq ps := by
  induction p using induction_parts with
  | node p ih =>
    cases hsingle : p.printsAs? with
    | some q =>
      obtain ⟨hmem, hlevel, -⟩ := of_printsAs? hsingle
      rw [(core_of_printsAs? hsingle).1]
      exact ih q hmem (hlevel ▸ h)
    | none =>
      cases p with
      | choice alts => rcases alts with _ | ⟨q, _ | ⟨r, rest⟩⟩ <;> contradiction
      | seq ps =>
        rcases ps with _ | ⟨q, _ | ⟨r, rest⟩⟩
        · contradiction
        · contradiction
        · exact ⟨_, rfl⟩
      | scope rule ps =>
        rcases ps with _ | ⟨q, _ | ⟨r, rest⟩⟩
        · contradiction
        · contradiction
        · exact ⟨_, rfl⟩
      | _ => contradiction

/-- An alternative is read back as a sequence. -/
theorem reread_seq (p : Pattern) : ∃ ps, p.reread .seq = seq ps := by
  unfold reread
  cases h : p.level with
  | choice => exact ⟨_, rfl⟩
  | seq => exact core_of_level_seq h
  | term | postfixed | prim => exact ⟨_, rfl⟩

/-- A sequence with a label becomes a scope, and stays one. -/
theorem simplify_scopedAlternative_seq (rule : String) {ps : List Pattern}
    (label : (seq ps).hasLabel = true) :
    ∃ qs, (scopedAlternative rule (seq ps)).simplify = scope rule qs := by
  have any : (ps.map (rebuild (scopeNode rule))).any hasLabel = true := by
    have keep : (seq (ps.map (rebuild (scopeNode rule)))).skeleton = (seq ps).skeleton := by
      refine skeleton_seq_congr ?_
      rw [List.map_map]
      exact List.map_congr_left fun q _ => rebuild_absorb (skeleton_scopeNode rule) q
    have inside : (seq (ps.map (rebuild (scopeNode rule)))).hasLabel = true := by
      rw [← hasLabel_skeleton, keep, hasLabel_skeleton, label]
    exact any_hasLabel_iff.2 ((hasLabel_iff_parts.1 inside).resolve_left (by simp))
  have hscope : scopedAlternative rule (seq ps)
      = scope rule (ps.map (rebuild (scopeNode rule))) := by
    rw [scopedAlternative, rebuild, rebuildAll_eq_map, scopeNode, if_pos any]
    rfl
  rw [hscope, simplify, rebuild]
  exact ⟨_, rfl⟩

/-- What has the skeleton of a choice, and is none, has a label. -/
theorem hasLabel_of_skeleton_choice {p : Pattern} (printable : p.Printable)
    (hleftrec : ∀ q rule, p ≠ leftrec q rule) (hmemo : ∀ q rule, p ≠ memo q rule)
    (hchoice : ∀ alts, p ≠ choice alts) {alts : List Pattern}
    (h : p.skeleton = choice alts) : p.hasLabel = true := by
  have simple := ((everywhere_iff.1 printable).1).2
  cases p with
  | choice alts => exact absurd rfl (hchoice alts)
  | leftrec q rule => exact absurd rfl (hleftrec q rule)
  | memo q rule => exact absurd rfl (hmemo q rule)
  | scope rule ps => exact hasLabel_iff_parts.2 (.inr (any_hasLabel_iff.1 simple))
  | seq ps =>
    rcases ps with _ | ⟨q, _ | ⟨r, rest⟩⟩
    · exact absurd simple (by simp [SimpleNode])
    · exact absurd simple (by simp [SimpleNode])
    · rw [skeleton_eq] at h
      contradiction
  | paren q => exact simple.elim
  | _ =>
    rw [skeleton_eq] at h
    contradiction

theorem skeleton_choice {alts : List Pattern} (h : 2 ≤ alts.length) :
    (choice alts).skeleton = choice (alts.map skeleton) := by
  rcases alts with _ | ⟨q, _ | ⟨r, rest⟩⟩
  · contradiction
  · contradiction
  · exact skeleton_eq _

/-- A body is divided into the same alternatives again. -/
theorem alternatives_again (recursive : List String) (rule : String) {body : Pattern}
    (settled : body.Settled) (printable : body.Printable)
    (printable' : (body.again recursive rule).Printable) :
    (body.again recursive rule).alternatives.map skeleton = body.alternatives.map skeleton := by
  have inside := everywhere_unwrapped printable
  have inside' := everywhere_unwrapped printable'
  have unwrapped := unwrapped_again recursive rule settled
  by_cases several : ∃ alts, body.unwrapped = choice alts
  · obtain ⟨alts, hchoice⟩ := several
    rw [hchoice] at inside
    have two : 2 ≤ alts.length := ((everywhere_iff.1 inside).1).2
    have simplified : ∀ qs : List Pattern, 2 ≤ qs.length →
        (choice qs).simplify = choice (qs.map simplify) := by
      intro qs hqs
      rcases qs with _ | ⟨q, _ | ⟨r, rest⟩⟩
      · contradiction
      · contradiction
      · rw [simplify, rebuild, rebuildAll_eq_map]
        rfl
    rw [alternatives_of_choice hchoice, simplified _ (by simpa using two)] at unwrapped
    rw [alternatives_of_choice unwrapped, alternatives_of_choice hchoice, List.map_map,
      List.map_map, List.map_map]
    refine List.map_congr_left fun p _ => ?_
    show (scopedAlternative rule p.rereadAlternative).simplify.skeleton = p.skeleton
    rw [skeleton_simplify, skeleton_scopedAlternative, skeleton_rereadAlternative]
  · have single : ∀ alts, body.unwrapped ≠ choice alts := fun alts h => several ⟨alts, h⟩
    have skeletons : (body.again recursive rule).unwrapped.skeleton = body.unwrapped.skeleton := by
      rw [skeleton_unwrapped, skeleton_unwrapped, skeleton_again recursive rule settled]
    have single' : ∀ alts, (body.again recursive rule).unwrapped ≠ choice alts := by
      -- What prints as a choice without being one is a scope, and a scope it stays.
      intro alts hchoice
      rw [hchoice] at inside' skeletons
      rw [skeleton_choice ((everywhere_iff.1 inside').1).2] at skeletons
      have label : body.unwrapped.hasLabel = true := hasLabel_of_skeleton_choice inside
        (unwrapped_ne body).1 (unwrapped_ne body).2 single skeletons.symm
      obtain ⟨ps, hps⟩ := reread_seq body.unwrapped
      have hreread : body.unwrapped.rereadAlternative = seq ps := by
        have some : body.unwrapped.unwrapped ≠ empty := by
          rw [unwrapped_unwrapped]
          intro hempty
          rw [hempty] at label
          contradiction
        rw [rereadAlternative_of_ne some, unwrapped_unwrapped, hps]
      have label' : (seq ps).hasLabel = true := by
        rw [← hps, ← hasLabel_skeleton, skeleton_reread, hasLabel_skeleton, label]
      obtain ⟨qs, hqs⟩ := simplify_scopedAlternative_seq rule label'
      rw [alternatives_of_ne single, List.map_singleton, List.map_singleton, hreread] at unwrapped
      have hscope : (choice [scopedAlternative rule (seq ps)]).simplify = scope rule qs := hqs
      rw [hscope, hchoice] at unwrapped
      contradiction
    rw [alternatives_of_ne single, alternatives_of_ne single', List.map_singleton,
      List.map_singleton, skeletons]

/-! ## Lines -/

/-- Only the empty pattern has the skeleton of it. -/
theorem eq_empty_of_skeleton {p : Pattern} (printable : p.Printable)
    (hleftrec : ∀ q rule, p ≠ leftrec q rule) (hmemo : ∀ q rule, p ≠ memo q rule)
    (h : p.skeleton = empty) : p = empty := by
  have simple := ((everywhere_iff.1 printable).1).2
  cases p with
  | empty => rfl
  | leftrec q rule => exact absurd rfl (hleftrec q rule)
  | memo q rule => exact absurd rfl (hmemo q rule)
  | scope rule ps =>
    have label : (scope rule ps).hasLabel = true :=
      hasLabel_iff_parts.2 (.inr (any_hasLabel_iff.1 simple))
    rw [← hasLabel_skeleton, h] at label
    contradiction
  | choice alts =>
    rw [skeleton_choice simple] at h
    contradiction
  | seq ps =>
    rcases ps with _ | ⟨q, _ | ⟨r, rest⟩⟩
    · exact absurd simple (by simp [SimpleNode])
    · exact absurd simple (by simp [SimpleNode])
    · rw [skeleton_eq] at h
      contradiction
  | paren q => exact simple.elim
  | _ =>
    rw [skeleton_eq] at h
    contradiction

theorem layoutAlternative_congr {p q : Pattern} (hp : p.Printable) (hq : q.Printable)
    (h : p.skeleton = q.skeleton) : p.layoutAlternative = q.layoutAlternative := by
  have hp' := everywhere_unwrapped hp
  have hq' := everywhere_unwrapped hq
  have same : p.unwrapped.skeleton = q.unwrapped.skeleton := by
    rw [skeleton_unwrapped, skeleton_unwrapped, h]
  have empty_iff : p.unwrapped = empty ↔ q.unwrapped = empty := by
    constructor
    · intro hempty
      rw [hempty] at same
      exact eq_empty_of_skeleton hq' (unwrapped_ne q).1 (unwrapped_ne q).2 same.symm
    · intro hempty
      rw [hempty] at same
      exact eq_empty_of_skeleton hp' (unwrapped_ne p).1 (unwrapped_ne p).2 same
  by_cases hempty : p.unwrapped = empty
  · rw [layoutAlternative, layoutAlternative, hempty, empty_iff.1 hempty]
  · rw [layoutAlternative_of_ne hempty, layoutAlternative_of_ne (mt empty_iff.2 hempty),
      (printedAlike_of_skeleton_eq hp' hq' same).layout]

/-- A body that is divided into alternatives with the same skeletons has the same lines. -/
theorem ruleLines_congr (name : String) {p q : Pattern} (hp : p.Printable) (hq : q.Printable)
    (h : p.alternatives.map skeleton = q.alternatives.map skeleton) :
    ruleLines name p = ruleLines name q := by
  have rows : ∀ {ps qs : List Pattern}, (∀ r ∈ ps, r.Printable) → (∀ r ∈ qs, r.Printable) →
      ps.map skeleton = qs.map skeleton →
        ps.map layoutAlternative = qs.map layoutAlternative := by
    intro ps
    induction ps with
    | nil =>
      intro qs _ _ h
      rw [List.map_eq_nil_iff.1 h.symm]
    | cons r ps ih =>
      intro qs hps hqs h
      cases qs with
      | nil => contradiction
      | cons r' qs =>
        obtain ⟨hr, h⟩ := List.cons.inj h
        rw [List.map_cons, List.map_cons, layoutAlternative_congr (hps r (.head _))
          (hqs r' (.head _)) hr, ih (fun s hs => hps s (.tail _ hs))
          (fun s hs => hqs s (.tail _ hs)) h]
  rw [ruleLines, ruleLines,
    rows (everywhere_alternatives hp) (everywhere_alternatives hq) h]

end Pattern

/-- The bodies of rules that were printed, read back and normalized. -/
theorem RuleSet.finished_of_reread {rs : RuleSet} {bodies : Bodies}
    (definitions : rs.definitions = bodies.map fun b => (b.1, b.2.rereadBody)) :
    rs.finished = bodies.mapBodies fun rule body =>
      body.again rs.scopedBodies.leftRecursive rule := by
  show (Bodies.mapBodies _ (Bodies.mapBodies _ rs.definitions)) = _
  rw [definitions]
  simp only [Bodies.mapBodies, List.map_map]
  rfl

/-- The text of a guarded grammar is parsed, with every body read back, and what is parsed is
normalized. -/
theorem exists_reread {text : String} {rs : RuleSet} {options : NormalizeOptions} {g : Grammar}
    (parsed : parseGrammar text = .ok rs) (normalized : rs.normalize options = .ok g)
    (guarded : ∀ b ∈ g.bodies, b.2.Everywhere Pattern.GuardedNode) :
    ∃ rs', parseGrammar g.pretty = .ok rs' ∧
      rs'.definitions = g.bodies.map (fun b => (b.1, b.2.rereadBody)) ∧
      rs'.normalize .default = .ok ⟨rs'.finished, []⟩ := by
  have printable := printable_of_normalize (authored_of_parseGrammar parsed) normalized
  have legible : ∀ b ∈ g.bodies, LegibleRule b := fun b hb =>
    ⟨(printable b hb).1, fun q hq => ((printable b hb).2 q hq).1,
      fun q hq => ((printable b hb).2 q hq).2.filled, guarded b hb⟩
  obtain ⟨rs', hparse, definitions⟩ := parseGrammar_pretty legible
  have applied : ∀ p : Pattern, p.rereadBody.applied = p.applied := fun p => by
    rw [← Pattern.applied_skeleton, Pattern.skeleton_rereadBody, Pattern.applied_skeleton]
  exact ⟨rs', hparse, definitions, RuleSet.normalize_eq_ok.2
    ⟨RuleSet.validate_of_applied normalized applied definitions, nofun, rfl⟩⟩

/-- The text of a grammar that was normalized from text, and in which no expression runs on into the
term that follows it, is parsed and normalized to a grammar with that same text. -/
theorem pretty_idempotent {text : String} {rs : RuleSet} {options : NormalizeOptions} {g : Grammar}
    (parsed : parseGrammar text = .ok rs) (normalized : rs.normalize options = .ok g)
    (guarded : ∀ b ∈ g.bodies, b.2.Everywhere Pattern.GuardedNode) :
    ∃ rs' g', parseGrammar g.pretty = .ok rs' ∧ rs'.normalize .default = .ok g' ∧
      g'.pretty = g.pretty := by
  have printable := printable_of_normalize (authored_of_parseGrammar parsed) normalized
  obtain ⟨rs', hparse, definitions, normalized'⟩ := exists_reread parsed normalized guarded
  have printable' := printable_of_normalize (authored_of_parseGrammar hparse) normalized'
  refine ⟨rs', ⟨rs'.finished, []⟩, hparse, normalized', ?_⟩
  let recursive := rs'.scopedBodies.leftRecursive
  have finished : rs'.finished = g.bodies.map fun b => (b.1, b.2.again recursive b.1) :=
    RuleSet.finished_of_reread definitions
  have rules : ∀ b ∈ g.bodies, prettyRule b.1 (b.2.again recursive b.1) = prettyRule b.1 b.2 := by
    intro b hb
    obtain ⟨r, -, -, settled, -⟩ := RuleSet.rule_of_mem normalized hb
    have mem : (b.1, b.2.again recursive b.1) ∈ rs'.finished := by
      rw [finished]
      exact List.mem_map.2 ⟨b, hb, rfl⟩
    have again : (b.2.again recursive b.1).Printable := (printable' _ mem).2
    rw [prettyRule, prettyRule, Pattern.ruleLines_congr b.1 again (printable b hb).2
      (Pattern.alternatives_again recursive b.1 settled (printable b hb).2 again)]
  show Bodies.pretty rs'.finished = Bodies.pretty g.bodies
  rw [Bodies.pretty, Bodies.pretty, finished, List.map_map]
  exact congrArg String.join (List.map_congr_left rules)

/-! ## A text that is printed again -/

/-- A text with a label, an action and groups. -/
def groupsText : String := "a = b:v -> v | (~b 'x') ('y' | 'z')\nb = ('w')*\n"

/-- The rules of that text. -/
def groupsRules : RuleSet :=
  ⟨[⟨"a", .choice [.seq [.label (.apply "b") "v", .action (.var "v")],
      .seq [.paren (.choice [.seq [.not (.apply "b"), .lit "x"]]),
        .paren (.choice [.seq [.lit "y"], .seq [.lit "z"]])]], ⟨0, 1⟩⟩,
    ⟨"b", .choice [.seq [.star (.paren (.choice [.seq [.lit "w"]]))]], ⟨36, 37⟩⟩]⟩

/-- The grammar of that text. -/
def groupsGrammar : Grammar :=
  ⟨[("a", .choice [.scope "a" [.label (.apply "b") "v", .action (.var "v")],
      .seq [.seq [.not (.apply "b"), .lit "x"], .choice [.lit "y", .lit "z"]]]),
    ("b", .star (.lit "w"))], []⟩

theorem groupsText_parse : parseGrammar groupsText = .ok groupsRules := by cbv

theorem groupsRules_normalize : groupsRules.normalize .default = .ok groupsGrammar := by cbv

theorem groupsGrammar_guarded :
    ∀ b ∈ groupsGrammar.bodies, b.2.Everywhere Pattern.GuardedNode := by
  have last : (Pattern.joinTerms []).startsWithParen = false := rfl
  simp [groupsGrammar, Pattern.Everywhere, Pattern.nodes, Pattern.nodesAll, Pattern.GuardedNode,
    Pattern.terms?, Pattern.GuardedTerms, Pattern.openEnded, Pattern.layoutTerms, last]

theorem pretty_idempotent_groups : ∃ rs' g', parseGrammar groupsGrammar.pretty = .ok rs' ∧
    rs'.normalize .default = .ok g' ∧ g'.pretty = groupsGrammar.pretty :=
  pretty_idempotent groupsText_parse groupsRules_normalize groupsGrammar_guarded

/-- The grammar of `a = ~(-> x) ('y' | 'z')`, whose lookahead is open at its end. -/
def runOnGrammar : Grammar :=
  ⟨[("a", .seq [.not (.action (.var "x")), .choice [.lit "y", .lit "z"]])], []⟩

/-- The lookahead is printed without the parentheses that its action has.  So the choice becomes the
arguments of a call, and the bar is unexpected. -/
example : ∃ e, parseGrammar runOnGrammar.pretty = .error e := by
  exists .unclosedDelimiter .closeParen ⟨.symbol .openParen, ⟨10, 11⟩⟩ ⟨.symbol .pipe, ⟨15, 16⟩⟩
  cbv

end Pegboard
