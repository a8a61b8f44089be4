import Mathlib.Data.List.Permutation
import Pegboard.Proofs.Normalize.Memoizable
import Pegboard.Proofs.Normalize.Printable
import Pegboard.Proofs.Normalize.Source

/-!
# Normal form

What normalization gives has one form, whatever it is given: rules that were written, or patterns of
any shape in interchange form.  Each pass may undo what an earlier one did, for a positional label
makes a scope of a sequence, and wrappers come last; the form is that of the bodies in the end.

## Main Definitions

* `Pattern.ReducedNode`: a node that simplification leaves as it is.
* `Pattern.NormalForm`: a body in normal form.

## Main Results

* `Pattern.reduced_simplify`: simplification reduces every pattern.
* `Pattern.leads_of_finish`: a body that turns out to be a left-recursive one leads into its rule.
* `RuleSet.normalForm_of_normalize`: the rules of a normalized grammar are those that were given,
  and their bodies are in normal form.
-/

namespace Pegboard

namespace Pattern

/-- A node that says no less with its group than without: there are no parentheses, no choice of a
single alternative, and no sequence of fewer than two terms. -/
def ReducedNode : Pattern → Prop
  | .choice alts => alts.length ≠ 1
  | .seq ps => 2 ≤ ps.length
  | .paren _ => False
  | _ => True

/-- Whether a pattern is a left-recursive body, or one inside wrappers for memoization. -/
def IsLeftrec : Pattern → Prop
  | .leftrec _ _ => True
  | .memo p _ => IsLeftrec p
  | _ => False

/-- A body in normal form, in a grammar of rules with the names `names`. -/
structure NormalForm (names : List String) (body : Pattern) : Prop where
  /-- No group means no more than what is inside it. -/
  reduced : body.Everywhere ReducedNode
  /-- What is applied is a rule of the grammar or a builtin rule. -/
  resolved : ∀ name, .apply name ∈ body.nodes → name ∈ names ∨ BuiltinRule.isName name = true
  /-- Every label is below a scope. -/
  closed : body.Closed
  /-- The body is no left-recursive one in a wrapper for memoization. -/
  unwrapped : ∀ inner owner rule, body ≠ .memo (.leftrec inner owner) rule

/-! ## Simplification -/

/-- Simplification reduces every pattern. -/
theorem reduced_simplify (p : Pattern) : p.simplify.Everywhere ReducedNode := by
  refine everywhere_of_rebuild (P := fun _ => True) (fun q _ parts => ?_) fun _ _ => trivial
  cases q with
  | choice alts =>
    rcases alts with _ | ⟨q, _ | ⟨r, rest⟩⟩
    · exact everywhere_iff.2 ⟨Nat.zero_ne_one, parts⟩
    · exact parts _ (.head _)
    · exact everywhere_iff.2 ⟨by simp [ReducedNode, mapParts, simplifyNode], parts⟩
  | seq ps =>
    rcases ps with _ | ⟨q, _ | ⟨r, rest⟩⟩
    · exact everywhere_iff.2 ⟨trivial, parts⟩
    · exact parts _ (.head _)
    · exact everywhere_iff.2 ⟨by simp [ReducedNode, mapParts, simplifyNode], parts⟩
  | paren q => exact parts _ (.head _)
  | _ => exact everywhere_iff.2 ⟨trivial, parts⟩

/-! ## Left-recursive bodies -/

/-- What is a left-recursive body after the passes over it leads into its rule before: only groups
of one part and wrappers for memoization can have been around it. -/
theorem leads_of_finish {enter : String → Leads} {rule : String} {p : Pattern}
    (h : (p.insertPositional rule).simplify.IsLeftrec) : p.leads enter = .yes := by
  induction p using induction_parts with
  | node p ih =>
    cases p with
    | choice alts =>
      rcases alts with _ | ⟨q, _ | ⟨r, rest⟩⟩
      · exact h.elim
      · have yes : q.leads enter = .yes := ih q (.head _) h
        simp [leads, leadsAny, yes]
      · exact h.elim
    | seq ps =>
      rw [insertPositional, rebuild, positionalNode] at h
      split at h
      · exact h.elim
      · rcases ps with _ | ⟨q, _ | ⟨r, rest⟩⟩
        · exact h.elim
        · have yes : q.leads enter = .yes := ih q (.head _) h
          simp [leads, leadsFirst, yes]
        · exact h.elim
    | memo q owner => exact ih q (.head _) h
    | paren q => exact ih q (.head _) h
    | leftrec => rfl
    | _ => exact h.elim

end Pattern

namespace Bodies

/-- A rule of a list of bodies has a body. -/
theorem exists_body?_of_mem {bodies : Bodies} {name : String} (h : name ∈ bodies.map (·.1)) :
    ∃ body, bodies.body? name = some body := by
  obtain ⟨b, hb, rfl⟩ := List.mem_map.1 h
  refine Option.isSome_iff_exists.1 ?_
  rw [body?, Option.isSome_map, List.find?_isSome]
  exact ⟨b, hb, beq_self_eq_true _⟩

end Bodies

namespace RuleSet

variable {rs : RuleSet} {options : NormalizeOptions} {g : Grammar}

/-- No left-recursive body is wrapped for memoization, not even one that was given as the body of a
rule that is not left-recursive otherwise. -/
theorem unwrapped_of_normalize (normalized : rs.normalize options = .ok g) :
    ∀ b ∈ g.bodies, ∀ inner owner rule, b.2 ≠ .memo (.leftrec inner owner) rule := by
  refine forall_mem_of_normalize (P := fun _ body => ∀ inner owner rule,
    body ≠ .memo (.leftrec inner owner) rule) normalized (fun r hr inner owner rule heq => ?_) ?_
  · rw [Bodies.finishBody, Bodies.wrapLeftRecursive] at heq
    split at heq
    · contradiction
    · next plain =>
      have mem : (r.name, r.body.insertScopes r.name) ∈ rs.scopedBodies :=
        Bodies.mem_mapBodies.2 ⟨r.body, List.mem_map.2 ⟨r, hr, rfl⟩, rfl⟩
      have leftrec : ((r.body.insertScopes r.name).insertPositional r.name).simplify.IsLeftrec := by
        rw [heq]
        trivial
      refine plain (List.contains_iff_mem.2 (Bodies.mem_leftRecursive mem ?_))
      rw [Bodies.isLeftRecursive, decide_eq_true_iff, Bodies.leads]
      exact Pattern.leads_of_finish leftrec
  · intro memoizable rule body unwrapped inner owner rule' heq
    unfold Bodies.wrapMemo at heq
    split at heq
    · contradiction
    · next other =>
      split at heq
      · exact other inner owner (Pattern.memo.inj heq).1
      · exact unwrapped inner owner rule' heq

/-- A rule that is to associate to the left has a left-recursive body. -/
theorem leftrec_of_leftAssoc (normalized : rs.normalize options = .ok g) {name : String}
    (assoc : name ∈ options.leftAssoc) : ∃ inner, g.body? name = some (.leftrec inner name) := by
  obtain ⟨-, recursive, rfl⟩ := normalize_eq_ok.1 normalized
  obtain ⟨b, hb, rfl⟩ := List.mem_map.1 (recursive name assoc)
  have named : b.1 ∈ rs.names := by
    obtain ⟨written, hwritten, -⟩ := Bodies.mem_mapBodies.1 (List.mem_filter.1 hb).1
    obtain ⟨r, hr, hrule⟩ := List.mem_map.1 hwritten
    exact List.mem_map.2 ⟨r, hr, congrArg Prod.fst hrule⟩
  rw [← names_of_normalize normalized] at named
  obtain ⟨body, found⟩ := Bodies.exists_body?_of_mem named
  obtain ⟨inner, rfl⟩ := wrapped_of_leftAssoc normalized (List.contains_iff_mem.2 assoc) found
  exact ⟨inner, found⟩

/-- Memoization keeps the left-recursive bodies of the grammar that there is without it. -/
theorem leftrec_of_memoize (normalized : rs.normalize options = .ok g)
    (memoized : options.memoize = true) :
    ∃ plain, rs.normalize ⟨false, options.leftAssoc⟩ = .ok plain ∧
      ∀ name inner owner, plain.body? name = some (.leftrec inner owner) →
        g.body? name = some (.leftrec inner owner) := by
  obtain ⟨valid, recursive, hg⟩ := normalize_eq_ok.1 normalized
  have plain : rs.normalize ⟨false, options.leftAssoc⟩ = .ok ⟨rs.finished, options.leftAssoc⟩ :=
    normalize_eq_ok.2 ⟨valid, recursive, rfl⟩
  have memoize : g = Grammar.memoize ⟨rs.finished, options.leftAssoc⟩ := by
    rw [hg, memoized]
    rfl
  refine ⟨_, plain, fun name inner owner found => ?_⟩
  rw [memoize]
  rcases Grammar.body?_memoize found with ⟨kept, -⟩ | same
  · exact absurd found (kept.2 inner owner)
  · exact same

/-- The bodies of a normalized grammar are in normal form. -/
theorem normalForm_of_mem (normalized : rs.normalize options = .ok g) {b : String × Pattern}
    (hb : b ∈ g.bodies) : b.2.NormalForm rs.names where
  reduced := forall_mem_of_normalize (P := fun _ body => body.Everywhere Pattern.ReducedNode)
    normalized (fun _ _ => Pattern.reduced_simplify _)
    (fun _ _ _ => Bodies.everywhere_wrapMemo_of trivial) b hb
  resolved name hname := by
    obtain ⟨r, hr, -, -, applied⟩ := rule_of_mem normalized hb
    have mentioned : name ∈ b.2.applied := Pattern.mem_applied_iff.2 hname
    rw [applied] at mentioned
    exact (validate_eq_ok.1 (normalize_eq_ok.1 normalized).1).2.2 r hr name mentioned
  closed := closed_of_normalize normalized b hb
  unwrapped := unwrapped_of_normalize normalized b hb

/-- A normalized grammar has the rules that were given, in their order, and their bodies are in
normal form.  The bodies of those that are to associate to the left are left-recursive, and memoization
leaves left-recursive bodies as they are without it. -/
theorem normalForm_of_normalize (normalized : rs.normalize options = .ok g) :
    g.bodies.map (·.1) = rs.names ∧
      (∀ b ∈ g.bodies, b.2.NormalForm (g.bodies.map (·.1))) ∧
      (∀ name ∈ options.leftAssoc, ∃ inner, g.body? name = some (.leftrec inner name)) ∧
      (options.memoize = true → ∃ plain, rs.normalize ⟨false, options.leftAssoc⟩ = .ok plain ∧
        ∀ name inner owner, plain.body? name = some (.leftrec inner owner) →
          g.body? name = some (.leftrec inner owner)) := by
  have names := names_of_normalize normalized
  refine ⟨names, ?_, fun _ => leftrec_of_leftAssoc normalized, leftrec_of_memoize normalized⟩
  rw [names]
  exact fun _ => normalForm_of_mem normalized

end RuleSet

/-- Rules in interchange form, with a group of one part in each, and a label below a sign of
repetition. -/
def looseRules : RuleSet :=
  .ofDefinitions [
    ("e", .choice [.seq [.apply "e", .lit "+", .apply "n"], .paren (.choice [.apply "n"])]),
    ("n", .seq [.opt (.label (.lit "-") "sign"), .paren (.seq [.apply "digit"])])]

/-- The grammar of these rules, memoized. -/
def looseGrammar : Grammar :=
  ⟨[("e", .leftrec (.choice [.seq [.apply "e", .lit "+", .apply "n"], .apply "n"]) "e"),
    ("n", .memo (.scope "n" [.opt (.label (.lit "-") "sign"), .apply "digit"]) "n")], ["e"]⟩

/-- The bodies of this grammar are in normal form, and that of `e` is left-recursive. -/
theorem normalForm_of_normalize_loose :
    looseRules.normalize ⟨true, ["e"]⟩ = .ok looseGrammar ∧
      (∀ b ∈ looseGrammar.bodies, b.2.NormalForm ["e", "n"]) ∧
      ∃ inner, looseGrammar.body? "e" = some (.leftrec inner "e") := by
  have normalized : looseRules.normalize ⟨true, ["e"]⟩ = .ok looseGrammar := by cbv
  obtain ⟨-, normal, assoc, -⟩ := RuleSet.normalForm_of_normalize normalized
  exact ⟨normalized, normal, assoc "e" (.head _)⟩

end Pegboard
