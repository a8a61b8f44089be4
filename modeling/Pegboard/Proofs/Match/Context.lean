import Pegboard.Match.Result
import Pegboard.Proofs.Normalize.Closed

/-!
# The context of a rule application

A rule is applied among the bindings of whoever applies it, and while seeds grow and rules are
blocked around it.  Its application leaves all of that as it was.  The seeds, the blocked rules and
the enclosing frames are put back by every run.  The innermost frame is the caller's own, and a
label of the callee would bind in it, but for the scopes that normalization has put around all
labels.

## Main Definitions

* `SameContext`: two states have the same bindings, seeds and blocked rules.

## Main Results

* `apply_context`: applying a rule of a normalized grammar leaves the context as it was, and so
  does growing a seed.
-/

namespace Pegboard.Match

variable {g : Grammar} {input : Array Char}

/-- Two states have the same frames with the same bindings, the same seeds, and the same blocked
rules. -/
structure SameContext (s s' : MatchState) : Prop where
  scopes : s'.scopes = s.scopes
  seeds : s'.seeds = s.seeds
  blocked : s'.blocked = s.blocked

/-- In a grammar whose labels are all in scopes of the rule where they stand, a closed pattern leaves
the context as it was. -/
theorem sameContext_of_closed (rules : ∀ b ∈ g.bodies, b.2.Closed) {p : Pattern} {s s' : MatchState}
    (h : Run g input (.whole p) s s') (closed : p.Closed) : SameContext s s' := by
  have kept : frame s' = frame s := h.frame
  have scopes : s'.scopes = s.scopes :=
    h.scopes_of_closed (fun _ _ found => rules _ (Bodies.mem_of_body? found)) closed
  exact ⟨scopes, congrArg Prod.fst kept, congrArg (·.2.1) kept⟩

/-- Applying a rule leaves the bindings, the seeds and the blocked rules as they were, whether it
succeeds or fails, and so does a whole match.  Where a seed is grown, neither it nor a block is left
behind. -/
theorem apply_context {rs : RuleSet} {options : NormalizeOptions} {g : Grammar}
    (normalized : rs.normalize options = .ok g) (input : Array Char) (n : Nat) :
    (∀ name s s', eval g input n (.apply name) s = some s' → SameContext s s') ∧
      (∀ s', final? g input n = some s' → SameContext .initial s') ∧
      ∀ inner rule s s', eval g input n (.leftrec inner rule) s = some s' →
        s'.seeds = s.seeds ∧ s'.blocked = s.blocked := by
  have rules : ∀ b ∈ g.bodies, b.2.Closed := rs.closed_of_normalize normalized
  refine ⟨fun name s s' h => ?_, fun s' h => ?_, fun inner rule s s' h => ?_⟩
  · exact sameContext_of_closed rules (run_of_eval h) trivial
  · rw [final?] at h
    split at h
    · next body found =>
      -- Before a match nothing is blocked, so the body is evaluated in the state as it is.
      have run : Run g input (.whole body) .initial s' := run_of_eval h
      exact sameContext_of_closed rules run (rules _ (Bodies.mem_of_body? found))
    · rw [Option.some.injEq] at h
      subst h
      exact ⟨rfl, rfl, rfl⟩
  · have kept : frame s' = frame s := (run_of_eval h).frame
    exact ⟨congrArg Prod.fst kept, congrArg (·.2.1) kept⟩

/-! ## A caller with a binding, a seed and a block -/

/-- The rule `a = a:x '+' | 'n'`. -/
def labelledSumRules : RuleSet :=
  .ofDefinitions [("a", .choice [.seq [.label (.apply "a") "x", .lit "+"], .seq [.lit "n"]])]

/-- The grammar of that rule, which associates to the left. -/
def labelledSumGrammar : Grammar :=
  ⟨[("a", .leftrec (.choice [.scope "a" [.label (.apply "a") "x", .lit "+"], .lit "n"]) "a")],
    ["a"]⟩

theorem labelledSumRules_normalize :
    labelledSumRules.normalize ⟨false, ["a"]⟩ = .ok labelledSumGrammar := by
  have scopes : labelledSumRules.scopedBodies
      = [("a", .choice [.scope "a" [.label (.apply "a") "x", .lit "+"], .seq [.lit "n"]])] := rfl
  have recursive : Bodies.leftRecursive
      [("a", .choice [.scope "a" [.label (.apply "a") "x", .lit "+"], .seq [.lit "n"]])]
      = ["a"] := by
    have leads : Bodies.isLeftRecursive
        [("a", .choice [.scope "a" [.label (.apply "a") "x", .lit "+"], .seq [.lit "n"]])] "a"
        (.choice [.scope "a" [.label (.apply "a") "x", .lit "+"], .seq [.lit "n"]]) = true := by
      rw [Bodies.isLeftRecursive, Bodies.leads]
      simp [Pattern.leads, Pattern.leadsAny, Pattern.leadsFirst]
    simp [Bodies.leftRecursive, leads]
  rw [RuleSet.normalize_eq_ok, RuleSet.finished, scopes, recursive]
  exact ⟨rfl, by simp, rfl⟩

/-- A caller that has bound `x` itself, while a seed of another rule grows and that rule is
blocked. -/
def busyCaller : MatchState :=
  { MatchState.initial with
    scopes := ⟨[("x", .str "k")], [[("y", .null)]]⟩
    seeds := [(("b", 0), .failing 0)]
    blocked := ["b"] }

/-- The rule grows over `n+`, binding its own `x` on the way, and the caller finds everything as it
was. -/
theorem apply_context_busy :
    labelledSumRules.normalize ⟨false, ["a"]⟩ = .ok labelledSumGrammar ∧
      ∃ s', eval labelledSumGrammar #['n', '+'] 9 (.apply "a") busyCaller = some s' ∧
        s'.failed = false ∧ s'.pos = 2 ∧ SameContext busyCaller s' := by
  refine ⟨labelledSumRules_normalize, _, rfl, rfl, rfl, ?_⟩
  exact (apply_context labelledSumRules_normalize #['n', '+'] 9).1 "a" busyCaller _ rfl

end Pegboard.Match
