import Pegboard.Proofs.Expr.Attached
import Pegboard.Proofs.Grammar.Essence
import Pegboard.Proofs.Grammar.Lines
import Pegboard.Proofs.Normalize.Reprint
import Pegboard.Proofs.Normalize.Tidy

/-!
# Scopes that are read back

Scopes are not printed.  Where a sequence with labels is read, a scope is put around it again, and
around a single term only if parentheses stand there or if it is an alternative.  So a scope of one
term may be lost: in `('x':v) -> v` the parentheses keep `v` from the action, and they are not
printed.  The other way round, a label around a label is printed with parentheses, which make a scope
that was not there.

A pattern is faithful if the labels in such places bind names that are not looked up.  What is read
back of a faithful pattern has the essence of the pattern.

## Main Definitions

* `Pattern.FaithfulNode`: no name that is looked up changes its scope when a node is printed.
* `Pattern.Recoverable`: a pattern inside a normalized body all of whose nodes are faithful.
* `Pattern.rescoped`: the essence of a pattern after scopes are put in.

## Main Results

* `Pattern.rescoped_core`: what is read back of a recoverable pattern has its essence.
-/

namespace Pegboard.Pattern

variable {seen : String → Bool}

/-! ## Faithful patterns -/

/-- What a pattern is printed as: what is inside the scopes of a single term. -/
def bare : Pattern → Pattern
  | .scope _ [p] => bare p
  | p => p

/-- Whether a pattern can do without its scope, if it is a scope of a single term. -/
def Loose (seen : String → Bool) (p : Pattern) : Prop :=
  ∀ rule q, p = .scope rule [q] → p.bare.Hides seen

/-- Whether printing a node changes neither the scope of a name that is looked up nor what is called
in an expression. -/
def FaithfulNode (seen : String → Bool) : Pattern → Prop
  | .label p _ => p.Hides seen
  | .not p => p.Loose seen
  | .seq ps => ∀ p ∈ ps, p.Loose seen
  | .scope _ ps => 2 ≤ ps.length → ∀ p ∈ ps, p.Loose seen
  | .pred e => e.Attached
  | .eq e => e.Attached
  | .action e => e.Attached
  | _ => True

/-- Whether a node is none of the wrappers that stand around bodies. -/
def PlainNode : Pattern → Prop
  | .leftrec _ _ => False
  | .memo _ _ => False
  | _ => True

/-- A node inside a normalized body, and a faithful one. -/
structure RecoverableNode (seen : String → Bool) (p : Pattern) : Prop where
  plain : p.PlainNode
  simple : p.SimpleNode
  tidy : p.TidyNode
  faithful : p.FaithfulNode seen

/-- Whether a pattern is one inside a normalized body all of whose nodes are faithful. -/
def Recoverable (seen : String → Bool) (p : Pattern) : Prop := p.Everywhere (RecoverableNode seen)

theorem Recoverable.node {p : Pattern} (h : p.Recoverable seen) : p.RecoverableNode seen :=
  (everywhere_iff.1 h).1

theorem Recoverable.part {p q : Pattern} (h : p.Recoverable seen) (hq : q ∈ p.parts) :
    q.Recoverable seen :=
  (everywhere_iff.1 h).2 q hq

/-- Only terms expose names: what is printed at another level is closed. -/
theorem closed_bare {p : Pattern} (h : p.Recoverable seen) (level : p.level ≠ .term) :
    p.bare.Closed := by
  fun_induction bare p with
  | case1 rule p ih => exact ih (h.part (.head _)) level
  | case2 p several =>
    have tidy := h.node.tidy
    cases p with
    | choice | seq | opt | star | plus | capture => exact tidy
    | label | not => contradiction
    | paren => exact h.node.simple.elim
    | leftrec | memo => exact h.node.plain.elim
    | _ => trivial

/-! ## Scopes around a single pattern -/

/-- A scope around a pattern, if it is of use. -/
def boxed (p : Pattern) : Pattern := if p.exposed.isEmpty then p else .scope "" [p]

theorem boxed_of_closed {p : Pattern} (h : p.Closed) : p.boxed = p := by
  rw [boxed, (exposed_eq_nil p).2 h]
  rfl

theorem closed_boxed (p : Pattern) : p.boxed.Closed := by
  unfold boxed
  split
  · next none => exact (exposed_eq_nil p).1 (List.isEmpty_iff.1 none)
  · trivial

theorem essence_scope_single (rule : String) (p : Pattern) {f : Expr → Expr} :
    (Pattern.scope rule [p]).essence seen f = (p.essence seen f).boxed := by
  have alone : exposedAll [p.essence seen f] = (p.essence seen f).exposed := List.append_nil _
  rw [essence_eq, mapParts, List.map_singleton, essenceNode, alone, boxed]
  rfl

/-- In a scope, it is all the same whether a pattern has one of its own. -/
theorem boxed_essence_bare (p : Pattern) {f : Expr → Expr} :
    (p.bare.essence seen f).boxed = (p.essence seen f).boxed := by
  fun_induction bare p with
  | case1 rule p ih => rw [essence_scope_single, boxed_of_closed (closed_boxed _), ih]
  | case2 => rfl

/-- Where nothing that is looked up is lost, the essence is that of what is printed. -/
theorem essence_bare {p : Pattern} {f : Expr → Expr} (h : p.Loose seen) :
    p.bare.essence seen f = p.essence seen f := by
  by_cases single : ∃ rule q, p = .scope rule [q]
  · obtain ⟨rule, q, rfl⟩ := single
    have bare : ((Pattern.scope rule [q]).bare.essence seen f).Closed :=
      closed_essence_of_hides (h rule q rfl)
    have whole : ((Pattern.scope rule [q]).essence seen f).Closed := closed_essence trivial
    rw [← boxed_of_closed bare, boxed_essence_bare, boxed_of_closed whole]
  · have same : p.bare = p := by
      rw [bare.eq_def]
      split
      · exact absurd ⟨_, _, rfl⟩ single
      · rfl
    rw [same]

/-! ## Essences after scopes are put in -/

/-- The essence of a pattern after scopes are put in. -/
def rescoped (rule : String) (seen : String → Bool) (p : Pattern) : Pattern :=
  (p.rebuild (scopeNode rule)).essence seen id

section Rescoped

variable {rule : String}

/-- A sequence becomes a scope where that is of use. -/
theorem rescoped_seq (ps : List Pattern) :
    (seq ps).rescoped rule seen = essenceNode seen id (.scope "" (ps.map (rescoped rule seen))) := by
  rw [rescoped, rebuild, rebuildAll_eq_map, scopeNode]
  split
  · rw [essence_eq, mapParts, List.map_map]
    rfl
  · next none =>
    have closed : exposedAll (ps.map (rescoped rule seen)) = [] := by
      have inside := closedAll_of_not_any none
      refine (exposedAll_eq_nil _).2 (closedAll_iff.2 fun q hq => ?_)
      obtain ⟨p, hp, rfl⟩ := List.mem_map.1 hq
      exact closed_essence (closedAll_iff.1 inside _ (List.mem_map_of_mem hp))
    rw [essence_eq, mapParts, List.map_map, essenceNode, closed]
    rfl

theorem rescoped_seq_single (p : Pattern) :
    (seq [p]).rescoped rule seen = (p.rescoped rule seen).boxed := by
  have alone : exposedAll [p.rescoped rule seen] = (p.rescoped rule seen).exposed :=
    List.append_nil _
  rw [rescoped_seq, List.map_singleton, essenceNode, alone, boxed]
  rfl

/-- A sequence is scoped as a term, and so it is not scoped as an alternative. -/
theorem scopeAlternative_rebuild_seq (ps : List Pattern) :
    scopeAlternative rule ((seq ps).rebuild (scopeNode rule)) = (seq ps).rebuild (scopeNode rule) := by
  rw [rebuild, scopeNode]
  split <;> rfl

theorem rescoped_choice {alts : List Pattern} (h : ∀ p ∈ alts, ∃ ps, p = seq ps) :
    (choice alts).rescoped rule seen = simplifyNode (.choice (alts.map (rescoped rule seen))) := by
  rw [rescoped, rebuild, rebuildAll_eq_map, scopeNode, essence_choice, List.map_map, List.map_map]
  refine congrArg (fun ps => simplifyNode (.choice ps)) (List.map_congr_left fun p hp => ?_)
  obtain ⟨ps, rfl⟩ := h p hp
  show (scopeAlternative rule ((seq ps).rebuild (scopeNode rule))).essence seen id = _
  rw [scopeAlternative_rebuild_seq, rescoped]

theorem rescoped_choice_single (ps : List Pattern) :
    (choice [seq ps]).rescoped rule seen = (seq ps).rescoped rule seen := by
  refine rescoped_choice fun p hp => ?_
  exact ⟨ps, List.mem_singleton.1 hp⟩

/-- What is read in parentheses is boxed, or needs not be. -/
theorem rescoped_toChoice {own : Level} {q : Pattern} (row : own = .seq → ∃ ps, q = seq ps)
    (closed : own ≠ .term → (q.rescoped rule seen).Closed) :
    (own.toChoice q).rescoped rule seen = (q.rescoped rule seen).boxed := by
  cases own with
  | choice => exact (boxed_of_closed (closed (by decide))).symm
  | seq =>
    obtain ⟨ps, rfl⟩ := row rfl
    exact (rescoped_choice_single ps).trans (boxed_of_closed (closed (by decide))).symm
  | term | postfixed | prim => exact (rescoped_choice_single [q]).trans (rescoped_seq_single q)

/-- Where a term is asked for, only what is closed is in parentheses. -/
theorem rescoped_lift_term {own : Level} {q : Pattern} (row : own = .seq → ∃ ps, q = seq ps)
    (closed : own ≠ .term → (q.rescoped rule seen).Closed) :
    (own.lift .term q).rescoped rule seen = q.rescoped rule seen := by
  cases own with
  | choice => rfl
  | seq => exact (rescoped_toChoice row closed).trans (boxed_of_closed (closed (by decide)))
  | term | postfixed | prim => rfl

/-- Where anything but a term is asked for, a term is an alternative of its own. -/
theorem rescoped_lift {own least : Level} {q : Pattern} (other : least ≠ .term)
    (row : own = .seq → ∃ ps, q = seq ps) (closed : own ≠ .term → (q.rescoped rule seen).Closed) :
    (own.lift least q).rescoped rule seen = (q.rescoped rule seen).boxed := by
  have alone (h : own ≠ .term) : q.rescoped rule seen = (q.rescoped rule seen).boxed :=
    (boxed_of_closed (closed h)).symm
  have grouped : (paren (own.toChoice q)).rescoped rule seen = (q.rescoped rule seen).boxed :=
    rescoped_toChoice row closed
  cases least with
  | choice => exact rescoped_toChoice row closed
  | seq =>
    cases own with
    | choice => exact rescoped_seq_single (.paren q)
    | seq => exact alone (by decide)
    | term | postfixed | prim => exact rescoped_seq_single q
  | term => contradiction
  | postfixed =>
    cases own with
    | choice | seq | term => exact grouped
    | postfixed => exact alone (by decide)
    | prim => exact alone (by decide)
  | prim =>
    cases own with
    | choice | seq | term | postfixed => exact grouped
    | prim => exact alone (by decide)

end Rescoped

/-! ## What is read back -/

section Core

variable {rule : String}

/-- What is read back of a pattern has its essence, wherever anything but a term is asked for. -/
theorem rescoped_reread (least : Level) {p : Pattern} (h : p.Recoverable seen)
    (other : least ≠ .term) (core : p.core.rescoped rule seen = p.bare.essence seen Expr.flat) :
    (p.reread least).rescoped rule seen = (p.essence seen Expr.flat).boxed := by
  rw [reread, rescoped_lift other core_of_level_seq, core, boxed_essence_bare]
  intro level
  rw [core]
  exact closed_essence (closed_bare h level)

theorem rescoped_reread_of_closed (least : Level) {p : Pattern} (h : p.Recoverable seen)
    (closed : p.Closed) (other : least ≠ .term)
    (core : p.core.rescoped rule seen = p.bare.essence seen Expr.flat) :
    (p.reread least).rescoped rule seen = p.essence seen Expr.flat :=
  (rescoped_reread least h other core).trans (boxed_of_closed (closed_essence closed))

/-- Where a term is asked for, it has the essence of what it is printed as. -/
theorem rescoped_reread_term {p : Pattern} (h : p.Recoverable seen) (loose : p.Loose seen)
    (core : p.core.rescoped rule seen = p.bare.essence seen Expr.flat) :
    (p.reread .term).rescoped rule seen = p.essence seen Expr.flat := by
  rw [reread, rescoped_lift_term core_of_level_seq, core, essence_bare loose]
  intro level
  rw [core]
  exact closed_essence (closed_bare h level)

/-- The terms of a sequence are read back with their essences. -/
theorem map_rescoped_coreTerms (ps : List Pattern) (h : ∀ p ∈ ps, p.Recoverable seen)
    (loose : ∀ p ∈ ps, p.Loose seen)
    (core : ∀ p ∈ ps, p.core.rescoped rule seen = p.bare.essence seen Expr.flat) :
    (coreTerms ps).map (rescoped rule seen) = ps.map (essence seen Expr.flat) := by
  induction ps with
  | nil => rfl
  | cons p ps ih =>
    have further := ih (fun q hq => h q (.tail _ hq)) (fun q hq => loose q (.tail _ hq))
      fun q hq => core q (.tail _ hq)
    have first : (if p.isParenthesized ps then Pattern.paren (p.level.lift .choice p.core)
        else p.level.lift .term p.core).rescoped rule seen = p.essence seen Expr.flat := by
      split
      · next hparens =>
        have action : p.isAction = true := (Bool.and_eq_true_iff.1 hparens).1
        have level : p.level ≠ .term := by
          rw [level_of_isAction action]
          decide
        have closed : (p.essence seen Expr.flat).Closed := by
          rw [← essence_bare (loose p (.head _))]
          exact closed_essence (closed_bare (h p (.head _)) level)
        exact (rescoped_reread .choice (h p (.head _)) (by decide) (core p (.head _))).trans
          (boxed_of_closed closed)
      · exact rescoped_reread_term (h p (.head _)) (loose p (.head _)) (core p (.head _))
    rw [coreTerms, List.map_cons, List.map_cons, first, further]

/-- What is read back before a sign of repetition has the essence of what stood there. -/
theorem rescoped_coreRepeated {p : Pattern} (h : p.Recoverable seen) (closed : p.Closed)
    (core : p.core.rescoped rule seen = p.bare.essence seen Expr.flat) :
    (coreRepeated p.isAction p.level p.core).rescoped rule seen = p.essence seen Expr.flat := by
  unfold coreRepeated
  split
  · exact rescoped_reread_of_closed .choice h closed (by decide) core
  · exact rescoped_reread_of_closed .prim h closed (by decide) core

/-- What is read back of a recoverable pattern has the essence of what it is printed as. -/
theorem rescoped_core {p : Pattern} (h : p.Recoverable seen) :
    p.core.rescoped rule seen = p.bare.essence seen Expr.flat := by
  induction p using induction_parts with
  | node p ih =>
    have part : ∀ q ∈ p.parts, q.Recoverable seen := fun q hq => h.part hq
    have core : ∀ q ∈ p.parts, q.core.rescoped rule seen = q.bare.essence seen Expr.flat :=
      fun q hq => ih q hq (part q hq)
    have simple := h.node.simple
    have tidy := h.node.tidy
    have faithful := h.node.faithful
    have repeated (q : Pattern) (hq : q ∈ p.parts) (closed : q.Closed) :
        (coreRepeated q.isAction q.level q.core).rescoped rule seen = q.essence seen Expr.flat :=
      rescoped_coreRepeated (part q hq) closed (core q hq)
    cases p with
    | choice alts =>
      rcases alts with _ | ⟨q, _ | ⟨r, rest⟩⟩
      · exact absurd simple (by simp [SimpleNode])
      · exact absurd simple (by simp [SimpleNode])
      · have alternatives : (Pattern.choice (q :: r :: rest)).core
            = .choice ((q :: r :: rest).map (reread .seq)) := by
          rw [← coreAlternatives_eq_map]
          rfl
        have rows : ∀ p ∈ (q :: r :: rest).map (reread .seq), ∃ ps, p = seq ps := by
          intro p hp
          obtain ⟨s, -, rfl⟩ := List.mem_map.1 hp
          exact reread_seq s
        show _ = (Pattern.choice (q :: r :: rest)).essence seen Expr.flat
        rw [alternatives, rescoped_choice rows, List.map_map, essence_choice]
        refine congrArg (fun ps => simplifyNode (.choice ps)) (List.map_congr_left fun p hp => ?_)
        exact rescoped_reread_of_closed .seq (part p hp) (closedAll_iff.1 tidy p hp) (by decide)
          (core p hp)
    | seq ps =>
      rcases ps with _ | ⟨q, _ | ⟨r, rest⟩⟩
      · exact absurd simple (by simp [SimpleNode])
      · exact absurd simple (by simp [SimpleNode])
      · have terms := map_rescoped_coreTerms (q :: r :: rest) part faithful core
        have none : exposedAll ((q :: r :: rest).map (essence seen Expr.flat)) = [] :=
          (exposedAll_eq_nil _).2 (closedAll_map_essence tidy)
        show (seq (coreTerms (q :: r :: rest))).rescoped rule seen
          = (seq (q :: r :: rest)).essence seen Expr.flat
        rw [rescoped_seq, terms, essenceNode, none, essence_seq]
        rfl
    | scope owner ps =>
      rcases ps with _ | ⟨q, _ | ⟨r, rest⟩⟩
      · exact absurd simple (by simp [SimpleNode])
      · exact core q (.head _)
      · have terms := map_rescoped_coreTerms (q :: r :: rest) part (faithful (by simp)) core
        show (seq (coreTerms (q :: r :: rest))).rescoped rule seen
          = (scope owner (q :: r :: rest)).essence seen Expr.flat
        rw [rescoped_seq, terms, essence_eq]
        rfl
    | label q name =>
      have inside : (q.reread .postfixed).rescoped rule seen = q.essence seen Expr.flat :=
        (rescoped_reread .postfixed (part q (.head _)) (by decide) (core q (.head _))).trans
          (boxed_of_closed (closed_essence_of_hides faithful))
      exact congrArg (fun q => essenceNode seen id (.label q name)) inside
    | not q =>
      exact congrArg Pattern.not (rescoped_reread_term (part q (.head _)) faithful (core q (.head _)))
    | opt q => exact congrArg Pattern.opt (repeated q (.head _) tidy)
    | star q => exact congrArg Pattern.star (repeated q (.head _) tidy)
    | plus q => exact congrArg Pattern.plus (repeated q (.head _) tidy)
    | capture q =>
      exact congrArg Pattern.capture
        (rescoped_reread_of_closed .choice (part q (.head _)) tidy (by decide) (core q (.head _)))
    | paren q => exact simple.elim
    | leftrec | memo => exact h.node.plain.elim
    | _ => rfl

end Core

end Pegboard.Pattern
