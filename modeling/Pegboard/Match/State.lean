import Pegboard.Expr.Scopes
import Pegboard.Expr.Error

/-!
# The state of a match

Matching keeps its place in the input, the outcome of the pattern that it evaluated last, and what
it has to remember: the bindings, the seeds of left-recursive rules that are growing, the outcomes
that were kept, and the failure that came furthest.

Failing is an ordinary state, not an error: the place where a pattern gave up is left as it is, and
whoever tries something else goes back.

## Main Definitions

* `Failure` and `Failure.merge`: failures, and which of two is remembered.
* `Outcome`: what a pattern gave, as it is recorded for a seed or a memo.
* `Table`: outcomes by rule and offset.
* `MatchState`: the state, with the two ways of ending a pattern, `succeed` and `fail`.
-/

namespace Pegboard

/-! ## Failures -/

/-- Why a pattern failed, if the reason is other than the input itself. -/
inductive FailureCause where
  | unknownRule (name : String)
  | predicateNotBool (kind : Kind)
  | equalityNotStr (kind : Kind)
  | evaluation (error : EvalError)
  deriving DecidableEq, Repr, Inhabited

/-- The wording of a cause. -/
def FailureCause.message : FailureCause → String
  | .unknownRule name => "Unknown rule `" ++ name ++ "`"
  | .predicateNotBool kind => "Predicate evaluated to " ++ kind.name ++ ", not bool"
  | .equalityNotStr kind => "Equality assertion evaluated to " ++ kind.name ++ ", not str"
  | .evaluation error => error.message

/-- A failure at an offset.  Without a cause, it is the input at that offset that was not
expected. -/
structure Failure where
  pos : Nat
  cause : Option FailureCause
  deriving DecidableEq, Repr, Inhabited

namespace Failure

/-- Of the furthest failure so far and a later one, the one to remember: the later one, unless it
is not as far. -/
def merge : Option Failure → Option Failure → Option Failure
  | furthest, none => furthest
  | none, some later => some later
  | some furthest, some later => if furthest.pos ≤ later.pos then some later else some furthest

@[simp] theorem merge_none (f : Option Failure) : merge f none = f := by
  cases f <;> rfl

@[simp] theorem none_merge (f : Option Failure) : merge none f = f := by
  cases f <;> rfl

/-- Merging failures is associative, so a run's failures may be merged in any grouping. -/
theorem merge_assoc : ∀ f g h : Option Failure,
    merge (merge f g) h = merge f (merge g h)
  | none, g, h => by simp
  | some f, none, h => by simp
  | some f, some g, none => by simp
  | some f, some g, some h => by
    by_cases hfg : f.pos ≤ g.pos <;> by_cases hgh : g.pos ≤ h.pos
    · simp [merge, hfg, hgh, Nat.le_trans hfg hgh]
    · simp [merge, hfg, hgh]
    · simp [merge, hfg, hgh]
    · have : ¬ f.pos ≤ h.pos := by omega
      simp [merge, hfg, hgh, this]

end Failure

/-! ## Recorded outcomes -/

/-- What a pattern gave: a value or a failure, and the offset where it ended. -/
structure Outcome where
  value : Value
  failed : Bool
  pos : Nat
  deriving Inhabited

namespace Outcome

/-- The outcome of failing at an offset. -/
def failing (pos : Nat) : Outcome := ⟨.null, true, pos⟩

end Outcome

/-- A rule at an offset. -/
abbrev RuleAt := String × Nat

/-- What is recorded of rules at offsets, the latest first. -/
abbrev Table (α : Type) := List (RuleAt × α)

namespace Table

variable {α : Type}

/-- What is recorded at a key. -/
def get? (table : Table α) (key : RuleAt) : Option α :=
  (table.find? (·.1 == key)).map (·.2)

/-- The table without what is recorded at a key. -/
def erase (table : Table α) (key : RuleAt) : Table α := table.filter (·.1 != key)

/-- The table with `a` recorded at a key, in place of what was. -/
def insert (table : Table α) (key : RuleAt) (a : α) : Table α := (key, a) :: table.erase key

@[simp] theorem get?_insert_self (table : Table α) (key : RuleAt) (a : α) :
    (table.insert key a).get? key = some a := by
  simp [get?, insert]

theorem get?_insert_of_ne (table : Table α) {key other : RuleAt} (a : α) (h : other ≠ key) :
    (table.insert key a).get? other = table.get? other := by
  have hne : (key == other) = false := by simpa using Ne.symm h
  rw [get?, insert, List.find?_cons, hne]
  simp only [erase, List.find?_filter, get?]
  congr 2
  funext e
  by_cases he : e.1 = other <;> simp [he, h]

/-- What is not recorded need not be removed. -/
theorem erase_eq_self {table : Table α} {key : RuleAt} (h : table.get? key = none) :
    table.erase key = table := by
  simp only [get?, Option.map_eq_none_iff, List.find?_eq_none] at h
  rw [erase, List.filter_eq_self]
  intro e he
  simpa using h e he

/-- Removing what was just recorded gives the table before, if the key was new. -/
theorem erase_insert {table : Table α} {key : RuleAt} (h : table.get? key = none) (a : α) :
    (table.insert key a).erase key = table := by
  have := erase_eq_self h
  simp only [insert, erase, List.filter_cons] at *
  simp [this]

end Table

/-- A kept outcome, with the furthest failure on the way to it. -/
structure MemoEntry where
  outcome : Outcome
  furthest : Option Failure
  deriving Inhabited

/-! ## The state -/

/-- The state of a match. -/
structure MatchState where
  /-- The current offset. -/
  pos : Nat
  /-- The value of the pattern evaluated last, if it did not fail. -/
  value : Value
  /-- Whether the pattern evaluated last failed. -/
  failed : Bool
  /-- The furthest failure so far. -/
  furthest : Option Failure
  scopes : Scopes
  /-- The best outcomes so far of the left-recursive rules that are growing. -/
  seeds : Table Outcome
  /-- The left-associative rules that are growing. -/
  blocked : List String
  /-- The outcomes that were kept. -/
  memo : Table MemoEntry
  deriving Inhabited

namespace MatchState

/-- The state before anything is matched. -/
def initial : MatchState where
  pos := 0
  value := .null
  failed := false
  furthest := none
  scopes := .base
  seeds := []
  blocked := []
  memo := []

/-- The state after a pattern has succeeded with a value. -/
def succeed (s : MatchState) (value : Value) : MatchState :=
  { s with value := value, failed := false }

/-- The state with a later failure taken into account. -/
def mergeFailure (s : MatchState) (failure : Option Failure) : MatchState :=
  { s with furthest := Failure.merge s.furthest failure }

/-- The state after a pattern has failed, with the failure at the offset `pos`.  The current offset
stays where it is. -/
def failAt (s : MatchState) (pos : Nat) (cause : Option FailureCause) : MatchState :=
  { s with value := .null, failed := true }.mergeFailure (some ⟨pos, cause⟩)

/-- The state after a pattern has failed at the current offset. -/
def fail (s : MatchState) (cause : Option FailureCause) : MatchState := s.failAt s.pos cause

/-- The state with the outcome of the last pattern replaced by a recorded one. -/
def adopt (s : MatchState) (outcome : Outcome) : MatchState :=
  { s with value := outcome.value, failed := outcome.failed, pos := outcome.pos }

/-- The outcome of the last pattern. -/
def outcome (s : MatchState) : Outcome := ⟨s.value, s.failed, s.pos⟩

end MatchState

end Pegboard
