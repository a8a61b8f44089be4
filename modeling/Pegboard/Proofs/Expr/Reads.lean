import Pegboard.Expr.Eval

/-!
# The variables that evaluation looks up

An expression depends on the bindings in scope only through the names that its evaluation may look
up.  The callee of a call by name is looked up only where no builtin function has its name, and then
only for the error.

## Main Results

* `Expr.eval_congr`: where the names that an expression looks up are bound alike, it has the same
  value or the same error.
-/

namespace Pegboard

mutual

/-- The names that evaluating an expression may look up. -/
def Expr.reads : Expr → List String
  | .var name => [name]
  | .dec _ => []
  | .hex _ => []
  | .str _ => []
  | .plus lhs rhs => lhs.reads ++ rhs.reads
  | .qual (.var name) (.call args :: rest) =>
    (if Builtin.isName name then [] else [name]) ++ Expr.readsAll args ++ Suffix.readsAll rest
  | .qual base suffixes => base.reads ++ Suffix.readsAll suffixes
  | .arr items => Expr.readsAll items

/-- The names that evaluating the expressions of a list may look up. -/
def Expr.readsAll : List Expr → List String
  | [] => []
  | e :: es => e.reads ++ Expr.readsAll es

/-- The names that evaluating suffixes may look up. -/
def Suffix.readsAll : List Suffix → List String
  | [] => []
  | .item index :: rest => index.reads ++ Suffix.readsAll rest
  | .call args :: rest => Expr.readsAll args ++ Suffix.readsAll rest
  | .attr _ :: rest => Suffix.readsAll rest

end

namespace Scopes

/-- Two stacks of scopes bind the names of a list alike. -/
def AlikeOn (names : List String) (a b : Scopes) : Prop :=
  ∀ name ∈ names, a.lookup? name = b.lookup? name

theorem alikeOn_append {xs ys : List String} {a b : Scopes} :
    AlikeOn (xs ++ ys) a b ↔ AlikeOn xs a b ∧ AlikeOn ys a b := by
  simp only [AlikeOn, List.mem_append, or_imp, forall_and]

theorem alikeOn_singleton {name : String} {a b : Scopes} :
    AlikeOn [name] a b ↔ a.lookup? name = b.lookup? name := by
  simp [AlikeOn]

/-- A call by name depends on the scopes only if no builtin function has the name. -/
theorem call_congr {a b : Scopes} {name : String}
    (h : AlikeOn (if Builtin.isName name then [] else [name]) a b) (args : List Value) :
    a.call name args = b.call name args := by
  cases hf : Builtin.ofName? name with
  | some function => simp only [call, hf]
  | none =>
    have hname : Builtin.isName name = false := by rw [Builtin.isName, hf]; rfl
    rw [hname, if_neg Bool.false_ne_true, alikeOn_singleton] at h
    simp only [call, hf, h]

end Scopes

open Scopes

mutual

/-- Where the names that an expression looks up are bound alike, it has the same value or the same
error. -/
theorem Expr.eval_congr {a b : Scopes} :
    ∀ e : Expr, AlikeOn e.reads a b → e.eval a = e.eval b
  | .var name, h => by
    rw [Expr.reads, alikeOn_singleton] at h
    simp only [Expr.eval, Scopes.variable, h]
  | .dec _, _ => rfl
  | .hex _, _ => rfl
  | .str _, _ => rfl
  | .plus lhs rhs, h => by
    rw [Expr.reads, alikeOn_append] at h
    rw [Expr.eval, Expr.eval, Expr.eval_congr lhs h.1, Expr.eval_congr rhs h.2]
  | .qual base suffixes, h => by
    by_cases hcall : ∃ name args rest, base = .var name ∧ suffixes = .call args :: rest
    · obtain ⟨name, args, rest, rfl, rfl⟩ := hcall
      rw [Expr.reads, alikeOn_append, alikeOn_append] at h
      rw [Expr.eval, Expr.eval, Expr.evalAll_congr args h.1.2]
      simp only [call_congr h.1.1, Suffix.evalAll_congr rest h.2]
    · have hother : ∀ name args rest, base = .var name → suffixes = .call args :: rest → False :=
        fun name args rest hb hs => hcall ⟨name, args, rest, hb, hs⟩
      rw [Expr.reads, alikeOn_append] at h
      · rw [Expr.eval, Expr.eval, Expr.eval_congr base h.1]
        · simp only [Suffix.evalAll_congr suffixes h.2]
        · exact hother
        · exact hother
      · exact hother
  | .arr items, h => by
    rw [Expr.reads] at h
    rw [Expr.eval, Expr.eval, Expr.evalAll_congr items h]

theorem Expr.evalAll_congr {a b : Scopes} :
    ∀ es : List Expr, AlikeOn (Expr.readsAll es) a b → Expr.evalAll a es = Expr.evalAll b es
  | [], _ => rfl
  | e :: es, h => by
    rw [Expr.readsAll, alikeOn_append] at h
    rw [Expr.evalAll, Expr.evalAll, Expr.eval_congr e h.1, Expr.evalAll_congr es h.2]

theorem Suffix.evalAll_congr {a b : Scopes} : ∀ (ss : List Suffix) {value : Value},
    AlikeOn (Suffix.readsAll ss) a b → Suffix.evalAll a value ss = Suffix.evalAll b value ss
  | [], _, _ => rfl
  | .item index :: rest, value, h => by
    rw [Suffix.readsAll, alikeOn_append] at h
    rw [Suffix.evalAll, Suffix.evalAll, Expr.eval_congr index h.1]
    simp only [Suffix.evalAll_congr rest h.2]
  | .call _ :: _, _, _ => rfl
  | [.attr _], _, _ => rfl
  | .attr _ :: .item _ :: _, _, _ => rfl
  | .attr _ :: .attr _ :: _, _, _ => rfl
  | .attr name :: .call args :: rest, value, h => by
    rw [Suffix.readsAll, Suffix.readsAll, alikeOn_append] at h
    rw [Suffix.evalAll, Suffix.evalAll, Expr.evalAll_congr args h.1]
    simp only [Suffix.evalAll_congr rest h.2]

end

end Pegboard
