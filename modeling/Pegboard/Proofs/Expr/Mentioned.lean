import Pegboard.Proofs.Expr.Printed

/-!
# The variables that are collected

The names that an expression mentions are collected without evaluating it, from all that is in it.
What an evaluation looks up is collected, wherever in the expression it is: a variable, a constant,
which may be bound like any name, or the name of what is called, which is looked up only for the
error.  So two stacks of scopes that bind the collected names alike give an expression the same value
or the same error, whatever else they bind, and in how many frames.

## Main Results

* `Expr.var_mem_nodes_iff`: the names that are collected are those of the variables in the expression.
* `Pattern.eval_of_alikeOn`: evaluation depends on the collected names only.
-/

namespace Pegboard

/-! ## What is collected -/

namespace Expr

variable {name : String}

mutual

/-- The names that an expression mentions are those of the variables in it. -/
theorem var_mem_nodes_iff : ∀ e : Expr, .var name ∈ e.nodes ↔ name ∈ e.variableNames
  | .var other => by simp [nodes, variableNames]
  | .dec _ => by simp [nodes, variableNames]
  | .hex _ => by simp [nodes, variableNames]
  | .str _ => by simp [nodes, variableNames]
  | .plus lhs rhs => by
    simp [nodes, variableNames, var_mem_nodes_iff lhs, var_mem_nodes_iff rhs]
  | .qual base suffixes => by
    simp [nodes, variableNames, var_mem_nodes_iff base, var_mem_suffixNodes_iff suffixes]
  | .arr items => by simp [nodes, variableNames, var_mem_nodesAll_iff items]

theorem var_mem_nodesAll_iff :
    ∀ es : List Expr, .var name ∈ nodesAll es ↔ name ∈ variableNamesAll es
  | [] => by simp [nodesAll, variableNamesAll]
  | e :: es => by
    simp [nodesAll, variableNamesAll, var_mem_nodes_iff e, var_mem_nodesAll_iff es]

theorem var_mem_suffixNodes_iff :
    ∀ ss : List Suffix, .var name ∈ Suffix.nodesAll ss ↔ name ∈ Suffix.variableNamesAll ss
  | [] => by simp [Suffix.nodesAll, Suffix.variableNamesAll]
  | .item index :: rest => by
    simp [Suffix.nodesAll, Suffix.variableNamesAll, Suffix.variableNames, var_mem_nodes_iff index,
      var_mem_suffixNodes_iff rest]
  | .call args :: rest => by
    simp [Suffix.nodesAll, Suffix.variableNamesAll, Suffix.variableNames, var_mem_nodesAll_iff args,
      var_mem_suffixNodes_iff rest]
  | .attr _ :: rest => by
    simp [Suffix.nodesAll, Suffix.variableNamesAll, Suffix.variableNames,
      var_mem_suffixNodes_iff rest]

end

end Expr

/-! ## Evaluation -/

/-- An expression of an action, a predicate or an equality has the same value, or the same error, in
any two stacks of scopes that bind the names alike which the node mentions. -/
theorem Pattern.eval_of_alikeOn {p : Pattern} {e : Expr} (holds : p.expr? = some e) {a b : Scopes}
    (alike : Scopes.AlikeOn p.variableNames a b) : e.eval a = e.eval b := by
  refine Expr.eval_congr e fun name read => alike name ?_
  -- What is looked up is mentioned by the expression, and so by the node that holds it.
  have mentioned : name ∈ e.variableNames := Expr.mem_variableNames e read
  exact Pattern.mem_variableNames_iff.2 ⟨p, p.mem_nodes_self, e, holds, mentioned⟩

/-- The expression `[x, true] + f(x[i])`. -/
def callOfVariable : Expr :=
  .plus (.arr [.var "x", .var "true"]) (.qual (.var "f") [.call [.qual (.var "x") [.item (.var "i")]]])

/-- Two frames that bind the names of that expression, the constant and the callee among them. -/
def twoFrames : Scopes :=
  ⟨[("x", .str "k"), ("y", .null)], [[("f", .seq []), ("true", .str "t"), ("i", .int 0)]]⟩

/-- Four frames that bind these names alike, and another one differently. -/
def fourFrames : Scopes :=
  ⟨[], [[("true", .str "t"), ("x", .str "k")], [("x", .null), ("i", .int 0)],
    [("f", .seq []), ("y", .int 2)]]⟩

/-- In both the call of the variable is the error. -/
theorem eval_of_alikeOn_frames :
    (Pattern.action callOfVariable).expr? = some callOfVariable ∧
      Scopes.AlikeOn (Pattern.action callOfVariable).variableNames twoFrames fourFrames ∧
      twoFrames.lookup? "y" = some .null ∧ fourFrames.lookup? "y" = some (.int 2) ∧
      callOfVariable.eval twoFrames = .error (.notCallable .seq) ∧
      callOfVariable.eval fourFrames = .error (.notCallable .seq) := by
  have alike : Scopes.AlikeOn (Pattern.action callOfVariable).variableNames twoFrames fourFrames := by
    have names : (Pattern.action callOfVariable).variableNames = ["x", "true", "f", "x", "i"] := rfl
    simp only [names, Scopes.AlikeOn, List.forall_mem_cons]
    exact ⟨rfl, rfl, rfl, rfl, rfl, List.forall_mem_nil _⟩
  have first : callOfVariable.eval twoFrames = .error (.notCallable .seq) := by rfl
  have same := Pattern.eval_of_alikeOn (p := .action callOfVariable) rfl alike
  exact ⟨rfl, alike, rfl, rfl, first, same ▸ first⟩

end Pegboard
