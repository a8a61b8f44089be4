/-!
# Semantic expressions

Actions, predicates and equality assertions of a grammar hold an expression.  An expression reads
the variables that labels have bound and computes a value; it never consumes input.

Numbers stand in an expression as they were written: whether their digits denote a number that
fits is found only when the expression is evaluated.

## Main Definitions

* `Expr` and `Suffix`: expressions, and what may follow one: an index, a call, an attribute.
* `Expr.variableNames`: the names that an expression mentions as variables, callees included.
* `Expr.decEq`: equality of expressions is decidable.
-/

namespace Pegboard

mutual

/-- An expression of an action, a predicate or an equality assertion. -/
inductive Expr where
  /-- A variable, a constant, or the name of a function. -/
  | var (name : String)
  /-- A decimal integer, by its digits. -/
  | dec (digits : String)
  /-- A hexadecimal integer, by the digits after its `0x`. -/
  | hex (digits : String)
  | str (text : String)
  /-- A sum of numbers, or two strings or sequences joined. -/
  | plus (lhs rhs : Expr)
  /-- An expression followed by suffixes, which apply from left to right. -/
  | qual (base : Expr) (suffixes : List Suffix)
  | arr (items : List Expr)

/-- What may follow an expression. -/
inductive Suffix where
  /-- The index in brackets. -/
  | item (index : Expr)
  /-- The arguments of a call. -/
  | call (args : List Expr)
  /-- The name after a dot. -/
  | attr (name : String)

end

instance : Inhabited Expr := ⟨.arr []⟩

/-! ## The variables of an expression -/

mutual

/-- The names that `e` mentions as variables, in the order of mention.  The callee of a call by
name is among them; the name of an attribute is not. -/
def Expr.variableNames : Expr → List String
  | .var name => [name]
  | .dec _ => []
  | .hex _ => []
  | .str _ => []
  | .plus lhs rhs => lhs.variableNames ++ rhs.variableNames
  | .qual base suffixes => base.variableNames ++ Suffix.variableNamesAll suffixes
  | .arr items => Expr.variableNamesAll items

/-- The names that a suffix mentions as variables. -/
def Suffix.variableNames : Suffix → List String
  | .item index => index.variableNames
  | .call args => Expr.variableNamesAll args
  | .attr _ => []

/-- The names that the expressions of a list mention, in order. -/
def Expr.variableNamesAll : List Expr → List String
  | [] => []
  | e :: es => e.variableNames ++ Expr.variableNamesAll es

/-- The names that the suffixes of a list mention, in order. -/
def Suffix.variableNamesAll : List Suffix → List String
  | [] => []
  | s :: ss => s.variableNames ++ Suffix.variableNamesAll ss

end

theorem Expr.variableNamesAll_eq_flatMap (es : List Expr) :
    Expr.variableNamesAll es = es.flatMap Expr.variableNames := by
  induction es with
  | nil => rfl
  | cons e es ih => simp [Expr.variableNamesAll, ih]

theorem Suffix.variableNamesAll_eq_flatMap (ss : List Suffix) :
    Suffix.variableNamesAll ss = ss.flatMap Suffix.variableNames := by
  induction ss with
  | nil => rfl
  | cons s ss ih => simp [Suffix.variableNamesAll, ih]

/-! ## Equality -/

mutual

/-- Whether two expressions are the same. -/
def Expr.same : Expr → Expr → Bool
  | .var a, .var b => a == b
  | .dec a, .dec b => a == b
  | .hex a, .hex b => a == b
  | .str a, .str b => a == b
  | .plus a b, .plus c d => a.same c && b.same d
  | .qual a ss, .qual b ts => a.same b && Suffix.sameAll ss ts
  | .arr as, .arr bs => Expr.sameAll as bs
  | _, _ => false

/-- Whether two suffixes are the same. -/
def Suffix.same : Suffix → Suffix → Bool
  | .item a, .item b => a.same b
  | .call as, .call bs => Expr.sameAll as bs
  | .attr a, .attr b => a == b
  | _, _ => false

/-- Whether two lists hold the same expressions in the same order. -/
def Expr.sameAll : List Expr → List Expr → Bool
  | [], [] => true
  | a :: as, b :: bs => a.same b && Expr.sameAll as bs
  | _, _ => false

/-- Whether two lists hold the same suffixes in the same order. -/
def Suffix.sameAll : List Suffix → List Suffix → Bool
  | [], [] => true
  | a :: as, b :: bs => a.same b && Suffix.sameAll as bs
  | _, _ => false

end

mutual

theorem Expr.same_iff : ∀ a b : Expr, a.same b = true ↔ a = b
  | .var a, b => by cases b <;> simp [Expr.same]
  | .dec a, b => by cases b <;> simp [Expr.same]
  | .hex a, b => by cases b <;> simp [Expr.same]
  | .str a, b => by cases b <;> simp [Expr.same]
  | .plus l r, b => by cases b <;> simp [Expr.same, Expr.same_iff l, Expr.same_iff r]
  | .qual a ss, b => by cases b <;> simp [Expr.same, Expr.same_iff a, Suffix.sameAll_iff ss]
  | .arr as, b => by cases b <;> simp [Expr.same, Expr.sameAll_iff as]

theorem Suffix.same_iff : ∀ a b : Suffix, a.same b = true ↔ a = b
  | .item a, b => by cases b <;> simp [Suffix.same, Expr.same_iff a]
  | .call as, b => by cases b <;> simp [Suffix.same, Expr.sameAll_iff as]
  | .attr a, b => by cases b <;> simp [Suffix.same]

theorem Expr.sameAll_iff : ∀ as bs : List Expr, Expr.sameAll as bs = true ↔ as = bs
  | [], bs => by cases bs <;> simp [Expr.sameAll]
  | a :: as, bs => by cases bs <;> simp [Expr.sameAll, Expr.same_iff a, Expr.sameAll_iff as]

theorem Suffix.sameAll_iff : ∀ ss ts : List Suffix, Suffix.sameAll ss ts = true ↔ ss = ts
  | [], ts => by cases ts <;> simp [Suffix.sameAll]
  | s :: ss, ts => by cases ts <;> simp [Suffix.sameAll, Suffix.same_iff s, Suffix.sameAll_iff ss]

end

/-- Equality of expressions is decidable. -/
instance Expr.decEq : DecidableEq Expr := fun a b =>
  decidable_of_iff _ (Expr.same_iff a b)

end Pegboard
