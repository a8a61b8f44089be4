import Pegboard.Grammar.Print
import Pegboard.Proofs.Token.Display

/-!
# Flat expressions

Suffixes bind to what stands before them, so an expression with suffixes that gets further ones in
parentheses of its own is written like one with all of them in a row.  Reading what was written
gives the latter, which is called flat.

## Main Definitions

* `Expr.Written`: an expression as reading a text may give it.
* `Expr.flat`: the flat expression that is written like a given one.

## Main Results

* `Expr.layout_flat`, `Expr.variableNames_flat`: the flat expression is written alike, and mentions
  the same variables.
* `Expr.flat_flat`: a flat expression is its own flat form.
-/

namespace Pegboard

/-! ## Written expressions -/

mutual

/-- Whether an expression is one that a text may give: its names and numbers can be written, and
where there are suffixes there is one at least. -/
def Expr.Written : Expr → Prop
  | .var name => Token.Writable (.ident name)
  | .dec digits => Token.Writable (.dec digits)
  | .hex digits => Token.Writable (.hex digits)
  | .str _ => True
  | .plus lhs rhs => lhs.Written ∧ rhs.Written
  | .qual base suffixes => suffixes ≠ [] ∧ base.Written ∧ Suffix.WrittenAll suffixes
  | .arr items => Expr.WrittenAll items

/-- Whether a suffix is one that a text may give. -/
def Suffix.Written : Suffix → Prop
  | .item index => index.Written
  | .call args => Expr.WrittenAll args
  | .attr name => Token.Writable (.ident name)

/-- Whether the expressions of a list are ones that a text may give. -/
def Expr.WrittenAll : List Expr → Prop
  | [] => True
  | e :: es => e.Written ∧ Expr.WrittenAll es

/-- Whether suffixes are ones that a text may give. -/
def Suffix.WrittenAll : List Suffix → Prop
  | [] => True
  | s :: ss => s.Written ∧ Suffix.WrittenAll ss

end

namespace Expr

/-! ## Putting suffixes behind an expression -/

/-- Suffixes put behind an expression, after those that it has. -/
def qualify (e : Expr) (ss : List Suffix) : Expr :=
  match ss, e with
  | [], e => e
  | s :: ss, .qual base own => .qual base (own ++ s :: ss)
  | s :: ss, e => .qual e (s :: ss)

@[simp] theorem qualify_nil (e : Expr) : e.qualify [] = e := by
  cases e <;> rfl

theorem qualify_qual (base : Expr) (own ss : List Suffix) :
    qualify (.qual base own) ss = .qual base (own ++ ss) := by
  cases ss with
  | nil => simp
  | cons s ss => rfl

theorem qualify_qualify (e : Expr) (ss ts : List Suffix) :
    (e.qualify ss).qualify ts = e.qualify (ss ++ ts) := by
  cases ss with
  | nil => simp
  | cons s ss =>
    cases e with
    | qual base own =>
      rw [qualify_qual, qualify_qual, qualify_qual, List.append_assoc]
    | _ => exact qualify_qual _ _ _

theorem layoutSuffixes_append (ss ts : List Suffix) :
    layoutSuffixes (ss ++ ts) = layoutSuffixes ss ++ layoutSuffixes ts := by
  induction ss with
  | nil => rfl
  | cons s ss ih => simp [layoutSuffixes, ih]

theorem isSum_qualify {e : Expr} {ss : List Suffix} (h : ss ≠ []) :
    (e.qualify ss).isSum = false := by
  cases ss with
  | nil => contradiction
  | cons s ss => cases e <;> rfl

theorem layout_qualify {e : Expr} {ss : List Suffix} (h : ss ≠ []) :
    (e.qualify ss).layout = e.operand e.layout ++ layoutSuffixes ss := by
  cases ss with
  | nil => contradiction
  | cons s ss =>
    cases e with
    | qual base own =>
      show layout (.qual base (own ++ s :: ss)) = layout (.qual base own) ++ layoutSuffixes (s :: ss)
      rw [layout, layoutSuffixes_append, layout, List.append_assoc]
    | _ => rfl

theorem variableNames_qualify (e : Expr) (ss : List Suffix) :
    (e.qualify ss).variableNames = e.variableNames ++ Suffix.variableNamesAll ss := by
  cases ss with
  | nil => simp [Suffix.variableNamesAll]
  | cons s ss =>
    cases e with
    | qual base own =>
      rw [qualify_qual]
      simp [variableNames, Suffix.variableNamesAll_eq_flatMap]
    | _ => rfl

end Expr

/-! ## Flat expressions -/

mutual

/-- The flat expression that is written like a given one. -/
def Expr.flat : Expr → Expr
  | .var name => .var name
  | .dec digits => .dec digits
  | .hex digits => .hex digits
  | .str text => .str text
  | .plus lhs rhs => .plus lhs.flat rhs.flat
  | .qual base suffixes => base.flat.qualify (Suffix.flatAll suffixes)
  | .arr items => .arr (Expr.flatAll items)

/-- A suffix with its expressions made flat. -/
def Suffix.flat : Suffix → Suffix
  | .item index => .item index.flat
  | .call args => .call (Expr.flatAll args)
  | .attr name => .attr name

/-- The expressions of a list made flat. -/
def Expr.flatAll : List Expr → List Expr
  | [] => []
  | e :: es => e.flat :: Expr.flatAll es

/-- Suffixes with their expressions made flat. -/
def Suffix.flatAll : List Suffix → List Suffix
  | [] => []
  | s :: ss => s.flat :: Suffix.flatAll ss

end

theorem Suffix.flatAll_ne_nil {ss : List Suffix} (h : ss ≠ []) : Suffix.flatAll ss ≠ [] := by
  cases ss with
  | nil => contradiction
  | cons s ss => simp [Suffix.flatAll]

theorem Suffix.flatAll_append (ss ts : List Suffix) :
    Suffix.flatAll (ss ++ ts) = Suffix.flatAll ss ++ Suffix.flatAll ts := by
  induction ss with
  | nil => rfl
  | cons s ss ih => simp [Suffix.flatAll, ih]

namespace Expr

theorem isSum_flat {e : Expr} (h : e.Written) : e.flat.isSum = e.isSum := by
  cases e with
  | qual base suffixes => exact isSum_qualify (Suffix.flatAll_ne_nil h.1)
  | _ => rfl

mutual

/-- The flat expression is written like the given one. -/
theorem layout_flat : ∀ e : Expr, e.Written → e.flat.layout = e.layout
  | .var _, _ => rfl
  | .dec _, _ => rfl
  | .hex _, _ => rfl
  | .str _, _ => rfl
  | .plus lhs rhs, h => by
    rw [flat, layout, layout, operand, operand, isSum_flat h.2, layout_flat lhs h.1,
      layout_flat rhs h.2]
  | .qual base suffixes, h => by
    rw [flat, layout_qualify (Suffix.flatAll_ne_nil h.1), layout, operand, operand,
      isSum_flat h.2.1, layout_flat base h.2.1, layoutSuffixes_flat suffixes h.2.2]
  | .arr items, h => by
    rw [flat, layout, layout, layoutAll_flat items h]

theorem layoutAll_flat : ∀ es : List Expr, WrittenAll es → layoutAll (flatAll es) = layoutAll es
  | [], _ => rfl
  | e :: es, h => by
    rw [flatAll, layoutAll, layoutAll, layout_flat e h.1, layoutAll_flat es h.2]

theorem layoutSuffix_flat : ∀ s : Suffix, s.Written → layoutSuffix s.flat = layoutSuffix s
  | .item index, h => by
    rw [Suffix.flat, layoutSuffix, layoutSuffix, layout_flat index h]
  | .call args, h => by
    rw [Suffix.flat, layoutSuffix, layoutSuffix, layoutAll_flat args h]
  | .attr _, _ => rfl

theorem layoutSuffixes_flat : ∀ ss : List Suffix, Suffix.WrittenAll ss →
    layoutSuffixes (Suffix.flatAll ss) = layoutSuffixes ss
  | [], _ => rfl
  | s :: ss, h => by
    rw [Suffix.flatAll, layoutSuffixes, layoutSuffixes, layoutSuffix_flat s h.1,
      layoutSuffixes_flat ss h.2]

end

mutual

/-- The flat expression mentions the same variables. -/
theorem variableNames_flat : ∀ e : Expr, e.flat.variableNames = e.variableNames
  | .var _ => rfl
  | .dec _ => rfl
  | .hex _ => rfl
  | .str _ => rfl
  | .plus lhs rhs => by
    rw [flat, variableNames, variableNames, variableNames_flat lhs, variableNames_flat rhs]
  | .qual base suffixes => by
    rw [flat, variableNames_qualify, variableNames, variableNames_flat base,
      variableNamesAll_flatSuffixes suffixes]
  | .arr items => by
    rw [flat, variableNames, variableNames, variableNamesAll_flatAll items]

theorem variableNamesAll_flatAll :
    ∀ es : List Expr, variableNamesAll (flatAll es) = variableNamesAll es
  | [] => rfl
  | e :: es => by
    rw [flatAll, variableNamesAll, variableNamesAll, variableNames_flat e,
      variableNamesAll_flatAll es]

theorem variableNames_flatSuffix : ∀ s : Suffix, s.flat.variableNames = s.variableNames
  | .item index => by
    rw [Suffix.flat, Suffix.variableNames, Suffix.variableNames, variableNames_flat index]
  | .call args => by
    rw [Suffix.flat, Suffix.variableNames, Suffix.variableNames, variableNamesAll_flatAll args]
  | .attr _ => rfl

theorem variableNamesAll_flatSuffixes : ∀ ss : List Suffix,
    Suffix.variableNamesAll (Suffix.flatAll ss) = Suffix.variableNamesAll ss
  | [] => rfl
  | s :: ss => by
    rw [Suffix.flatAll, Suffix.variableNamesAll, Suffix.variableNamesAll,
      variableNames_flatSuffix s, variableNamesAll_flatSuffixes ss]

end

theorem flat_qualify (e : Expr) (ss : List Suffix) :
    (e.qualify ss).flat = e.flat.qualify (Suffix.flatAll ss) := by
  cases ss with
  | nil => simp [Suffix.flatAll]
  | cons s ss =>
    cases e with
    | qual base own =>
      rw [qualify_qual, flat, Suffix.flatAll_append, flat, qualify_qualify]
    | _ => rfl

mutual

/-- A flat expression is its own flat form. -/
theorem flat_flat : ∀ e : Expr, e.flat.flat = e.flat
  | .var _ => rfl
  | .dec _ => rfl
  | .hex _ => rfl
  | .str _ => rfl
  | .plus lhs rhs => by rw [flat, flat, flat_flat lhs, flat_flat rhs]
  | .qual base suffixes => by
    rw [flat, flat_qualify, flat_flat base, flatSuffixes_flatSuffixes suffixes]
  | .arr items => by rw [flat, flat, flatAll_flatAll items]

theorem flatAll_flatAll : ∀ es : List Expr, flatAll (flatAll es) = flatAll es
  | [] => rfl
  | e :: es => by rw [flatAll, flatAll, flat_flat e, flatAll_flatAll es]

theorem flatSuffix_flatSuffix : ∀ s : Suffix, s.flat.flat = s.flat
  | .item index => by rw [Suffix.flat, Suffix.flat, flat_flat index]
  | .call args => by rw [Suffix.flat, Suffix.flat, flatAll_flatAll args]
  | .attr _ => rfl

theorem flatSuffixes_flatSuffixes : ∀ ss : List Suffix,
    Suffix.flatAll (Suffix.flatAll ss) = Suffix.flatAll ss
  | [] => rfl
  | s :: ss => by
    rw [Suffix.flatAll, Suffix.flatAll, flatSuffix_flatSuffix s, flatSuffixes_flatSuffixes ss]

end

end Expr

end Pegboard
