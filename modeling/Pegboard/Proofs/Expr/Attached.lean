import Pegboard.Expr.Eval
import Pegboard.Proofs.Expr.Flat
import Pegboard.Proofs.Expr.Reads

/-!
# The value of a flat expression

Evaluation goes through suffixes from left to right, and only the suffixes that stand in one row
with a call decide what is called.  So an expression has the value of its flat form, unless a call
stands behind an attribute that is in parentheses: `(x.len)()` is an error, and `x.len()` a call.

## Main Definitions

* `Expr.Attached`: no call stands behind an attribute in parentheses.
* `Flattened`: a result is that of the original, up to errors about attributes that are not called.

## Main Results

* `Expr.flattened_flat`: so is the value of the flat form of any expression.
* `Expr.eval_flat`: an expression without detached calls has the value of its flat form.
* `Expr.mem_variableNames`: the names that are looked up are mentioned.
-/

namespace Pegboard

/-! ## Attributes and calls -/

/-- Whether the last of some suffixes is an attribute. -/
def Suffix.endInAttribute : List Suffix → Bool
  | [] => false
  | [.attr _] => true
  | _ :: ss => endInAttribute ss

/-- Whether the first of some suffixes is a call. -/
def Suffix.startWithCall : List Suffix → Bool
  | .call _ :: _ => true
  | _ => false

/-- Whether the last suffix of an expression is an attribute. -/
def Expr.endsInAttribute : Expr → Bool
  | .qual _ suffixes => Suffix.endInAttribute suffixes
  | _ => false

mutual

/-- Whether no call in an expression stands behind an attribute in parentheses. -/
def Expr.Attached : Expr → Prop
  | .var _ => True
  | .dec _ => True
  | .hex _ => True
  | .str _ => True
  | .plus lhs rhs => lhs.Attached ∧ rhs.Attached
  | .qual base suffixes =>
    (base.endsInAttribute = true → Suffix.startWithCall suffixes = false) ∧ base.Attached ∧
      Suffix.AttachedAll suffixes
  | .arr items => Expr.AttachedAll items

/-- Whether no call in a suffix stands behind an attribute in parentheses. -/
def Suffix.Attached : Suffix → Prop
  | .item index => index.Attached
  | .call args => Expr.AttachedAll args
  | .attr _ => True

/-- Whether no call in the expressions of a list stands behind an attribute in parentheses. -/
def Expr.AttachedAll : List Expr → Prop
  | [] => True
  | e :: es => e.Attached ∧ Expr.AttachedAll es

/-- Whether no call in suffixes stands behind an attribute in parentheses. -/
def Suffix.AttachedAll : List Suffix → Prop
  | [] => True
  | s :: ss => s.Attached ∧ Suffix.AttachedAll ss

end

/-! ## Results up to attributes that are not called -/

/-- Whether the result of what was made flat is that of the original: the same, or any result in
place of the error about an attribute that is not called, where `detached` allows it. -/
def Flattened (detached : Prop) {α : Type} (flat original : Evaluated α) : Prop :=
  flat = original ∨ detached ∧ ∃ name, original = .error (.bareAttribute name)

namespace Flattened

variable {detached : Prop} {α β : Type}

@[refl] theorem refl (r : Evaluated α) : Flattened detached r r := .inl rfl

theorem trans {a b c : Evaluated α} (hab : Flattened detached a b) (hbc : Flattened detached b c) :
    Flattened detached a c := by
  rcases hbc with rfl | hbare
  · exact hab
  · exact .inr hbare

theorem bind {a b : Evaluated α} {f g : α → Evaluated β} (first : Flattened detached a b)
    (next : ∀ v, Flattened detached (f v) (g v)) : Flattened detached (a >>= f) (b >>= g) := by
  rcases first with rfl | ⟨allowed, name, rfl⟩
  · cases a with
    | error e => rfl
    | ok v => exact next v
  · exact .inr ⟨allowed, name, rfl⟩

theorem eq {a b : Evaluated α} (h : Flattened False a b) : a = b := h.resolve_right fun h => h.1

end Flattened

namespace Suffix

theorem startWithCall_flatAll (ss : List Suffix) :
    startWithCall (flatAll ss) = startWithCall ss := by
  rcases ss with _ | ⟨_ | _ | _, ss⟩ <;> rfl

theorem endInAttribute_cons {s : Suffix} {ss : List Suffix} (h : ss ≠ []) :
    endInAttribute (s :: ss) = endInAttribute ss := by
  cases ss with
  | nil => contradiction
  | cons t ss => rw [endInAttribute]; simp

/-- Suffixes end in an attribute if the later ones do. -/
theorem endInAttribute_of_later {s : Suffix} {ss : List Suffix} (h : endInAttribute ss = true) :
    endInAttribute (s :: ss) = true := by
  refine (endInAttribute_cons ?_).trans h
  rintro rfl
  contradiction

theorem endInAttribute_append {ss ts : List Suffix} (h : ts ≠ []) :
    endInAttribute (ss ++ ts) = endInAttribute ts := by
  induction ss with
  | nil => rfl
  | cons s ss ih => rw [List.cons_append, endInAttribute_cons (by simp [h]), ih]

theorem endInAttribute_flatAll (ss : List Suffix) :
    endInAttribute (flatAll ss) = endInAttribute ss := by
  induction ss with
  | nil => rfl
  | cons s ss ih =>
    cases ss with
    | nil => cases s <;> rfl
    | cons t ss =>
      rw [endInAttribute_cons (by simp), ← ih, flatAll]
      exact endInAttribute_cons (by simp [flatAll])

/-- Suffixes in a row do what the first and then the others do, unless a call is separated from its
attribute. -/
theorem flattened_append (scopes : Scopes) {detached : Prop} :
    ∀ (ss ts : List Suffix), (endInAttribute ss = true → startWithCall ts = true → detached) →
      ∀ value, Flattened detached (evalAll scopes value (ss ++ ts))
        (evalAll scopes value ss >>= fun v => evalAll scopes v ts)
  | [], _, _, _ => .refl _
  | .item index :: rest, ts, h, value => by
    have further := flattened_append scopes rest ts fun hrest => h (endInAttribute_of_later hrest)
    simp only [List.cons_append, evalAll, bind_assoc]
    exact .bind (.refl _) fun _ => .bind (.refl _) further
  | .call _ :: _, _, _, _ => .refl _
  | [.attr name], ts, h, value => by
    rcases ts with _ | ⟨_ | _ | _, ts⟩
    · exact .refl _
    · exact .refl _
    · -- Here the call has been put behind its attribute.
      exact .inr ⟨h rfl rfl, name, rfl⟩
    · exact .refl _
  | .attr _ :: .item _ :: _, _, _, _ => .refl _
  | .attr _ :: .attr _ :: _, _, _, _ => .refl _
  | .attr name :: .call args :: rest, ts, h, value => by
    have further := flattened_append scopes rest ts fun hrest =>
      h (endInAttribute_of_later (endInAttribute_of_later hrest))
    simp only [List.cons_append, evalAll, bind_assoc]
    exact .bind (.refl _) fun _ => .bind (.refl _) further

end Suffix

namespace Expr

/-! ## Expressions with suffixes -/

/-- Unless a name is called, the suffixes of an expression are applied to its value. -/
theorem eval_qual (scopes : Scopes) {base : Expr} {ss : List Suffix}
    (h : ∀ name, base = .var name → Suffix.startWithCall ss = false) :
    eval scopes (.qual base ss) = base.eval scopes >>= fun v => Suffix.evalAll scopes v ss := by
  rw [eval]
  rintro name args rest rfl rfl
  have := h name rfl
  contradiction

theorem eval_call (scopes : Scopes) (name : String) (args : List Expr) (rest : List Suffix) :
    eval scopes (.qual (.var name) (.call args :: rest)) = evalAll scopes args >>= fun vs =>
      scopes.call name vs >>= fun v => Suffix.evalAll scopes v rest := by
  rw [eval]

variable {detached : Prop}

/-- Further suffixes are applied to the value of an expression with suffixes. -/
theorem flattened_qual_append (scopes : Scopes) {base : Expr} {ss ts : List Suffix}
    (some : ss ≠ [])
    (h : Suffix.endInAttribute ss = true → Suffix.startWithCall ts = true → detached) :
    Flattened detached (eval scopes (.qual base (ss ++ ts)))
      (eval scopes (.qual base ss) >>= fun v => Suffix.evalAll scopes v ts) := by
  by_cases called : ∃ name args rest, base = .var name ∧ ss = .call args :: rest
  · obtain ⟨name, args, rest, rfl, rfl⟩ := called
    have further := Suffix.flattened_append scopes rest ts fun hrest =>
      h (Suffix.endInAttribute_of_later hrest)
    rw [List.cons_append, eval_call, eval_call]
    simp only [bind_assoc]
    exact .bind (.refl _) fun _ => .bind (.refl _) further
  · have apart : ∀ us : List Suffix, ∀ name, base = .var name →
        Suffix.startWithCall (ss ++ us) = false := by
      intro us name hname
      rcases ss with _ | ⟨_ | args | _, rest⟩
      · contradiction
      · rfl
      · exact absurd ⟨name, args, rest, hname, rfl⟩ called
      · rfl
    rw [eval_qual scopes (apart ts), eval_qual scopes (by simpa using apart []), bind_assoc]
    exact .bind (.refl _) (Suffix.flattened_append scopes ss ts h)

/-- With suffixes behind it, an expression has suffixes, and ends with the last of these. -/
theorem qualify_eq_qual (e : Expr) {ss : List Suffix} (some : ss ≠ []) :
    ∃ base own, e.qualify ss = .qual base own ∧ own ≠ [] ∧
      Suffix.endInAttribute own = Suffix.endInAttribute ss := by
  cases ss with
  | nil => contradiction
  | cons s ss =>
    cases e with
    | qual base own =>
      exact ⟨base, own ++ s :: ss, rfl, by simp, Suffix.endInAttribute_append (by simp)⟩
    | _ => exact ⟨_, s :: ss, rfl, by simp, rfl⟩

/-! ## Flat expressions -/

/-- The suffixes of a flat expression apply to the value of what stands before them, wherever that
needs parentheses or not. -/
theorem flattened_qualify (scopes : Scopes) {e : Expr} {ss : List Suffix} (some : ss ≠ [])
    (apart : ∀ name, e = .var name → Suffix.startWithCall ss = false)
    (inner : ∀ base own, e = .qual base own → own ≠ [] ∧
      (Suffix.endInAttribute own = true → Suffix.startWithCall ss = true → detached)) :
    Flattened detached (eval scopes (e.qualify ss))
      (e.eval scopes >>= fun v => Suffix.evalAll scopes v ss) := by
  cases e with
  | qual base own =>
    obtain ⟨hown, h⟩ := inner base own rfl
    rw [qualify_qual]
    exact flattened_qual_append scopes hown h
  | _ =>
    obtain ⟨s, ss, rfl⟩ := List.exists_cons_of_ne_nil some
    exact .inl (eval_qual scopes apart)

/-- The flat form of an expression ends in an attribute where the expression does. -/
theorem endInAttribute_of_flat {e base : Expr} {own : List Suffix} (w : e.Written)
    (h : e.flat = .qual base own) :
    own ≠ [] ∧ Suffix.endInAttribute own = e.endsInAttribute := by
  cases e with
  | qual base' ss =>
    obtain ⟨base'', own', hq, hown, hend⟩ :=
      qualify_eq_qual base'.flat (Suffix.flatAll_ne_nil w.1)
    rw [flat, hq] at h
    obtain ⟨-, rfl⟩ := Expr.qual.inj h
    exact ⟨hown, hend.trans (Suffix.endInAttribute_flatAll ss)⟩
  | _ => rw [flat] at h; contradiction

mutual

/-- The flat form of an expression has the value of the expression, unless that is an error about an
attribute that is not called, which takes a detached call. -/
theorem flattened_flat (scopes : Scopes) : ∀ e : Expr, e.Written → detached ∨ e.Attached →
    Flattened detached (e.flat.eval scopes) (e.eval scopes)
  | .var _, _, _ => .refl _
  | .dec _, _, _ => .refl _
  | .hex _, _, _ => .refl _
  | .str _, _, _ => .refl _
  | .plus lhs rhs, w, a => by
    have hlhs := flattened_flat scopes lhs w.1 (a.imp_right (·.1))
    have hrhs := flattened_flat scopes rhs w.2 (a.imp_right (·.2))
    rw [flat, eval, eval]
    exact hlhs.bind fun _ => hrhs.bind fun _ => .refl _
  | .arr items, w, a => by
    have hitems := flattened_flatAll scopes items w a
    rw [flat, eval, eval]
    exact hitems.bind fun _ => .refl _
  | .qual base suffixes, w, a => by
    have hbase := flattened_flat scopes base w.2.1 (a.imp_right (·.2.1))
    have hsuffixes := flattened_flatSuffixes scopes suffixes w.2.2 (a.imp_right (·.2.2))
    -- The name that is called has no value of its own, so a call by name is a case apart.
    by_cases called : ∃ name args rest, base = .var name ∧ suffixes = .call args :: rest
    · obtain ⟨name, args, rest, rfl, rfl⟩ := called
      have hargs := flattened_flatAll scopes args w.2.2.1 (a.imp_right (·.2.2.1))
      have hrest := flattened_flatSuffixes scopes rest w.2.2.2 (a.imp_right (·.2.2.2))
      show Flattened detached
        (eval scopes (.qual (.var name) (.call (flatAll args) :: Suffix.flatAll rest))) _
      rw [eval_call, eval_call]
      exact hargs.bind fun _ => .bind (.refl _) hrest
    · have apart : ∀ name, base = .var name → Suffix.startWithCall suffixes = false := by
        intro name hname
        rcases suffixes with _ | ⟨_ | args | _, rest⟩
        · rfl
        · rfl
        · exact absurd ⟨name, args, rest, hname, rfl⟩ called
        · rfl
      have hqualify : Flattened detached
          (eval scopes (base.flat.qualify (Suffix.flatAll suffixes)))
          (base.flat.eval scopes >>= fun v =>
            Suffix.evalAll scopes v (Suffix.flatAll suffixes)) := by
        refine flattened_qualify scopes (Suffix.flatAll_ne_nil w.1) (fun name hname => ?_)
          fun base' own hq => ?_
        · rw [Suffix.startWithCall_flatAll]
          cases base with
          | var other => exact apart other rfl
          | qual inner own =>
            obtain ⟨base', own', hq, -⟩ :=
              qualify_eq_qual inner.flat (Suffix.flatAll_ne_nil w.2.1.1)
            rw [flat, hq] at hname
            contradiction
          | _ => contradiction
        · obtain ⟨hown, hend⟩ := endInAttribute_of_flat w.2.1 hq
          refine ⟨hown, fun hattribute hcall => a.resolve_right fun attached => ?_⟩
          rw [Suffix.startWithCall_flatAll, attached.1 (hend ▸ hattribute)] at hcall
          contradiction
      rw [flat, eval_qual scopes apart]
      exact hqualify.trans (hbase.bind hsuffixes)

theorem flattened_flatAll (scopes : Scopes) : ∀ es : List Expr, WrittenAll es →
    detached ∨ AttachedAll es →
      Flattened detached (evalAll scopes (flatAll es)) (evalAll scopes es)
  | [], _, _ => .refl _
  | e :: es, w, a => by
    have hfirst := flattened_flat scopes e w.1 (a.imp_right (·.1))
    have hmore := flattened_flatAll scopes es w.2 (a.imp_right (·.2))
    rw [flatAll, evalAll, evalAll]
    exact hfirst.bind fun _ => hmore.bind fun _ => .refl _

theorem flattened_flatSuffixes (scopes : Scopes) : ∀ ss : List Suffix, Suffix.WrittenAll ss →
    detached ∨ Suffix.AttachedAll ss → ∀ value,
      Flattened detached (Suffix.evalAll scopes value (Suffix.flatAll ss))
        (Suffix.evalAll scopes value ss)
  | [], _, _, _ => .refl _
  | .item index :: rest, w, a, value => by
    have hindex := flattened_flat scopes index w.1 (a.imp_right (·.1))
    have hrest := flattened_flatSuffixes scopes rest w.2 (a.imp_right (·.2))
    simp only [Suffix.flatAll, Suffix.flat, Suffix.evalAll]
    exact hindex.bind fun _ => .bind (.refl _) hrest
  | .call _ :: _, _, _, _ => .refl _
  | [.attr _], _, _, _ => .refl _
  | .attr _ :: .item _ :: _, _, _, _ => .refl _
  | .attr _ :: .attr _ :: _, _, _, _ => .refl _
  | .attr name :: .call args :: rest, w, a, value => by
    have hargs := flattened_flatAll scopes args w.2.1 (a.imp_right (·.2.1))
    have hrest := flattened_flatSuffixes scopes rest w.2.2 (a.imp_right (·.2.2))
    simp only [Suffix.flatAll, Suffix.flat, Suffix.evalAll]
    exact hargs.bind fun _ => .bind (.refl _) hrest

end

/-- An expression without detached calls has the value of its flat form. -/
theorem eval_flat (scopes : Scopes) (e : Expr) (w : e.Written) (a : e.Attached) :
    e.flat.eval scopes = e.eval scopes := (flattened_flat scopes e w (.inr a)).eq

/-! ## Names -/

mutual

/-- The names that are looked up are mentioned. -/
theorem mem_variableNames {name : String} : ∀ e : Expr, name ∈ e.reads → name ∈ e.variableNames
  | .var _, h => h
  | .dec _, h => h
  | .hex _, h => h
  | .str _, h => h
  | .plus lhs rhs, h => by
    rw [variableNames, List.mem_append]
    rw [reads, List.mem_append] at h
    exact h.imp (mem_variableNames lhs) (mem_variableNames rhs)
  | .arr items, h => mem_variableNamesAll items h
  | .qual base suffixes, h => by
    have hbase := @mem_variableNames name base
    have hsuffixes := @mem_suffixNames name suffixes
    rw [variableNames, List.mem_append]
    by_cases called : ∃ callee args rest, base = .var callee ∧ suffixes = .call args :: rest
    · obtain ⟨callee, args, rest, rfl, rfl⟩ := called
      rw [reads, List.append_assoc, List.mem_append] at h
      refine h.imp (fun h => ?_) hsuffixes
      split at h
      · contradiction
      · exact h
    · rw [reads, List.mem_append] at h
      · exact h.imp hbase hsuffixes
      · exact fun callee args rest hb hs => called ⟨callee, args, rest, hb, hs⟩

theorem mem_variableNamesAll {name : String} : ∀ es : List Expr, name ∈ readsAll es →
    name ∈ variableNamesAll es
  | [], h => h
  | e :: es, h => by
    rw [variableNamesAll, List.mem_append]
    rw [readsAll, List.mem_append] at h
    exact h.imp (mem_variableNames e) (mem_variableNamesAll es)

theorem mem_suffixNames {name : String} : ∀ ss : List Suffix, name ∈ Suffix.readsAll ss →
    name ∈ Suffix.variableNamesAll ss
  | [], h => h
  | .item index :: rest, h => by
    rw [Suffix.variableNamesAll, List.mem_append]
    rw [Suffix.readsAll, List.mem_append] at h
    exact h.imp (mem_variableNames index) (mem_suffixNames rest)
  | .call args :: rest, h => by
    rw [Suffix.variableNamesAll, List.mem_append]
    rw [Suffix.readsAll, List.mem_append] at h
    exact h.imp (mem_variableNamesAll args) (mem_suffixNames rest)
  | .attr _ :: rest, h => mem_suffixNames rest h

end

end Expr

end Pegboard
