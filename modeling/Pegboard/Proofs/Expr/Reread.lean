import Pegboard.Grammar.Parse
import Pegboard.Proofs.Expr.Flat
import Pegboard.Proofs.Token.Rescan

/-!
# Expressions read back

The row of an expression is read back as the flat form of the expression.  What is read from the
tokens of a row depends on what follows them: an expression goes on as far as it can, so what
follows must not be a suffix or a plus.

Sums and suffixes nest to the left, but are read from left to right.  So it is said what is read
from an expression and whatever follows it, in terms of what is read from the latter alone.

## Main Definitions

* `Parse.Reads`: what reading gives, and what it leaves.
* `Parse.noSuffix`: no suffix starts here.
* `Expr.Reread`: an expression is read back from its row.

## Main Results

* `Expr.reread`: every expression is read back.
* `Expr.reads_layout`: the same, where the expression ends.
-/

namespace Pegboard

namespace Layout

@[simp] theorem place_nil (pos : Nat) : place pos [] = [] := rfl

@[simp] theorem place_blank (pos : Nat) (row : Layout) :
    place pos (.blank :: row) = place (pos + 1) row := rfl

theorem place_token (pos : Nat) (t : Token) (row : Layout) :
    place pos (.token t :: row)
      = ⟨t, ⟨pos, pos + (Piece.token t).width⟩⟩ :: place (pos + (Piece.token t).width) row := rfl

/-- The tokens of a row between delimiters. -/
theorem place_between (opener closer : Symbol) (row : Layout) (pos : Nat)
    (ts : List PlacedToken) : ∃ inner span,
      inner = pos + (Piece.sym opener).width ∧ (between opener closer row).place pos ++ ts
        = ⟨.symbol opener, ⟨pos, inner⟩⟩ :: (row.place inner ++ ⟨.symbol closer, span⟩ :: ts) := by
  refine ⟨pos + (Piece.sym opener).width,
    ⟨pos + (Piece.sym opener).width + row.width,
      pos + (Piece.sym opener).width + row.width + (Piece.sym closer).width⟩, rfl, ?_⟩
  rw [between, Piece.sym, place_token, place_append, Piece.sym, place_token, place_nil,
    List.cons_append, List.append_assoc]
  rfl

end Layout

namespace Parse

/-! ## What reading gives -/

/-- Whether reading gives `a` and leaves the tokens `rest`. -/
def Reads {n : Nat} {α : Type} (r : Attempt (Reading n α)) (a : α) (rest : List PlacedToken) :
    Prop :=
  ∃ shorter, r = .ok ⟨a, rest, shorter⟩

section Reads

variable {n m : Nat} {α β : Type} {a : α} {b : β} {rest rest' : List PlacedToken}

theorem reads_pure {h : rest.length < n} :
    Reads (pure ⟨a, rest, h⟩ : Attempt (Reading n α)) a rest := ⟨h, rfl⟩

theorem reads_ok {h : rest.length < n} :
    Reads (.ok ⟨a, rest, h⟩ : Attempt (Reading n α)) a rest := ⟨h, rfl⟩

/-- Reading twice in a row. -/
theorem Reads.bind {r : Attempt (Reading n α)} {f : Reading n α → Attempt (Reading m β)}
    (first : Reads r a rest) (next : ∀ shorter, Reads (f ⟨a, rest, shorter⟩) b rest') :
    Reads (r >>= f) b rest' := by
  obtain ⟨shorter, rfl⟩ := first
  exact next shorter

end Reads

variable {stop : Nat} {ts rest : List PlacedToken}

theorem reads_closing (closer : Symbol) (span : Span) (opener : PlacedToken) :
    Reads (closing stop closer opener (⟨.symbol closer, span⟩ :: rest)) () rest := by
  refine ⟨Nat.lt_succ_self _, ?_⟩
  simp [closing]

/-! ## Where an expression ends -/

/-- Whether no suffix starts here. -/
def noSuffix : List PlacedToken → Bool
  | ⟨.symbol .openBracket, _⟩ :: _ => false
  | ⟨.symbol .openParen, _⟩ :: _ => false
  | ⟨.symbol .dot, _⟩ :: _ => false
  | _ => true

/-- Whether an expression cannot go on here. -/
def endsExpr : List PlacedToken → Bool
  | ⟨.symbol .plus, _⟩ :: _ => false
  | ts => noSuffix ts

theorem noSuffix_of_endsExpr (h : endsExpr ts = true) : noSuffix ts = true := by
  unfold endsExpr at h
  split at h
  · contradiction
  · exact h

theorem reads_suffixes_nil (h : noSuffix ts = true) : Reads (suffixes stop ts) [] ts := by
  rw [suffixes.eq_def]
  split
  · exact absurd h (by simp [noSuffix])
  · exact absurd h (by simp [noSuffix])
  · exact absurd h (by simp [noSuffix])
  · exact reads_ok

theorem reads_summands_self {lhs : Expr} (h : endsExpr ts = true) :
    Reads (summands stop lhs ts) lhs ts := by
  rw [summands.eq_def]
  split
  · exact absurd h (by simp [endsExpr])
  · exact reads_ok

/-- No expression starts with a closing delimiter. -/
theorem found_ne_of_reads_expr {e : Expr} {closer : Symbol}
    (hcloser : closer = .closeParen ∨ closer = .closeBracket) (h : Reads (expr stop ts) e rest) :
    (found stop ts).token ≠ .symbol closer := by
  intro hfound
  have herror : ∃ error, primary stop ts = .error error := by
    cases ts with
    | nil => simp [found] at hfound
    | cons t ts =>
      obtain ⟨token, span⟩ := t
      obtain rfl : token = .symbol closer := hfound
      rcases hcloser with rfl | rfl <;> exact ⟨_, by rw [primary.eq_def]⟩
  obtain ⟨error, herror⟩ := herror
  obtain ⟨shorter, h⟩ := h
  rw [expr, qual, herror] at h
  contradiction

end Parse

/-! ## Expressions from their parts -/

namespace Expr

open Parse

variable {stop : Nat}

/-- Whether an expression is read back from its row, together with whatever follows: further
summands of a sum, or suffixes of an operand. -/
structure Reread (stop : Nat) (e : Expr) : Prop where
  sum : ∀ (pos : Nat) {ts rest : List PlacedToken} {x : Expr}, noSuffix ts = true →
    Reads (summands stop e.flat ts) x rest → Reads (expr stop (e.layout.place pos ++ ts)) x rest
  operand : ∀ (pos : Nat) {ts rest : List PlacedToken} {ss : List Suffix},
    Reads (suffixes stop ts) ss rest →
      Reads (Parse.qual stop ((e.operand e.layout).place pos ++ ts)) (e.flat.qualify ss) rest

/-- What is read from the row of an expression where it ends. -/
theorem Reread.reads {e : Expr} (h : e.Reread stop) (pos : Nat) {ts : List PlacedToken}
    (ends : endsExpr ts = true) : Reads (expr stop (e.layout.place pos ++ ts)) e.flat ts :=
  h.sum pos (noSuffix_of_endsExpr ends) (reads_summands_self ends)

theorem reads_qual {us ts rest : List PlacedToken} {base : Expr} {ss : List Suffix}
    (hbase : Reads (primary stop us) base ts) (hss : Reads (suffixes stop ts) ss rest)
    (hqual : ∀ b own, base ≠ .qual b own) : Reads (Parse.qual stop us) (base.qualify ss) rest := by
  rw [Parse.qual]
  refine hbase.bind fun _ => hss.bind fun _ => ?_
  have heq : base.qualify ss = if ss.isEmpty then base else .qual base ss := by
    cases ss with
    | nil => simp
    | cons s ss =>
      cases base with
      | qual b own => exact absurd rfl (hqual b own)
      | _ => rfl
  rw [heq]
  exact reads_pure

/-- An expression that is no sum is read back if it is as an operand. -/
theorem reread_of_operand {e : Expr} (hsum : e.isSum = false)
    (h : ∀ (pos : Nat) {ts rest : List PlacedToken} {ss : List Suffix},
      Reads (suffixes stop ts) ss rest →
        Reads (Parse.qual stop (e.layout.place pos ++ ts)) (e.flat.qualify ss) rest) :
    e.Reread stop := by
  refine ⟨fun pos ts rest x hsuffix hx => ?_, fun pos ts rest ss hss => ?_⟩
  · have hnil : Reads (suffixes stop ts) [] ts := reads_suffixes_nil hsuffix
    have hqual := h pos hnil
    rw [qualify_nil] at hqual
    rw [expr]
    exact hqual.bind fun _ => hx.bind fun _ => reads_pure
  · rw [Expr.operand, hsum, if_neg Bool.false_ne_true]
    exact h pos hss

/-- An expression of a single token is read back. -/
theorem reread_of_token {e : Expr} {t : Token} (hsum : e.isSum = false) (hflat : e.flat = e)
    (hqual : ∀ b own, e ≠ .qual b own) (hlayout : e.layout = [.token t])
    (hread : ∀ span ts, Reads (primary stop (⟨t, span⟩ :: ts)) e ts) : e.Reread stop := by
  refine reread_of_operand hsum fun pos ts rest ss hss => ?_
  rw [hlayout, hflat]
  exact reads_qual (hread _ _) hss hqual

/-- A sum is read back if it is up to its further summands.  As an operand it is in parentheses. -/
theorem reread_of_sum {e : Expr} (hsum : e.isSum = true)
    (hqual : ∀ b own, e.flat ≠ .qual b own)
    (h : ∀ (pos : Nat) {ts rest : List PlacedToken} {x : Expr}, noSuffix ts = true →
      Reads (summands stop e.flat ts) x rest →
        Reads (expr stop (e.layout.place pos ++ ts)) x rest) : e.Reread stop := by
  refine ⟨h, fun pos ts rest ss hss => ?_⟩
  obtain ⟨inner, span, -, hplace⟩ := Layout.place_between .openParen .closeParen e.layout pos ts
  rw [Expr.operand, hsum, if_pos rfl, Layout.parens, hplace]
  refine reads_qual ?_ hss hqual
  rw [primary.eq_def]
  refine (h inner rfl (reads_summands_self rfl)).bind fun _ => ?_
  exact (reads_closing _ _ _).bind fun _ => reads_pure

/-! ## Lists of expressions -/

theorem joined_cons (separator row : Layout) (rows : List Layout) :
    Layout.joined separator (row :: rows) = row ++ rows.flatMap (separator ++ ·) := by
  induction rows generalizing row with
  | nil => simp [Layout.joined]
  | cons next rows ih =>
    rw [Layout.joined, ih, List.flatMap_cons]
    · simp
    · simp

theorem place_separator (pos : Nat) (row : Layout) : (separator ++ row).place pos
    = ⟨.symbol .comma, ⟨pos, pos + (Piece.sym .comma).width⟩⟩
      :: row.place (pos + (Piece.sym .comma).width + 1) := rfl

/-- The delimiters that close a list of expressions. -/
def closesList (closer : Symbol) : Prop := closer = .closeParen ∨ closer = .closeBracket

theorem endsExpr_further {closer : Symbol} (hcloser : closesList closer) (es : List Expr)
    (pos : Nat) (span : Span) (ts : List PlacedToken) :
    endsExpr (Layout.place pos ((layoutAll es).flatMap (separator ++ ·))
      ++ ⟨.symbol closer, span⟩ :: ts) = true := by
  cases es with
  | nil => rcases hcloser with rfl | rfl <;> rfl
  | cons e es => rfl

theorem reads_furtherExprs {closer : Symbol} (hcloser : closesList closer) {es : List Expr}
    (h : ∀ e ∈ es, e.Reread stop) (pos : Nat) (span : Span) (ts : List PlacedToken) :
    Reads (furtherExprs stop (Layout.place pos ((layoutAll es).flatMap (separator ++ ·))
      ++ ⟨.symbol closer, span⟩ :: ts)) (flatAll es) (⟨.symbol closer, span⟩ :: ts) := by
  induction es generalizing pos with
  | nil =>
    rw [furtherExprs.eq_def]
    rcases hcloser with rfl | rfl <;> exact reads_ok
  | cons e es ih =>
    have hmore := ih fun x hx => h x (.tail _ hx)
    rw [layoutAll, List.flatMap_cons, List.append_assoc, place_separator, List.cons_append,
      Layout.place_append, List.append_assoc, furtherExprs.eq_def]
    refine ((h e (.head _)).reads _ (endsExpr_further hcloser es _ _ _)).bind fun _ => ?_
    exact (hmore _).bind fun _ => reads_pure

/-- Expressions with commas between are read back up to what closes them. -/
theorem reads_exprs {closer : Symbol} (hcloser : closesList closer) {es : List Expr}
    (h : ∀ e ∈ es, e.Reread stop) (opener : PlacedToken) (pos : Nat) (span : Span)
    (ts : List PlacedToken) :
    Reads (exprs stop closer opener ((Layout.joined separator (layoutAll es)).place pos
      ++ ⟨.symbol closer, span⟩ :: ts)) (flatAll es) ts := by
  rw [exprs]
  cases es with
  | nil =>
    have hfound : (found stop (Layout.place pos (Layout.joined separator (layoutAll []))
        ++ ⟨.symbol closer, span⟩ :: ts)).token = .symbol closer := rfl
    rw [if_pos hfound]
    exact (reads_closing _ _ _).bind fun _ => reads_pure
  | cons e es =>
    rw [layoutAll, joined_cons, Layout.place_append, List.append_assoc]
    have hfirst := (h e (.head _)).reads pos (endsExpr_further hcloser es
      (pos + e.layout.width) span ts)
    rw [if_neg (found_ne_of_reads_expr hcloser hfirst)]
    refine hfirst.bind fun _ => ?_
    refine (reads_furtherExprs hcloser (fun x hx => h x (.tail _ hx)) _ _ _).bind fun _ => ?_
    exact (reads_closing _ _ _).bind fun _ => reads_pure

/-! ## All expressions -/

/-- Whether a suffix is read back from its row, together with the suffixes that follow. -/
def SuffixReread (stop : Nat) (s : Suffix) : Prop :=
  ∀ (pos : Nat) {ts rest : List PlacedToken} {ss : List Suffix}, Reads (suffixes stop ts) ss rest →
    Reads (suffixes stop ((layoutSuffix s).place pos ++ ts)) (s.flat :: ss) rest

theorem reads_suffixes {ss : List Suffix} (h : ∀ s ∈ ss, SuffixReread stop s) (pos : Nat)
    {ts rest : List PlacedToken} {more : List Suffix} (hmore : Reads (suffixes stop ts) more rest) :
    Reads (suffixes stop ((layoutSuffixes ss).place pos ++ ts)) (Suffix.flatAll ss ++ more)
      rest := by
  induction ss generalizing pos with
  | nil => exact hmore
  | cons s ss ih =>
    rw [layoutSuffixes, Layout.place_append, List.append_assoc]
    exact h s (.head _) pos (ih (fun x hx => h x (.tail _ hx)) _)

mutual

/-- Every expression is read back from its row. -/
theorem reread : ∀ e : Expr, e.Reread stop
  | .var name => reread_of_token rfl rfl (fun _ _ => nofun) rfl fun span ts => by
    rw [primary.eq_def]
    exact reads_ok
  | .dec digits => reread_of_token rfl rfl (fun _ _ => nofun) rfl fun span ts => by
    rw [primary.eq_def]
    exact reads_ok
  | .hex digits => reread_of_token rfl rfl (fun _ _ => nofun) rfl fun span ts => by
    rw [primary.eq_def]
    exact reads_ok
  | .str text => reread_of_token rfl rfl (fun _ _ => nofun) rfl fun span ts => by
    rw [primary.eq_def]
    exact reads_ok
  | .plus lhs rhs => by
    have hsum : ∀ (pos : Nat) {ts rest : List PlacedToken} {x : Expr}, noSuffix ts = true →
        Reads (summands stop (Expr.plus lhs rhs).flat ts) x rest →
          Reads (expr stop ((Expr.plus lhs rhs).layout.place pos ++ ts)) x rest := by
      intro pos ts rest x hsuffix hx
      rw [layout, List.append_assoc, Layout.place_append, List.append_assoc]
      refine (reread lhs).sum pos rfl ?_
      rw [summands.eq_def]
      have hnil : Reads (Parse.suffixes stop ts) [] ts := reads_suffixes_nil hsuffix
      have hrhs := fun next => (reread rhs).operand next hnil
      simp only [qualify_nil] at hrhs
      exact (hrhs _).bind fun _ => hx.bind fun _ => reads_pure
    exact reread_of_sum rfl (fun _ _ => nofun) hsum
  | .qual base suffixes => by
    refine reread_of_operand rfl fun pos ts rest ss hss => ?_
    have hsuffixes := reads_suffixes (rereadSuffixes suffixes)
      (pos + (base.operand base.layout).width) hss
    rw [layout, Layout.place_append, List.append_assoc, flat, qualify_qualify]
    exact (reread base).operand pos hsuffixes
  | .arr items => by
    refine reread_of_operand rfl fun pos ts rest ss hss => ?_
    refine reads_qual ?_ hss (fun _ _ => nofun)
    obtain ⟨inner, span, -, hplace⟩ := Layout.place_between .openBracket .closeBracket
      (.joined separator (layoutAll items)) pos ts
    rw [layout, hplace, primary.eq_def]
    exact (reads_exprs (.inr rfl) (rereadAll items) _ _ _ _).bind fun _ => reads_pure

theorem rereadAll : ∀ es : List Expr, ∀ e ∈ es, e.Reread stop
  | [] => fun _ h => nomatch h
  | e :: es => List.forall_mem_cons.2 ⟨reread e, rereadAll es⟩

theorem rereadSuffix : ∀ s : Suffix, SuffixReread stop s
  | .item index => by
    intro pos ts rest ss hss
    obtain ⟨inner, span, -, hplace⟩ := Layout.place_between .openBracket .closeBracket
      index.layout pos ts
    rw [layoutSuffix, hplace, suffixes.eq_def]
    refine ((reread index).reads inner rfl).bind fun _ => ?_
    exact (reads_closing _ _ _).bind fun _ => hss.bind fun _ => reads_pure
  | .call args => by
    intro pos ts rest ss hss
    obtain ⟨inner, span, -, hplace⟩ := Layout.place_between .openParen .closeParen
      (.joined separator (layoutAll args)) pos ts
    rw [layoutSuffix, Layout.parens, hplace, suffixes.eq_def]
    refine (reads_exprs (.inl rfl) (rereadAll args) _ _ _ _).bind fun _ => ?_
    exact hss.bind fun _ => reads_pure
  | .attr name => by
    intro pos ts rest ss hss
    rw [layoutSuffix, Piece.sym, Piece.name, Layout.place_token, Layout.place_token,
      Layout.place_nil, List.cons_append, List.cons_append, suffixes.eq_def]
    have hname : ∀ span, Reads (attributeName stop (⟨.ident name, span⟩ :: ts)) name ts :=
      fun _ => reads_ok
    exact (hname _).bind fun _ => hss.bind fun _ => reads_pure

theorem rereadSuffixes : ∀ ss : List Suffix, ∀ s ∈ ss, SuffixReread stop s
  | [] => fun _ h => nomatch h
  | s :: ss => List.forall_mem_cons.2 ⟨rereadSuffix s, rereadSuffixes ss⟩

end

end Expr

end Pegboard
