import Pegboard.Proofs.Grammar.Skeleton
import Pegboard.Proofs.Token.Rescan

/-!
# Printed rows can be scanned

Every row that is printed for an expression or a pattern is legible: its tokens are writable, and no
token runs on into the next one, nor into what follows the row unless that is a name or a number.
Points are the only symbols that run on, and one stands only before the name of an attribute.

## Main Results

* `Expr.legible_layout`, `Pattern.legible_layout`: rows of expressions and of patterns are legible.
-/

namespace Pegboard

namespace Piece

/-- Whether a piece is a name or a number. -/
def isWord : Piece → Bool
  | .token t => t.isWord
  | .blank => false

/-- Only a name or a number runs on into one, and only a point into a point. -/
theorem apart_of_not_isWord {x y : Piece} (hx : x ≠ .sym .dot) (hy : y.isWord = false) :
    x.apart y = true := by
  cases x with
  | blank => simp
  | token t =>
    cases y with
    | blank => simp
    | token u =>
      have ht : t ≠ .symbol .dot := fun h => hx (congrArg Piece.token h)
      have hu : u.isWord = false := hy
      simp [apart, hu, ht]

/-- A symbol other than a point does not run on. -/
theorem apart_of_sym {s : Symbol} (hs : s ≠ .dot) (y : Piece) : (sym s).apart y = true := by
  cases y with
  | blank => simp
  | token u => simp [apart, sym, Token.isWord, hs]

end Piece

namespace Layout

/-- Whether a row does not start with a name or a number. -/
def Separate (row : Layout) : Prop := ∀ y ∈ row.head?, y.isWord = false

/-- Whether a row is scanned to its tokens, whatever follows it other than a name or a number. -/
structure Legible (row : Layout) : Prop where
  spaced : ∀ {rest : Layout}, rest.Spaced → rest.Separate → (row ++ rest).Spaced
  writable : row.Writable

theorem writable_append {a b : Layout} (ha : a.Writable) (hb : b.Writable) :
    Writable (a ++ b) := by
  intro t ht
  rw [tokens_append, List.mem_append] at ht
  exact ht.elim (ha t) (hb t)

theorem legible_nil : Legible [] := ⟨fun h _ => h, fun _ h => nomatch h⟩

/-- A row without anything behind it. -/
theorem Legible.spaced_self {row : Layout} (h : row.Legible) : row.Spaced := by
  have hspaced : (row ++ []).Spaced := h.spaced trivial nofun
  rwa [List.append_nil] at hspaced

theorem Legible.append {a b : Layout} (ha : a.Legible) (hb : b.Legible) (separate : b.Separate) :
    Legible (a ++ b) := by
  refine ⟨fun {rest} hrest hsep => ?_, writable_append ha.writable hb.writable⟩
  rw [List.append_assoc]
  refine ha.spaced (hb.spaced hrest hsep) ?_
  cases b with
  | nil => exact hsep
  | cons y b => exact separate

theorem legible_token {t : Token} (ht : t.Writable) (hdot : t ≠ .symbol .dot) :
    Legible [.token t] := by
  refine ⟨fun {rest} hrest hsep => ⟨fun y hy => ?_, hrest⟩, fun u hu => ?_⟩
  · exact Piece.apart_of_not_isWord (fun h => hdot (Piece.token.inj h)) (hsep y hy)
  · obtain rfl : u = t := by simpa [tokens, Piece.token?] using hu
    exact ht

theorem Legible.sym_cons {row : Layout} (h : row.Legible) {s : Symbol} (hs : s ≠ .dot) :
    Legible (.sym s :: row) := by
  refine ⟨fun hrest hsep => ⟨fun y _ => Piece.apart_of_sym hs y, h.spaced hrest hsep⟩, ?_⟩
  intro t ht
  rcases List.mem_cons.1 (show t ∈ .symbol s :: tokens row from ht) with rfl | ht
  · trivial
  · exact h.writable t ht

theorem Legible.blank_cons {row : Layout} (h : row.Legible) : Legible (.blank :: row) :=
  ⟨fun hrest hsep => ⟨fun y _ => Piece.apart_blank_left y, h.spaced hrest hsep⟩, h.writable⟩

theorem legible_sym {s : Symbol} (hs : s ≠ .dot) : Legible [.sym s] := legible_nil.sym_cons hs

theorem separate_sym (s : Symbol) (row : Layout) : Separate (.sym s :: row) := by
  intro y hy
  obtain rfl : Piece.sym s = y := by simpa using hy
  rfl

theorem separate_blank (row : Layout) : Separate (.blank :: row) := by
  intro y hy
  obtain rfl : Piece.blank = y := by simpa using hy
  rfl

theorem Legible.between {row : Layout} (h : row.Legible) {opener closer : Symbol}
    (ho : opener ≠ .dot) (hc : closer ≠ .dot) : Legible (between opener closer row) :=
  (h.append (legible_sym hc) (separate_sym closer [])).sym_cons ho

theorem Legible.parens {row : Layout} (h : row.Legible) : Legible (parens row) :=
  h.between (by decide) (by decide)

/-- A row with a name behind it that a symbol separates. -/
theorem Legible.sym_name {row : Layout} (h : row.Legible) {s : Symbol} (hs : s ≠ .dot)
    {name : String} (hname : Token.Writable (.ident name)) :
    Legible (row ++ [.sym s, .name name]) :=
  h.append ((legible_token hname (by simp)).sym_cons hs) (separate_sym s _)

theorem legible_joined {separator : Layout} {rows : List Layout} (hrows : ∀ row ∈ rows, Legible row)
    (hsep : ∀ {row : Layout}, Legible row → Legible (separator ++ row))
    (hhead : ∀ row : Layout, Separate (separator ++ row)) : Legible (joined separator rows) := by
  induction rows with
  | nil => exact legible_nil
  | cons row rows ih =>
    have hrest := ih fun r hr => hrows r (.tail _ hr)
    cases rows with
    | nil => exact hrows row (.head _)
    | cons next rows =>
      rw [joined, List.append_assoc]
      · exact (hrows row (.head _)).append (hsep hrest) (hhead _)
      · simp

end Layout

open Layout

namespace Expr

theorem legible_operand {e : Expr} {row : Layout} (h : row.Legible) :
    (e.operand row).Legible := by
  unfold operand
  split
  · exact h.parens
  · exact h

theorem legible_list {rows : List Layout} (h : ∀ row ∈ rows, Layout.Legible row) :
    (Layout.joined separator rows).Legible :=
  legible_joined h (fun hrow => hrow.blank_cons.sym_cons (by decide)) fun _ => separate_sym _ _

mutual

/-- The row of an expression is legible. -/
theorem legible_layout : ∀ e : Expr, e.Written → e.layout.Legible
  | .var _, h => legible_token h (by simp)
  | .dec _, h => legible_token h (by simp)
  | .hex _, h => legible_token h (by simp)
  | .str _, _ => legible_token trivial (by simp)
  | .plus lhs rhs, h => by
    have hrhs : (rhs.operand rhs.layout).Legible := legible_operand (legible_layout rhs h.2)
    rw [layout, List.append_assoc]
    exact (legible_layout lhs h.1).append (hrhs.blank_cons.sym_cons (by decide)).blank_cons
      (separate_blank _)
  | .qual base suffixes, h => by
    rw [layout]
    refine (legible_operand (legible_layout base h.2.1)).append
      (legible_layoutSuffixes suffixes h.2.2) ?_
    rcases suffixes with _ | ⟨s, ss⟩
    · nofun
    · cases s <;> exact separate_sym _ _
  | .arr items, h => (legible_list (legible_layoutAll items h)).between (by decide) (by decide)

theorem legible_layoutAll : ∀ es : List Expr, WrittenAll es → ∀ row ∈ layoutAll es, row.Legible
  | [], _ => nofun
  | e :: es, h => List.forall_mem_cons.2 ⟨legible_layout e h.1, legible_layoutAll es h.2⟩

theorem legible_layoutSuffix : ∀ s : Suffix, s.Written → (layoutSuffix s).Legible
  | .item index, h => (legible_layout index h).between (by decide) (by decide)
  | .call args, h => (legible_list (legible_layoutAll args h)).parens
  | .attr name, h => by
    have hname : Legible [.name name] := legible_token h (by simp)
    refine ⟨fun hrest hsep => ⟨fun y hy => ?_, hname.spaced hrest hsep⟩, fun t ht => ?_⟩
    · obtain rfl : Piece.name name = y := by simpa using hy
      rfl
    · rcases List.mem_cons.1 (show t ∈ .symbol .dot :: tokens [.name name] from ht) with rfl | ht
      · trivial
      · exact hname.writable t ht

theorem legible_layoutSuffixes : ∀ ss : List Suffix, Suffix.WrittenAll ss →
    (layoutSuffixes ss).Legible
  | [], _ => legible_nil
  | s :: ss, h => by
    rw [layoutSuffixes]
    refine (legible_layoutSuffix s h.1).append (legible_layoutSuffixes ss h.2) ?_
    rcases ss with _ | ⟨s', ss⟩
    · nofun
    · cases s' <;> exact separate_sym _ _

end

end Expr

namespace Pattern

theorem legible_grouped {row : Layout} (h : row.Legible) (own least : Level) :
    (own.grouped least row).Legible := by
  unfold Level.grouped
  split
  · exact h.parens
  · exact h

theorem legible_joinTerms {terms : List (Bool × Layout)} (h : ∀ t ∈ terms, t.2.Legible) :
    (joinTerms terms).Legible := by
  induction terms with
  | nil => exact legible_nil
  | cons t terms ih =>
    have hrest := ih fun r hr => h r (.tail _ hr)
    obtain ⟨isAction, row⟩ := t
    have hrow : row.Legible := h _ (.head _)
    cases terms with
    | nil => exact hrow
    | cons next terms =>
      have hfirst : (if isAction && next.2.startsWithParen then row.parens else row).Legible := by
        split
        · exact hrow.parens
        · exact hrow
      rw [joinTerms, List.append_assoc]
      exact hfirst.append hrest.blank_cons (separate_blank _)

theorem legible_repeatable {p : Pattern} {row : Layout} (h : row.Legible) {s : Symbol}
    (hs : s ≠ .dot) : (repeatable p row ++ [Piece.sym s]).Legible := by
  have hrow : (repeatable p row).Legible := by
    unfold repeatable
    split
    · exact h.parens
    · exact h
  exact hrow.append (legible_sym hs) (separate_sym s [])

/-- The row of a pattern is legible. -/
theorem legible_layout {p : Pattern} (h : p.Everywhere WrittenNode) (least : Level) :
    (layout least p).Legible := by
  induction p using induction_parts generalizing least with
  | node p ih =>
    rw [everywhere_iff] at h
    have hparts : ∀ q ∈ p.parts, ∀ l, (layout l q).Legible := fun q hq l => ih q hq (h.2 q hq) l
    cases hsingle : p.printsAs? with
    | some q =>
      rw [layout_of_printsAs? hsingle]
      exact hparts q (of_printsAs? hsingle).1 least
    | none =>
      rw [layout_eq_grouped]
      refine legible_grouped ?_ _ _
      have hempty : Layout.Legible emptyGroup := legible_nil.parens
      have halts : ∀ alts : List Pattern, (∀ q ∈ alts, ∀ l, (layout l q).Legible) →
          Layout.Legible (.joined [.blank, .sym .pipe, .blank] (layoutAlts alts)) := by
        intro alts hq
        rw [layoutAlts_eq_map]
        refine legible_joined (fun row hrow => ?_)
          (fun hrow => (hrow.blank_cons.sym_cons (by decide)).blank_cons)
          fun row => separate_blank _
        obtain ⟨q, hmem, rfl⟩ := List.mem_map.1 hrow
        exact hq q hmem .seq
      have hterms : ∀ ps : List Pattern, (∀ q ∈ ps, ∀ l, (layout l q).Legible) →
          (joinTerms (layoutTerms ps)).Legible := by
        intro ps hq
        rw [layoutTerms_eq_map]
        refine legible_joinTerms fun t ht => ?_
        obtain ⟨q, hmem, rfl⟩ := List.mem_map.1 ht
        exact hq q hmem .term
      cases p with
      | choice alts =>
        rcases alts with _ | ⟨q, _ | ⟨r, rest⟩⟩
        · exact halts [] hparts
        · contradiction
        · exact halts (q :: r :: rest) hparts
      | seq ps =>
        rcases ps with _ | ⟨q, _ | ⟨r, rest⟩⟩
        · exact hterms [] hparts
        · contradiction
        · exact hterms (q :: r :: rest) hparts
      | scope rule ps =>
        rcases ps with _ | ⟨q, _ | ⟨r, rest⟩⟩
        · exact hterms [] hparts
        · contradiction
        · exact hterms (q :: r :: rest) hparts
      | leftrec q rule => contradiction
      | memo q rule => contradiction
      | label q name => exact (hparts q (.head _) .postfixed).sym_name (by decide) h.1
      | not q => exact (hparts q (.head _) .term).sym_cons (by decide)
      | opt q => exact legible_repeatable (hparts q (.head _) _) (by decide)
      | star q => exact legible_repeatable (hparts q (.head _) _) (by decide)
      | plus q => exact legible_repeatable (hparts q (.head _) _) (by decide)
      | paren q =>
        rw [layout]
        split
        · exact hempty
        · exact (hparts q (.head _) .choice).parens
      | capture q =>
        rw [layout_capture]
        exact (hparts q (.head _) .choice).between (by decide) (by decide)
      | pred e => exact (Expr.legible_layout e h.1).parens.sym_cons (by decide)
      | eq e =>
        exact ((Expr.legible_layout e h.1).between (by decide) (by decide)).sym_cons (by decide)
      | action e => exact (Expr.legible_layout e h.1).blank_cons.sym_cons (by decide)
      | apply name => exact legible_token h.1 (by simp)
      | lit text => exact legible_token trivial (by simp)
      | range lo hi =>
        have hhi : Layout.Legible [.token (.str (String.singleton hi))] :=
          legible_token trivial (by simp)
        exact (legible_token (t := .str (String.singleton lo)) trivial (by simp)).append
          (hhi.sym_cons (by decide)) (separate_sym _ _)
      | pos => exact (legible_sym (by decide)).sym_cons (by decide)
      | empty => exact hempty

end Pattern

end Pegboard
