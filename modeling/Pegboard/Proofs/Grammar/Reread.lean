import Pegboard.Proofs.Grammar.Rows
import Pegboard.Proofs.Grammar.Skeleton

/-!
# Patterns read back

What a pattern prints as is read back as another pattern: the one that says with parentheses,
choices of one alternative and sequences of one term what the first says by its form.  This holds
only where every expression that is open at its end is kept apart from what follows.  An action in
front of a parenthesis is put in parentheses of its own when it is printed.  But what is asked is
whether the term is an action and whether the row of the next term by itself starts with a
parenthesis.  So a lookahead at an action is not guarded, and neither is an action in front of
another one that is put in parentheses.

## Main Definitions

* `Pattern.GuardedNode`: no expression in a sequence runs on into the term that follows.
* `Pattern.core`, `Pattern.reread`: the pattern that is read back.

## Main Results

* `Pattern.skeleton_reread`: what is read back has the same skeleton.
* `Pattern.everywhere_core`: what is so of all nodes of what is read back.
* `Pattern.rereads`: a guarded pattern is read back from its row.
-/

namespace Pegboard

namespace Level

/-- A pattern of a level, as a choice. -/
def toChoice : Level → Pattern → Pattern
  | .choice, q => q
  | .seq, q => .choice [q]
  | _, q => .choice [.seq [q]]

/-- What is read for a pattern of level `own` where the level `least` is asked for. -/
def lift (own least : Level) (q : Pattern) : Pattern :=
  match least, own with
  | .choice, own => own.toChoice q
  | .seq, .choice => .seq [.paren q]
  | .seq, .seq => q
  | .seq, _ => .seq [q]
  | least, own => if own.isLooser least then .paren (own.toChoice q) else q

theorem skeleton_lift (own least : Level) (q : Pattern) :
    (own.lift least q).skeleton = q.skeleton := by
  cases own <;> cases least <;> rfl

end Level

namespace Pattern

/-! ## Terms that run on -/

/-- Whether what a term prints as ends with an expression, which goes on as far as it can. -/
def openEnded : Pattern → Bool
  | .action _ => true
  | .not p => openEnded p
  | .choice [p] => openEnded p
  | .seq [p] => openEnded p
  | .scope _ [p] => openEnded p
  | .leftrec p _ => openEnded p
  | .memo p _ => openEnded p
  | _ => false

/-- Whether a term is put in parentheses when it is printed before others: it is an action, and the
row of the next term starts with a parenthesis. -/
def isParenthesized (p : Pattern) (later : List Pattern) : Bool :=
  isAction p && (later.head?.map fun q => (layout .term q).startsWithParen).getD false

/-- Whether no term of some runs on into those that follow: each that is open at its end is put in
parentheses, or the others do not start with one. -/
def GuardedTerms : List Pattern → Prop
  | [] => True
  | p :: later =>
    (p.openEnded = true → p.isParenthesized later = true ∨
      (joinTerms (layoutTerms later)).startsWithParen = false) ∧ GuardedTerms later

/-- Whether no term of a sequence or scope runs on into those that follow. -/
def GuardedNode (p : Pattern) : Prop := ∀ ps, p.terms? = some ps → GuardedTerms ps

/-! ## What is read back -/

/-- What is read for a pattern before a sign of repetition, where an action is in parentheses. -/
def coreRepeated (isAction : Bool) (own : Level) (q : Pattern) : Pattern :=
  if isAction then .paren (own.lift .choice q) else own.lift .prim q

mutual

/-- What is read for a pattern at its own level. -/
def core : Pattern → Pattern
  | .choice [p] => core p
  | .choice alts => .choice (coreAlternatives alts)
  | .seq [p] => core p
  | .seq ps => .seq (coreTerms ps)
  | .scope _ [p] => core p
  | .scope _ ps => .seq (coreTerms ps)
  | .leftrec p _ => core p
  | .memo p _ => core p
  | .label p name => .label (p.level.lift .postfixed (core p)) name
  | .not p => .not (p.level.lift .term (core p))
  | .opt p => .opt (coreRepeated p.isAction p.level (core p))
  | .star p => .star (coreRepeated p.isAction p.level (core p))
  | .plus p => .plus (coreRepeated p.isAction p.level (core p))
  | .paren p => .paren (if p.isEmpty then .choice [.empty] else p.level.lift .choice (core p))
  | .capture p => .capture (p.level.lift .choice (core p))
  | .pred e => .pred e.flat
  | .eq e => .eq e.flat
  | .action e => .action e.flat
  | .empty => .paren (.choice [.empty])
  | .apply name => .apply name
  | .lit text => .lit text
  | .range lo hi => .range lo hi
  | .pos => .pos

/-- What is read for alternatives. -/
def coreAlternatives : List Pattern → List Pattern
  | [] => []
  | p :: ps => p.level.lift .seq (core p) :: coreAlternatives ps

/-- What is read for terms. -/
def coreTerms : List Pattern → List Pattern
  | [] => []
  | p :: ps =>
    (if p.isParenthesized ps then .paren (p.level.lift .choice (core p))
      else p.level.lift .term (core p)) :: coreTerms ps

end

/-- What is read for a pattern where a level is asked for. -/
def reread (least : Level) (p : Pattern) : Pattern := p.level.lift least p.core

theorem coreAlternatives_eq_map (ps : List Pattern) :
    coreAlternatives ps = ps.map (reread .seq) := by
  induction ps with
  | nil => rfl
  | cons p ps ih => rw [coreAlternatives, ih, List.map_cons, reread]

theorem skeleton_paren_lift (own least : Level) (q : Pattern) :
    (Pattern.paren (own.lift least q)).skeleton = q.skeleton :=
  Level.skeleton_lift own least q

theorem skeleton_coreRepeated (isAction : Bool) (own : Level) (q : Pattern) :
    (coreRepeated isAction own q).skeleton = q.skeleton := by
  unfold coreRepeated
  split
  · exact skeleton_paren_lift _ _ _
  · exact Level.skeleton_lift _ _ _

mutual

/-- What is read for a pattern has the same skeleton. -/
theorem skeleton_core : ∀ p : Pattern, p.core.skeleton = p.skeleton
  | .choice [] => rfl
  | .choice [p] => skeleton_core p
  | .choice (p :: q :: ps) => by
    rw [core]
    · exact skeleton_choice_congr (skeleton_coreAlternatives (p :: q :: ps))
    · simp
  | .seq [] => rfl
  | .seq [p] => skeleton_core p
  | .seq (p :: q :: ps) => by
    rw [core]
    · exact skeleton_seq_congr (skeleton_coreTerms (p :: q :: ps))
    · simp
  | .scope _ [] => rfl
  | .scope _ [p] => skeleton_core p
  | .scope rule (p :: q :: ps) => by
    rw [core]
    · rw [skeleton_scope]
      exact skeleton_seq_congr (skeleton_coreTerms (p :: q :: ps))
    · simp
  | .leftrec p _ => skeleton_core p
  | .memo p _ => skeleton_core p
  | .label p name => by
    rw [core, skeleton_eq, skeleton_eq (.label p name), mapParts, mapParts, Level.skeleton_lift,
      skeleton_core p]
  | .not p => by
    rw [core, skeleton_eq, skeleton_eq (.not p), mapParts, mapParts, Level.skeleton_lift,
      skeleton_core p]
  | .opt p => by
    rw [core, skeleton_eq, skeleton_eq (.opt p), mapParts, mapParts, skeleton_coreRepeated,
      skeleton_core p]
  | .star p => by
    rw [core, skeleton_eq, skeleton_eq (.star p), mapParts, mapParts, skeleton_coreRepeated,
      skeleton_core p]
  | .plus p => by
    rw [core, skeleton_eq, skeleton_eq (.plus p), mapParts, mapParts, skeleton_coreRepeated,
      skeleton_core p]
  | .paren p => by
    rw [core, skeleton_paren, skeleton_paren]
    split
    · next h => exact (skeleton_of_isEmpty h).symm
    · rw [Level.skeleton_lift, skeleton_core p]
  | .capture p => by
    rw [core, skeleton_eq, skeleton_eq (.capture p), mapParts, mapParts, Level.skeleton_lift,
      skeleton_core p]
  | .pred e => congrArg Pattern.pred (Expr.flat_flat e)
  | .eq e => congrArg Pattern.eq (Expr.flat_flat e)
  | .action e => congrArg Pattern.action (Expr.flat_flat e)
  | .empty => rfl
  | .apply _ => rfl
  | .lit _ => rfl
  | .range _ _ => rfl
  | .pos => rfl

theorem skeleton_coreAlternatives : ∀ ps : List Pattern,
    (coreAlternatives ps).map skeleton = ps.map skeleton
  | [] => rfl
  | p :: ps => by
    rw [coreAlternatives, List.map_cons, List.map_cons, Level.skeleton_lift, skeleton_core p,
      skeleton_coreAlternatives ps]

theorem skeleton_coreTerms : ∀ ps : List Pattern,
    (coreTerms ps).map skeleton = ps.map skeleton
  | [] => rfl
  | p :: ps => by
    have hterm : (if p.isParenthesized ps then Pattern.paren (p.level.lift .choice p.core)
        else p.level.lift .term p.core).skeleton = p.skeleton := by
      split
      · rw [skeleton_paren_lift, skeleton_core p]
      · rw [Level.skeleton_lift, skeleton_core p]
    rw [coreTerms, List.map_cons, List.map_cons, hterm, skeleton_coreTerms ps]

end

/-- What is read back has the same skeleton. -/
theorem skeleton_reread (least : Level) (p : Pattern) :
    (p.reread least).skeleton = p.skeleton := by
  rw [reread, Level.skeleton_lift, skeleton_core]

/-! ## All nodes of what is read back -/

theorem core_of_printsAs? {p q : Pattern} (h : p.printsAs? = some q) :
    p.core = q.core ∧ p.openEnded = q.openEnded := by
  unfold printsAs? at h
  split at h <;> simp only [Option.some.injEq, reduceCtorEq] at h
  all_goals
    subst h
    exact ⟨rfl, rfl⟩

/-- Whether something is so of all nodes with flat expressions, but for sequences of several
terms. -/
structure OfTerms (Q : Pattern → Prop) : Prop where
  other : ∀ q : Pattern, q.terms? = none → q.flatNode = q → Q q
  single : ∀ q : Pattern, Q (.seq [q])

section Nodes

variable {P Q : Pattern → Prop} (ofTerms : OfTerms Q)
include ofTerms

theorem everywhere_toChoice {own : Level} {q : Pattern} (h : q.Everywhere Q) :
    (own.toChoice q).Everywhere Q := by
  have group : (seq [q]).Everywhere Q := everywhere_around (ofTerms.single q) rfl h
  cases own with
  | choice => exact h
  | seq => exact everywhere_around (ofTerms.other _ rfl rfl) rfl h
  | term | postfixed | prim => exact everywhere_around (ofTerms.other _ rfl rfl) rfl group

theorem everywhere_lift {own least : Level} {q : Pattern} (h : q.Everywhere Q) :
    (own.lift least q).Everywhere Q := by
  have looser : (if own.isLooser least then paren (own.toChoice q) else q).Everywhere Q := by
    split
    · exact everywhere_around (ofTerms.other _ rfl rfl) rfl (everywhere_toChoice ofTerms h)
    · exact h
  cases least with
  | choice => exact everywhere_toChoice ofTerms h
  | seq =>
    cases own with
    | choice =>
      exact everywhere_around (ofTerms.single _) rfl
        (everywhere_around (ofTerms.other _ rfl rfl) rfl h)
    | seq => exact h
    | term | postfixed | prim => exact everywhere_around (ofTerms.single _) rfl h
  | term | postfixed | prim => exact looser

theorem everywhere_coreRepeated {isAction : Bool} {own : Level} {q : Pattern}
    (h : q.Everywhere Q) : (coreRepeated isAction own q).Everywhere Q := by
  unfold coreRepeated
  split
  · exact everywhere_around (ofTerms.other _ rfl rfl) rfl (everywhere_lift ofTerms h)
  · exact everywhere_lift ofTerms h

theorem everywhere_coreTerms {ps : List Pattern} (h : ∀ p ∈ ps, p.core.Everywhere Q) :
    ∀ q ∈ coreTerms ps, q.Everywhere Q := by
  induction ps with
  | nil => exact fun _ hq => by contradiction
  | cons p ps ih =>
    rw [coreTerms]
    refine List.forall_mem_cons.2 ⟨?_, ih fun q hq => h q (.tail _ hq)⟩
    split
    · exact everywhere_around (ofTerms.other _ rfl rfl) rfl
        (everywhere_lift ofTerms (h p (.head _)))
    · exact everywhere_lift ofTerms (h p (.head _))

/-- What is read back puts in nothing but groups, and sequences in the place of sequences. -/
theorem everywhere_core (terms : ∀ (p : Pattern) (ps : List Pattern), p.terms? = some ps → P p →
    Q (.seq (coreTerms ps))) {p : Pattern} (h : p.Everywhere P) : p.core.Everywhere Q := by
  induction p using induction_parts with
  | node p ih =>
    rw [everywhere_iff] at h
    have parts : ∀ q ∈ p.parts, q.core.Everywhere Q := fun q hq => ih q hq (h.2 q hq)
    have around {q r : Pattern} (only : q.parts = [r]) (node : q.terms? = none)
        (flat : q.flatNode = q) (hr : r.Everywhere Q) : q.Everywhere Q :=
      everywhere_around (ofTerms.other q node flat) only hr
    have leaf {q : Pattern} (none : q.parts = []) (node : q.terms? = Option.none)
        (flat : q.flatNode = q) : q.Everywhere Q := everywhere_leaf (ofTerms.other q node flat) none
    cases hsingle : p.printsAs? with
    | some q =>
      rw [(core_of_printsAs? hsingle).1]
      exact parts q (of_printsAs? hsingle).1
    | none =>
      cases p with
      | choice alts =>
        have alternatives : ∀ q ∈ coreAlternatives alts, q.Everywhere Q := by
          rw [coreAlternatives_eq_map]
          intro q hq
          obtain ⟨r, hr, rfl⟩ := List.mem_map.1 hq
          exact everywhere_lift ofTerms (parts r hr)
        rw [core]
        · exact everywhere_iff.2 ⟨ofTerms.other _ rfl rfl, alternatives⟩
        · rintro r rfl
          contradiction
      | seq ps =>
        rw [core]
        · exact everywhere_iff.2 ⟨terms _ _ rfl h.1, everywhere_coreTerms ofTerms parts⟩
        · rintro r rfl
          contradiction
      | scope rule ps =>
        rw [core]
        · exact everywhere_iff.2 ⟨terms _ _ rfl h.1, everywhere_coreTerms ofTerms parts⟩
        · rintro r rfl
          contradiction
      | leftrec q rule => contradiction
      | memo q rule => contradiction
      | label q name => exact around rfl rfl rfl (everywhere_lift ofTerms (parts q (.head _)))
      | not q => exact around rfl rfl rfl (everywhere_lift ofTerms (parts q (.head _)))
      | opt q => exact around rfl rfl rfl (everywhere_coreRepeated ofTerms (parts q (.head _)))
      | star q => exact around rfl rfl rfl (everywhere_coreRepeated ofTerms (parts q (.head _)))
      | plus q => exact around rfl rfl rfl (everywhere_coreRepeated ofTerms (parts q (.head _)))
      | paren q =>
        refine around rfl rfl rfl ?_
        split
        · exact around rfl rfl rfl (leaf rfl rfl rfl)
        · exact everywhere_lift ofTerms (parts q (.head _))
      | capture q => exact around rfl rfl rfl (everywhere_lift ofTerms (parts q (.head _)))
      | empty => exact around rfl rfl rfl (around rfl rfl rfl (leaf rfl rfl rfl))
      | pred e => exact leaf rfl rfl (congrArg Pattern.pred (Expr.flat_flat e))
      | eq e => exact leaf rfl rfl (congrArg Pattern.eq (Expr.flat_flat e))
      | action e => exact leaf rfl rfl (congrArg Pattern.action (Expr.flat_flat e))
      | _ => exact leaf rfl rfl rfl

end Nodes

end Pattern

/-! ## Rows at all levels -/

/-- A row of level `own` is read back as `q` where any level is asked for, in parentheses if it must
be.  The flags tell whether it is open at its end as a term, and without parentheses. -/
structure RereadRow (eof : Nat) (own : Level) (ended action : Bool) (row : Layout) (q : Pattern) :
    Prop where
  starts : ∀ least, Row.Starts (own.grouped least row)
  choice : Row.Choice eof (own.grouped .choice row) (own.lift .choice q)
  alternative : Row.Alternative eof (own.grouped .seq row) (own.lift .seq q)
  term : Row.Term eof ended (own.grouped .term row) (own.lift .term q)
  postfixed : Row.Postfixed eof action (own.grouped .postfixed row) (own.lift .postfixed q)
  prim : Row.Prim eof action (own.grouped .prim row) (own.lift .prim q)

namespace RereadRow

variable {eof : Nat} {opened ended : Bool} {row : Layout} {q : Pattern}

theorem of_prim (h : Row.Prim eof opened row q) : RereadRow eof .prim opened opened row q where
  starts := fun least => by cases least <;> exact h.toStarts
  choice := (h.postfixed.term.terms.alternative (by simp)).choice
  alternative := h.postfixed.term.terms.alternative (by simp)
  term := h.postfixed.term
  postfixed := h.postfixed
  prim := h

theorem of_postfixed (h : Row.Postfixed eof false row q) :
    RereadRow eof .postfixed false false row q where
  starts := fun least => by
    cases least
    case prim => exact Row.starts_of_symbol _ (by simp)
    all_goals exact h.toStarts
  choice := (h.term.terms.alternative (by simp)).choice
  alternative := h.term.terms.alternative (by simp)
  term := h.term
  postfixed := h
  prim := Row.Choice.parens (h.term.terms.alternative (by simp)).choice

theorem of_term (h : Row.Term eof ended row q) : RereadRow eof .term ended false row q :=
  have hchoice : Row.Choice eof row (.choice [.seq [q]]) :=
    (h.terms.alternative (by simp)).choice
  { starts := fun least => by
      cases least
      case postfixed => exact Row.starts_of_symbol _ (by simp)
      case prim => exact Row.starts_of_symbol _ (by simp)
      all_goals exact h.toStarts
    choice := hchoice
    alternative := h.terms.alternative (by simp)
    term := h
    postfixed := hchoice.parens.postfixed
    prim := hchoice.parens }

/-- A closed row in parentheses is a term, whatever is asked of rows that are open. -/
theorem of_alternative (h : Row.Alternative eof row q) (hstarts : Row.Starts row) :
    RereadRow eof .seq false false row q :=
  have hchoice : Row.Choice eof row (.choice [q]) := h.choice
  { starts := fun least => by
      cases least
      case choice => exact hstarts
      case seq => exact hstarts
      all_goals exact Row.starts_of_symbol _ (by simp)
    choice := hchoice
    alternative := h
    term := hchoice.parens.postfixed.term
    postfixed := hchoice.parens.postfixed
    prim := hchoice.parens }

theorem of_choice (h : Row.Choice eof row q) (hstarts : Row.Starts row) :
    RereadRow eof .choice false false row q where
  starts := fun least => by
    cases least
    case choice => exact hstarts
    all_goals exact Row.starts_of_symbol _ (by simp)
  choice := h
  alternative := h.parens.postfixed.term.terms.alternative (by simp)
  term := h.parens.postfixed.term
  postfixed := h.parens.postfixed
  prim := h.parens

end RereadRow

namespace Pattern

/-! ## All patterns -/

variable {eof : Nat}

/-- Whether a pattern is read back from its row where any level is asked for. -/
def Rereads (eof : Nat) (p : Pattern) : Prop :=
  RereadRow eof p.level p.openEnded p.isAction (layout .choice p) p.core

theorem Rereads.starts {p : Pattern} (h : p.Rereads eof) (least : Level) :
    Row.Starts (layout least p) := by
  rw [layout_eq_grouped]
  exact RereadRow.starts h least

theorem Rereads.choice {p : Pattern} (h : p.Rereads eof) :
    Row.Choice eof (layout .choice p) (p.reread .choice) := by
  rw [layout_eq_grouped]
  exact RereadRow.choice h

theorem Rereads.alternative {p : Pattern} (h : p.Rereads eof) :
    Row.Alternative eof (layout .seq p) (p.reread .seq) := by
  rw [layout_eq_grouped]
  exact RereadRow.alternative h

theorem Rereads.term {p : Pattern} (h : p.Rereads eof) :
    Row.Term eof p.openEnded (layout .term p) (p.reread .term) := by
  rw [layout_eq_grouped]
  exact RereadRow.term h

theorem Rereads.postfixed {p : Pattern} (h : p.Rereads eof) :
    Row.Postfixed eof p.isAction (layout .postfixed p) (p.reread .postfixed) := by
  rw [layout_eq_grouped]
  exact RereadRow.postfixed h

theorem Rereads.prim {p : Pattern} (h : p.Rereads eof) :
    Row.Prim eof p.isAction (layout .prim p) (p.reread .prim) := by
  rw [layout_eq_grouped]
  exact RereadRow.prim h

/-- A pattern before a sign of repetition is read back, for an action is in parentheses there. -/
theorem Rereads.repeatable {p : Pattern} (h : p.Rereads eof) :
    Row.Prim eof false (repeatable p (layout (innerLevel p) p))
      (coreRepeated p.isAction p.level p.core) := by
  have hprim := h.prim
  unfold Pattern.repeatable innerLevel coreRepeated
  cases haction : p.isAction with
  | true => exact h.choice.parens
  | false =>
    rw [haction] at hprim
    exact hprim

theorem level_of_isAction {p : Pattern} (h : p.isAction = true) : p.level = .prim := by
  induction p using induction_parts with
  | node p ih =>
    cases hsingle : p.printsAs? with
    | some q =>
      obtain ⟨hmem, hlevel, haction, -⟩ := of_printsAs? hsingle
      rw [hlevel]
      exact ih q hmem (haction ▸ h)
    | none =>
      cases p with
      | action e => rfl
      | choice alts =>
        rcases alts with _ | ⟨q, _ | ⟨r, rest⟩⟩ <;> contradiction
      | seq ps =>
        rcases ps with _ | ⟨q, _ | ⟨r, rest⟩⟩ <;> contradiction
      | scope rule ps =>
        rcases ps with _ | ⟨q, _ | ⟨r, rest⟩⟩ <;> contradiction
      | _ => contradiction

theorem joinTerms_layoutTerms (p q : Pattern) (ps : List Pattern) :
    joinTerms (layoutTerms (p :: q :: ps))
      = (if p.isParenthesized (q :: ps) then (layout .term p).parens else layout .term p)
        ++ [.blank] ++ joinTerms (layoutTerms (q :: ps)) := rfl

/-- The terms of a sequence are read back if each is, and none runs on into the others. -/
theorem terms_joinTerms (p : Pattern) (ps : List Pattern) (h : ∀ q ∈ p :: ps, q.Rereads eof)
    (guarded : GuardedTerms (p :: ps)) :
    Row.Terms eof (joinTerms (layoutTerms (p :: ps))) (coreTerms (p :: ps)) := by
  induction ps generalizing p with
  | nil =>
    have hterms : coreTerms [p] = [p.reread .term] := by
      simp [coreTerms, isParenthesized, reread]
    rw [hterms]
    exact (h p (.head _)).term.terms
  | cons q ps ih =>
    have hmore := ih q (fun r hr => h r (.tail _ hr)) guarded.2
    rw [joinTerms_layoutTerms, coreTerms]
    cases hparens : p.isParenthesized (q :: ps) with
    | true =>
      have haction : p.isAction = true := by
        rw [isParenthesized, Bool.and_eq_true] at hparens
        exact hparens.1
      have hrow : layout .term p = layout .choice p := by
        rw [layout_eq_grouped, level_of_isAction haction]
        rfl
      have hterm := (h p (.head _)).choice.parens.postfixed.term
      rw [if_pos rfl, if_pos rfl, hrow]
      exact hmore.cons hterm nofun
    | false =>
      refine hmore.cons (h p (.head _)).term fun hopened => ?_
      exact (guarded.1 hopened).resolve_left (by rw [hparens]; decide)

/-- Alternatives start like the first of them. -/
theorem starts_joined {row : Layout} (rows : List Layout) (h : Row.Starts row) :
    Row.Starts (.joined [.blank, .sym .pipe, .blank] (row :: rows)) := by
  rw [Expr.joined_cons]
  refine h.append fun {pos ts} hts => ?_
  cases rows with
  | nil => exact hts
  | cons next rows => exact Row.followsPrim_of_atAltEnd rfl

/-- A guarded pattern is read back from its row. -/
theorem rereads {p : Pattern} (filled : p.Everywhere FilledNode)
    (guarded : p.Everywhere GuardedNode) : p.Rereads eof := by
  induction p using induction_parts with
  | node p ih =>
    rw [everywhere_iff] at filled guarded
    have hparts : ∀ q ∈ p.parts, q.Rereads eof :=
      fun q hq => ih q hq (filled.2 q hq) (guarded.2 q hq)
    cases hsingle : p.printsAs? with
    | some q =>
      obtain ⟨hmem, hlevel, haction, -⟩ := of_printsAs? hsingle
      obtain ⟨hcore, hopen⟩ := core_of_printsAs? hsingle
      unfold Rereads
      rw [hlevel, haction, hcore, hopen, layout_of_printsAs? hsingle]
      exact hparts q hmem
    | none =>
      cases p with
      | choice alts =>
        rcases alts with _ | ⟨q, _ | ⟨r, rest⟩⟩
        · exact absurd rfl filled.1
        · contradiction
        · have hchoice := Row.choice_joined q (r :: rest) fun x hx => (hparts x hx).alternative
          have hstarts := starts_joined ((r :: rest).map (layout .seq))
            ((hparts q (.head _)).starts .seq)
          rw [← layoutAlts_eq_map, ← coreAlternatives_eq_map] at hchoice
          rw [← List.map_cons, ← layoutAlts_eq_map] at hstarts
          exact RereadRow.of_choice hchoice hstarts
      | seq ps | scope rule ps =>
        rcases ps with _ | ⟨q, _ | ⟨r, rest⟩⟩
        · exact absurd rfl filled.1
        · contradiction
        · have hterms := terms_joinTerms q (r :: rest) hparts (guarded.1 _ rfl)
          exact RereadRow.of_alternative (hterms.alternative (by simp [coreTerms]))
            hterms.toStarts
      | leftrec q rule => contradiction
      | memo q rule => contradiction
      | label q name => exact RereadRow.of_term ((hparts q (.head _)).postfixed.label name)
      | not q => exact RereadRow.of_term (hparts q (.head _)).term.not
      | opt q => exact RereadRow.of_postfixed (hparts q (.head _)).repeatable.opt
      | star q => exact RereadRow.of_postfixed (hparts q (.head _)).repeatable.star
      | plus q => exact RereadRow.of_postfixed (hparts q (.head _)).repeatable.plus
      | paren q =>
        unfold Rereads
        rw [layout, core]
        split
        · exact RereadRow.of_prim Row.prim_empty
        · exact RereadRow.of_prim (hparts q (.head _)).choice.parens
      | capture q =>
        have hq := hparts q (.head _)
        unfold Rereads
        rw [layout_capture]
        exact RereadRow.of_prim (hq.choice.capture (hq.starts .choice))
      | pred e => exact RereadRow.of_prim (Row.prim_pred e)
      | eq e => exact RereadRow.of_prim (Row.prim_eq e)
      | action e => exact RereadRow.of_prim (Row.prim_action e)
      | apply name => exact RereadRow.of_prim (Row.prim_apply name)
      | lit text => exact RereadRow.of_prim (Row.prim_lit text)
      | range lo hi => exact RereadRow.of_prim (Row.prim_range lo hi)
      | pos => exact RereadRow.of_prim Row.prim_pos
      | empty => exact RereadRow.of_prim Row.prim_empty

end Pattern

end Pegboard
