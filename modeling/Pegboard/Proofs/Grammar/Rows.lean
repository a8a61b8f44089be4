import Pegboard.Proofs.Expr.Reread

/-!
# Rows that are read back as patterns

A row of tokens may be read back as a pattern at each of the levels at which patterns are read:
without sign of repetition, with one, as a term, as an alternative, and as a choice.  What is read
depends on what follows the row, and at a tighter level more may follow.  This module says what may
follow, and how a row that is read back at one level makes up a row that is read back at another.

## Main Definitions

* `Parse.startsTerm`, `Parse.Follows`: a term starts here; what may follow a term.
* `Row.Prim`, `Row.Postfixed`, `Row.Term`, `Row.Alternative`, `Row.Choice`: a row is read back.

## Main Results

* `Row.Prim.postfixed`, `Row.Postfixed.term`, `Row.Term.alternative`, `Row.Alternative.choice`,
  `Row.Choice.parens`: from each level to the next, and around by parentheses.
* `Row.Terms.cons`, `Row.Further.cons`: rows of terms, and of further alternatives.
-/

namespace Pegboard

namespace Parse

/-! ## What may follow -/

/-- Whether a term starts here. -/
def startsTerm : List PlacedToken → Bool
  | ⟨.ident name, span⟩ :: ts => !atRuleStart (⟨.ident name, span⟩ :: ts)
  | ⟨.str _, _⟩ :: _ => true
  | ⟨.symbol .openParen, _⟩ :: _ => true
  | ⟨.symbol .openBrace, _⟩ :: _ => true
  | ⟨.symbol .arrow, _⟩ :: _ => true
  | ⟨.symbol .tilde, _⟩ :: _ => true
  | ⟨.symbol .question, span⟩ :: ts => atPredicate (⟨.symbol .question, span⟩ :: ts)
  | ⟨.symbol .equal, eq⟩ :: ⟨.symbol .openBrace, brace⟩ :: _ => eq.abuts brace
  | _ => false

/-- Whether what starts here may follow a term that ends at the offset `stop`: the end of the
alternative, or another term that does not stand right behind. -/
def Follows (stop : Nat) (ts : List PlacedToken) : Prop :=
  atAltEnd ts = true ∨ startsTerm ts = true ∧ ∀ t ∈ ts.head?, t.span.lo ≠ stop

/-- Whether what starts here may follow a term or its label. -/
def FollowsPostfixed (stop : Nat) (ts : List PlacedToken) : Prop :=
  Follows stop ts ∨ ∃ span rest, ts = ⟨.symbol .colon, span⟩ :: rest

/-- The signs of repetition. -/
def isSign (s : Symbol) : Prop := s = .question ∨ s = .star ∨ s = .plus

/-- Whether what starts here may follow a pattern without sign of repetition. -/
def FollowsPrim (stop : Nat) (ts : List PlacedToken) : Prop :=
  FollowsPostfixed stop ts ∨ ∃ s span rest, isSign s ∧ ts = ⟨.symbol s, span⟩ :: rest

variable {stop : Nat} {ts : List PlacedToken}

/-- Whether what starts here is none of the signs with which a term goes on. -/
structure NoSign (ts : List PlacedToken) : Prop where
  range : ∀ span rest, ts ≠ ⟨.symbol .dotDot, span⟩ :: rest
  colon : ∀ span rest, ts ≠ ⟨.symbol .colon, span⟩ :: rest
  star : ∀ span rest, ts ≠ ⟨.symbol .star, span⟩ :: rest
  plus : ∀ span rest, ts ≠ ⟨.symbol .plus, span⟩ :: rest
  question : ∀ span rest, ts = ⟨.symbol .question, span⟩ :: rest → atPredicate ts = true
  bracket : ∀ span rest, ts ≠ ⟨.symbol .openBracket, span⟩ :: rest
  dot : ∀ span rest, ts ≠ ⟨.symbol .dot, span⟩ :: rest
  equal : ∀ name span, atRuleStart (⟨.ident name, span⟩ :: ts) = false

theorem noSign_of_startsTerm (h : startsTerm ts = true) : NoSign ts := by
  unfold startsTerm at h
  split at h
  case h_8 => constructor <;> simp [atRuleStart, h]
  case h_7 => constructor <;> simp [atRuleStart, h]
  case h_9 => contradiction
  all_goals constructor <;> simp [atRuleStart]

theorem noSign_of_atAltEnd (h : atAltEnd ts = true) : NoSign ts := by
  unfold atAltEnd at h
  split at h
  case h_7 =>
    unfold atRuleStart at h
    split at h
    case h_3 => contradiction
    all_goals constructor <;> simp [atRuleStart]
  all_goals constructor <;> simp [atRuleStart]

theorem Follows.noSign (h : Follows stop ts) : NoSign ts :=
  h.elim noSign_of_atAltEnd fun h => noSign_of_startsTerm h.1

theorem not_atAltEnd_of_startsTerm (h : startsTerm ts = true) : atAltEnd ts = false := by
  unfold startsTerm at h
  split at h
  case h_1 => simpa [atAltEnd] using h
  case h_9 => contradiction
  all_goals rfl

theorem FollowsPrim.range (h : FollowsPrim stop ts) (span : Span) (rest : List PlacedToken) :
    ts ≠ ⟨.symbol .dotDot, span⟩ :: rest := by
  rcases h with (h | ⟨_, _, rfl⟩) | ⟨s, _, _, hs, rfl⟩
  · exact h.noSign.range span rest
  · simp
  · rcases hs with rfl | rfl | rfl <;> simp

theorem FollowsPrim.equal (h : FollowsPrim stop ts) (name : String) (span : Span) :
    atRuleStart (⟨.ident name, span⟩ :: ts) = false := by
  rcases h with (h | ⟨_, _, rfl⟩) | ⟨s, _, _, hs, rfl⟩
  · exact h.noSign.equal name span
  · rfl
  · rcases hs with rfl | rfl | rfl <;> rfl

theorem endsExpr_of_noSign (h : NoSign ts)
    (paren : ∀ span rest, ts ≠ ⟨.symbol .openParen, span⟩ :: rest) : endsExpr ts = true := by
  unfold endsExpr noSuffix
  split
  · exact absurd rfl (h.plus _ _)
  · split
    · exact absurd rfl (h.bracket _ _)
    · exact absurd rfl (paren _ _)
    · exact absurd rfl (h.dot _ _)
    · rfl

/-- At the end of an alternative no expression goes on. -/
theorem endsExpr_of_atAltEnd (h : atAltEnd ts = true) : endsExpr ts = true := by
  refine endsExpr_of_noSign (noSign_of_atAltEnd h) fun span rest hts => ?_
  rw [hts] at h
  contradiction

/-- A question mark behind which a term ends opens no predicate. -/
theorem FollowsPostfixed.not_atPredicate (h : FollowsPostfixed stop ts) (lo : Nat) :
    atPredicate (⟨.symbol .question, ⟨lo, stop⟩⟩ :: ts) = false := by
  rw [atPredicate.eq_def]
  split
  · next hts =>
    simp only [List.cons.injEq, PlacedToken.mk.injEq] at hts
    obtain ⟨⟨-, rfl⟩, rfl⟩ := hts
    rcases h with (h | ⟨-, h⟩) | ⟨_, _, h⟩
    · contradiction
    · have hne := h _ rfl
      simp only [Span.abuts, beq_eq_false_iff_ne]
      exact fun heq => hne heq.symm
    · simp at h
  · next hts =>
    simp only [List.cons.injEq, PlacedToken.mk.injEq] at hts
    obtain ⟨⟨-, rfl⟩, rfl⟩ := hts
    rcases h with (h | ⟨-, h⟩) | ⟨_, _, h⟩
    · contradiction
    · have hne := h _ rfl
      simp only [Span.abuts, beq_eq_false_iff_ne]
      exact fun heq => hne heq.symm
    · simp at h
  · rfl

theorem FollowsPostfixed.repetition (h : FollowsPostfixed stop ts) (inner : Pattern) :
    ∃ shorter, repetition inner ts = ⟨inner, ts, shorter⟩ := by
  unfold Parse.repetition
  rcases h with h | ⟨_, _, rfl⟩
  · have hno := h.noSign
    split
    · next span rest =>
      rw [if_pos (hno.question span rest rfl)]
      exact ⟨Nat.lt_succ_self _, rfl⟩
    · exact absurd rfl (hno.star _ _)
    · exact absurd rfl (hno.plus _ _)
    · exact ⟨Nat.lt_succ_self _, rfl⟩
  · exact ⟨Nat.lt_succ_self _, rfl⟩

theorem Follows.labelled (h : Follows stop ts) (eof : Nat) (inner : Pattern) :
    Reads (labelled eof inner ts) inner ts := by
  have hno := h.noSign
  unfold Parse.labelled
  split
  · exact absurd rfl (hno.colon _ _)
  · exact absurd rfl (hno.colon _ _)
  · exact reads_ok

/-- Reading a term that is no lookahead. -/
theorem reads_term {eof : Nat} {us rest rest' : List PlacedToken} {p q x : Pattern}
    (tilde : ∀ span more, us ≠ ⟨.symbol .tilde, span⟩ :: more)
    (hprim : Reads (prim eof us) p ts)
    (hrepetition : ∃ shorter, repetition p ts = ⟨q, rest, shorter⟩)
    (hlabelled : Reads (labelled eof q rest) x rest') : Reads (term eof us) x rest' := by
  have hnext : Reads (labelled eof (repetition p ts).value (repetition p ts).rest) x rest' := by
    obtain ⟨shorter, hrepetition⟩ := hrepetition
    rw [hrepetition]
    exact hlabelled
  rw [term.eq_def]
  split
  · exact absurd rfl (tilde _ _)
  · exact hprim.bind fun _ => hnext.bind fun _ => reads_pure

end Parse

namespace Row

open Parse

/-! ## Rows with which a term starts -/

/-- Whether a term starts with a row, whatever follows the row. -/
structure Starts (row : Layout) : Prop where
  first : ∃ t rest, row = .token t :: rest
  starts : ∀ {pos : Nat} {ts : List PlacedToken}, FollowsPrim (pos + row.width) ts →
    startsTerm (row.place pos ++ ts) = true

/-- A row that starts with one of these symbols starts a term, whatever follows it. -/
theorem starts_of_symbol {s : Symbol} (row : Layout)
    (h : s = .openParen ∨ s = .openBrace ∨ s = .arrow ∨ s = .tilde) :
    Starts (.sym s :: row) := by
  refine ⟨⟨_, _, rfl⟩, fun _ => ?_⟩
  rcases h with rfl | rfl | rfl | rfl <;> rfl

/-- What follows the first part of a row may be more of the row. -/
theorem Starts.append {row more : Layout} (h : Starts row)
    (hmore : ∀ {pos : Nat} {ts : List PlacedToken}, FollowsPrim (pos + more.width) ts →
      FollowsPrim pos (more.place pos ++ ts)) : Starts (row ++ more) := by
  obtain ⟨t, rest, hrow⟩ := h.first
  refine ⟨⟨t, rest ++ more, by rw [hrow]; rfl⟩, fun {pos ts} hts => ?_⟩
  rw [Layout.place_append, List.append_assoc]
  refine h.starts (hmore ?_)
  rwa [Layout.width_append, ← Nat.add_assoc] at hts

/-- The tokens of a row with which a term starts do not stand right behind what ends before them. -/
theorem Starts.follows {row : Layout} (h : Starts row) {stop pos : Nat} (gap : stop < pos)
    {ts : List PlacedToken} (hts : FollowsPrim (pos + row.width) ts) :
    Follows stop (row.place pos ++ ts) := by
  refine .inr ⟨h.starts hts, ?_⟩
  obtain ⟨t, rest, rfl⟩ := h.first
  rw [Layout.place_token, List.cons_append]
  intro u hu
  obtain rfl : _ = u := by simpa using hu
  exact fun heq => Nat.lt_irrefl _ (heq ▸ gap)

theorem followsPrim_of_atAltEnd {stop : Nat} {ts : List PlacedToken} (h : atAltEnd ts = true) :
    FollowsPrim stop ts := .inl (.inl (.inl h))

theorem followsPrim_of_follows {stop : Nat} {ts : List PlacedToken} (h : Follows stop ts) :
    FollowsPrim stop ts := .inl (.inl h)

/-! ## Rows that are read back -/

variable {eof : Nat} {opened : Bool} {row : Layout} {p : Pattern}

/-- Whether a row is read back as a pattern without sign of repetition.  If it is open at its end,
no expression must go on behind it. -/
structure Prim (eof : Nat) (opened : Bool) (row : Layout) (p : Pattern) : Prop
    extends Starts row where
  tilde : row.head? ≠ some (.sym .tilde)
  reads : ∀ {pos : Nat} {ts : List PlacedToken}, FollowsPrim (pos + row.width) ts →
    (opened = true → endsExpr ts = true) → Reads (prim eof (row.place pos ++ ts)) p ts

/-- Whether a row is read back as a pattern that may have a sign of repetition, together with the
label that may follow. -/
structure Postfixed (eof : Nat) (opened : Bool) (row : Layout) (p : Pattern) : Prop
    extends Starts row where
  reads : ∀ {pos : Nat} {ts rest : List PlacedToken} {x : Pattern},
    FollowsPostfixed (pos + row.width) ts → (opened = true → endsExpr ts = true) →
      Reads (labelled eof p ts) x rest → Reads (term eof (row.place pos ++ ts)) x rest

/-- Whether a row is read back as a term. -/
structure Term (eof : Nat) (opened : Bool) (row : Layout) (p : Pattern) : Prop
    extends Starts row where
  reads : ∀ {pos : Nat} {ts : List PlacedToken}, Follows (pos + row.width) ts →
    (opened = true → endsExpr ts = true) → Reads (term eof (row.place pos ++ ts)) p ts

/-- Whether a row is read back as terms, up to the end of the alternative. -/
structure Terms (eof : Nat) (row : Layout) (ps : List Pattern) : Prop extends Starts row where
  reads : ∀ {pos : Nat} {ts : List PlacedToken}, atAltEnd ts = true →
    Reads (terms eof (row.place pos ++ ts)) ps ts

/-- Whether a row is read back as an alternative. -/
structure Alternative (eof : Nat) (row : Layout) (p : Pattern) : Prop where
  reads : ∀ {pos : Nat} {ts : List PlacedToken}, atAltEnd ts = true →
    Reads (alternative eof (row.place pos ++ ts)) p ts

/-- Whether tokens are read as further alternatives, each with a bar before it. -/
structure Further (eof : Nat) (us : List PlacedToken) (ps : List Pattern) : Prop where
  ends : ∀ {ts : List PlacedToken}, atAltEnd ts = true → atAltEnd (us ++ ts) = true
  reads : ∀ {ts : List PlacedToken}, atAltEnd ts = true →
    (∀ span rest, ts ≠ ⟨.symbol .pipe, span⟩ :: rest) →
      Reads (furtherAlternatives eof (us ++ ts)) ps ts

/-- Whether a row is read back as a choice. -/
structure Choice (eof : Nat) (row : Layout) (p : Pattern) : Prop where
  reads : ∀ {pos : Nat} {ts : List PlacedToken}, atAltEnd ts = true →
    (∀ span rest, ts ≠ ⟨.symbol .pipe, span⟩ :: rest) →
      Reads (choice eof (row.place pos ++ ts)) p ts

/-! ## From a pattern without sign of repetition to a term -/

/-- A row that is read back as a pattern without sign of repetition is not taken for a lookahead. -/
theorem Prim.not_tilde (h : Prim eof opened row p) (pos : Nat) (ts : List PlacedToken)
    (span : Span) (more : List PlacedToken) :
    row.place pos ++ ts ≠ ⟨.symbol .tilde, span⟩ :: more := by
  obtain ⟨t, rest, rfl⟩ := h.first
  have htilde := h.tilde
  rw [Layout.place_token, List.cons_append]
  rintro heq
  simp only [List.cons.injEq, PlacedToken.mk.injEq] at heq
  obtain ⟨⟨rfl, -⟩, -⟩ := heq
  exact htilde rfl

theorem Prim.postfixed (h : Prim eof opened row p) : Postfixed eof opened row p where
  toStarts := h.toStarts
  reads := fun hts hopen hx =>
    reads_term (h.not_tilde _ _) (h.reads (.inl hts) hopen) (hts.repetition p) hx

/-- A row with a sign of repetition behind it. -/
theorem Prim.repeated (h : Prim eof false row p) {s : Symbol} {q : Pattern} (hs : isSign s)
    (hread : ∀ (span : Span) (ts : List PlacedToken),
      atPredicate (⟨.symbol s, span⟩ :: ts) = false →
        ∃ shorter, repetition p (⟨.symbol s, span⟩ :: ts) = ⟨q, ts, shorter⟩) :
    Postfixed eof false (row ++ [.sym s]) q where
  toStarts := h.toStarts.append fun _ => .inr ⟨s, _, _, hs, rfl⟩
  reads := by
    intro pos ts rest x hts _ hx
    rw [Layout.place_append, List.append_assoc]
    rw [Layout.width_append, ← Nat.add_assoc] at hts
    have hfollows : FollowsPrim (pos + row.width) (⟨.symbol s, ⟨pos + row.width,
        pos + row.width + (Piece.sym s).width⟩⟩ :: ts) := .inr ⟨s, _, _, hs, rfl⟩
    refine reads_term (h.not_tilde _ _) (h.reads hfollows nofun) (hread _ _ ?_) hx
    rcases hs with rfl | rfl | rfl
    · exact hts.not_atPredicate _
    · rfl
    · rfl

theorem Prim.opt (h : Prim eof false row p) :
    Postfixed eof false (row ++ [.sym .question]) (.opt p) :=
  h.repeated (.inl rfl) fun _ ts hno => by
    refine ⟨Nat.lt_succ_of_lt (Nat.lt_succ_self _), ?_⟩
    rw [repetition, if_neg (by rw [hno]; decide)]

theorem Prim.star (h : Prim eof false row p) :
    Postfixed eof false (row ++ [.sym .star]) (.star p) :=
  h.repeated (.inr (.inl rfl)) fun _ _ _ => ⟨Nat.lt_succ_of_lt (Nat.lt_succ_self _), rfl⟩

theorem Prim.plus (h : Prim eof false row p) :
    Postfixed eof false (row ++ [.sym .plus]) (.plus p) :=
  h.repeated (.inr (.inr rfl)) fun _ _ _ => ⟨Nat.lt_succ_of_lt (Nat.lt_succ_self _), rfl⟩

theorem Postfixed.term (h : Postfixed eof opened row p) : Term eof opened row p where
  toStarts := h.toStarts
  reads := fun hts hopen => h.reads (.inl hts) hopen (hts.labelled eof p)

/-- A row with a label behind it. -/
theorem Postfixed.label (h : Postfixed eof opened row p) (name : String) :
    Term eof false (row ++ [.sym .colon, .name name]) (.label p name) where
  toStarts := h.toStarts.append fun _ => .inl (.inr ⟨_, _, rfl⟩)
  reads := by
    intro pos ts hts _
    rw [Layout.place_append, List.append_assoc]
    exact h.reads (.inr ⟨_, _, rfl⟩) (fun _ => rfl) reads_ok

/-- A row with a tilde before it. -/
theorem Term.not (h : Term eof opened row p) : Term eof opened (.sym .tilde :: row) (.not p) where
  toStarts := starts_of_symbol row (by simp)
  reads := by
    intro pos ts hts hopen
    rw [Layout.width_cons, ← Nat.add_assoc] at hts
    rw [Piece.sym, Layout.place_token, List.cons_append, Parse.term.eq_def]
    exact (h.reads hts hopen).bind fun _ => reads_pure

/-! ## From a term to a choice -/

/-- A single term. -/
theorem Term.terms (h : Term eof opened row p) : Terms eof row [p] where
  toStarts := h.toStarts
  reads := by
    intro pos ts hts
    have hfollows : FollowsPrim (pos + row.width) ts := followsPrim_of_atAltEnd hts
    have hstarts := h.starts hfollows
    rw [Parse.terms, not_atAltEnd_of_startsTerm hstarts, if_neg Bool.false_ne_true]
    refine (h.reads (.inl hts) fun _ => endsExpr_of_atAltEnd hts).bind fun _ => ?_
    have hnone : Reads (Parse.terms eof ts) [] ts := by
      rw [Parse.terms, if_pos hts]
      exact reads_ok
    exact hnone.bind fun _ => reads_pure

theorem startsWithParen_openParen (row : Layout) :
    Layout.startsWithParen (.sym .openParen :: row) = true := by
  simp [Layout.startsWithParen, Layout.toList_text, Piece.sym, Piece.text, Token.display,
    Symbol.text]

theorem startsWithParen_append_blank (row more : Layout) :
    Layout.startsWithParen (row ++ .blank :: more) = row.startsWithParen := by
  rw [Layout.startsWithParen, Layout.startsWithParen, Layout.toList_text, List.flatMap_append,
    ← Layout.toList_text, List.head?_append]
  cases row.text.toList.head? with
  | none => rfl
  | some c => rfl

/-- A row that starts with a parenthesis when written does so as a row of tokens. -/
theorem head?_of_startsWithParen {row : Layout} (writable : row.Writable)
    (h : row.startsWithParen = true) : row.head? = some (.sym .openParen) := by
  cases row with
  | nil => contradiction
  | cons x row =>
    rw [Layout.startsWithParen, beq_iff_eq, Layout.toList_text, List.flatMap_cons] at h
    cases x with
    | blank => simp [Piece.text] at h
    | token t =>
      have ht : t.Writable := writable t (.head _)
      cases t with
      | symbol s =>
        have start : s.text.toList.head? = some '(' := by cases s <;> exact h
        obtain rfl : s = .openParen := by
          revert start
          cases s <;> decide
        rfl
      | ident name =>
        obtain ⟨c, cs, hname, start, -⟩ := ht
        rw [Piece.text, Token.display, hname] at h
        obtain rfl := Option.some.inj h
        contradiction
      | dec digits =>
        obtain ⟨c, cs, hdigits, digit⟩ := ht
        rw [Piece.text, Token.display, hdigits] at h
        obtain rfl := Option.some.inj h
        exact absurd (digit _ (.head _)) (by decide)
      | hex digits => simp [Piece.text, Token.display] at h
      | str text => simp [Piece.text, Token.display, Quoted.literal] at h
      | invalid c => exact ht.elim
      | endOfFile => exact ht.elim

/-- A row that does not start with a parenthesis when written does not as a row of tokens. -/
theorem Starts.not_openParen (h : Starts row) (paren : row.startsWithParen = false) (pos : Nat)
    (ts : List PlacedToken) (span : Span) (rest : List PlacedToken) :
    row.place pos ++ ts ≠ ⟨.symbol .openParen, span⟩ :: rest := by
  obtain ⟨t, more, rfl⟩ := h.first
  rw [Layout.place_token, List.cons_append]
  intro heq
  simp only [List.cons.injEq, PlacedToken.mk.injEq] at heq
  obtain ⟨⟨rfl, -⟩, -⟩ := heq
  exact absurd (startsWithParen_openParen more) (by rw [Piece.sym, paren]; decide)

/-- A term before others.  If it is open at its end, the others must not start with a
parenthesis. -/
theorem Terms.cons {more : Layout} {ps : List Pattern} (hmore : Terms eof more ps)
    (h : Term eof opened row p) (paren : opened = true → more.startsWithParen = false) :
    Terms eof (row ++ [.blank] ++ more) (p :: ps) := by
  -- What follows the first term is a term which a blank keeps apart from it.
  have hfollows : ∀ {pos : Nat} {ts : List PlacedToken}, FollowsPrim (pos + 1 + more.width) ts →
      Follows pos (more.place (pos + 1) ++ ts) := fun hts =>
    hmore.toStarts.follows (Nat.lt_succ_self _) hts
  rw [List.append_assoc]
  refine ⟨h.toStarts.append fun {pos ts} hts => ?_, fun {pos ts} hts => ?_⟩
  · have hwidth : pos + Layout.width ([.blank] ++ more) = pos + 1 + more.width := by
      rw [Layout.width_append, ← Nat.add_assoc]
      rfl
    rw [hwidth] at hts
    exact followsPrim_of_follows (hfollows hts)
  · have hends : FollowsPrim (pos + row.width + 1 + more.width) ts := followsPrim_of_atAltEnd hts
    have hus := hfollows hends
    have hplace : Layout.place pos (row ++ ([.blank] ++ more)) ++ ts
        = row.place pos ++ (more.place (pos + row.width + 1) ++ ts) := by
      rw [Layout.place_append, List.append_assoc]
      rfl
    have hopen : opened = true → endsExpr (more.place (pos + row.width + 1) ++ ts) = true :=
      fun hopened => endsExpr_of_noSign hus.noSign
        (hmore.toStarts.not_openParen (paren hopened) _ _)
    have hstarts := h.starts (followsPrim_of_follows hus)
    rw [hplace, Parse.terms, not_atAltEnd_of_startsTerm hstarts, if_neg Bool.false_ne_true]
    exact (h.reads hus hopen).bind fun _ => (hmore.reads hts).bind fun _ => reads_pure

theorem Terms.alternative {ps : List Pattern} (h : Terms eof row ps) (hps : ps ≠ []) :
    Alternative eof row (.seq ps) := by
  refine ⟨fun {pos ts} hts => ?_⟩
  rw [Parse.alternative]
  cases ps with
  | nil => contradiction
  | cons p ps => exact (h.reads hts).bind fun _ => reads_pure

/-- Where nothing stands, an empty alternative is read. -/
theorem alternative_nil : Alternative eof [] .empty := by
  refine ⟨fun {pos ts} hts => ?_⟩
  have hterms : Reads (Parse.terms eof (Layout.place pos [] ++ ts)) [] ts := by
    rw [Layout.place_nil, List.nil_append, Parse.terms, if_pos hts]
    exact reads_ok
  rw [Parse.alternative]
  exact hterms.bind fun _ => reads_pure

theorem Further.nil : Further eof [] [] := by
  refine ⟨fun hts => hts, fun {ts} _ hpipe => ?_⟩
  rw [List.nil_append, furtherAlternatives.eq_def]
  split
  · exact absurd rfl (hpipe _ _)
  · exact reads_ok

/-- One more alternative in front. -/
theorem Further.cons {us : List PlacedToken} {ps : List Pattern} (hmore : Further eof us ps)
    (h : Alternative eof row p) (span : Span) (pos : Nat) :
    Further eof (⟨.symbol .pipe, span⟩ :: (row.place pos ++ us)) (p :: ps) := by
  refine ⟨fun _ => rfl, fun {ts} hts hpipe => ?_⟩
  rw [List.cons_append, List.append_assoc, furtherAlternatives.eq_def]
  exact (h.reads (hmore.ends hts)).bind fun _ => (hmore.reads hts hpipe).bind fun _ => reads_pure

/-- An alternative and further ones make up a choice. -/
theorem Alternative.reads_choice {us ts : List PlacedToken} {ps : List Pattern}
    (h : Alternative eof row p) (hmore : Further eof us ps) (hts : atAltEnd ts = true)
    (hpipe : ∀ span rest, ts ≠ ⟨.symbol .pipe, span⟩ :: rest) (pos : Nat) :
    Reads (Parse.choice eof (row.place pos ++ (us ++ ts))) (.choice (p :: ps)) ts := by
  rw [Parse.choice]
  exact (h.reads (hmore.ends hts)).bind fun _ => (hmore.reads hts hpipe).bind fun _ => reads_pure

/-- A single alternative. -/
theorem Alternative.choice (h : Alternative eof row p) : Choice eof row (.choice [p]) :=
  ⟨fun hts hpipe => h.reads_choice .nil hts hpipe _⟩

/-- Alternatives with bars between. -/
theorem choice_joined {f : Pattern → Layout} {g : Pattern → Pattern} (p : Pattern)
    (ps : List Pattern) (h : ∀ q ∈ p :: ps, Alternative eof (f q) (g q)) :
    Choice eof (.joined [.blank, .sym .pipe, .blank] ((p :: ps).map f))
      (.choice ((p :: ps).map g)) := by
  have hfurther : ∀ (pos : Nat) (ps : List Pattern), (∀ q ∈ ps, Alternative eof (f q) (g q)) →
      Further eof (Layout.place pos ((ps.map f).flatMap ([.blank, .sym .pipe, .blank] ++ ·)))
        (ps.map g) := by
    intro pos ps
    induction ps generalizing pos with
    | nil => exact fun _ => .nil
    | cons q ps ih =>
      intro hps
      rw [List.map_cons, List.map_cons, List.flatMap_cons, List.append_assoc,
        Layout.place_append, Layout.place_append]
      exact (ih _ fun r hr => hps r (.tail _ hr)).cons (hps q (.head _)) _ _
  refine ⟨fun {pos ts} hts hpipe => ?_⟩
  rw [List.map_cons, List.map_cons, Expr.joined_cons, Layout.place_append, List.append_assoc]
  exact (h p (.head _)).reads_choice (hfurther _ ps fun q hq => h q (.tail _ hq)) hts hpipe pos

/-! ## Patterns without sign of repetition -/

/-- A row in parentheses. -/
theorem Choice.parens (h : Choice eof row p) : Prim eof false (Layout.parens row) (.paren p) where
  toStarts := starts_of_symbol _ (by simp)
  tilde := by simp [Layout.parens, Layout.between, Piece.sym]
  reads := by
    intro pos ts _ _
    obtain ⟨inner, span, -, hplace⟩ := Layout.place_between .openParen .closeParen row pos ts
    rw [Layout.parens, hplace, Parse.prim.eq_def]
    refine (h.reads rfl (by simp)).bind fun _ => ?_
    exact (reads_closing _ _ _).bind fun _ => reads_pure

/-- A row in braces. -/
theorem Choice.capture (h : Choice eof row p) (hstarts : Starts row) :
    Prim eof false (Layout.between .openBrace .closeBrace row) (.capture p) where
  toStarts := starts_of_symbol _ (by simp)
  tilde := by simp [Layout.between, Piece.sym]
  reads := by
    intro pos ts _ _
    obtain ⟨inner, span, -, hplace⟩ := Layout.place_between .openBrace .closeBrace row pos ts
    have hterm : startsTerm (row.place inner ++ ⟨.symbol .closeBrace, span⟩ :: ts) = true :=
      hstarts.starts (followsPrim_of_atAltEnd rfl)
    have hread : Reads (Parse.choice eof (row.place inner ++ ⟨.symbol .closeBrace, span⟩ :: ts)) p
        (⟨.symbol .closeBrace, span⟩ :: ts) := h.reads rfl (by simp)
    rw [hplace]
    generalize row.place inner ++ ⟨.symbol .closeBrace, span⟩ :: ts = us at hterm hread
    -- A closing brace would make the two braces an offset, but none starts a term.
    rw [Parse.prim.eq_def]
    rcases us with _ | ⟨⟨token, sp⟩, more⟩
    · contradiction
    · cases token with
      | symbol s =>
        cases s <;> first
          | contradiction
          | exact hread.bind fun _ => (reads_closing _ _ _).bind fun _ => reads_pure
      | _ => exact hread.bind fun _ => (reads_closing _ _ _).bind fun _ => reads_pure

/-- A single token. -/
theorem prim_apply (name : String) : Prim eof false [.name name] (.apply name) where
  first := ⟨_, _, rfl⟩
  starts := by
    intro pos ts hts
    have hrule := hts.equal name ⟨pos, pos + (Piece.name name).width⟩
    show (!atRuleStart (⟨.ident name, ⟨pos, pos + (Piece.name name).width⟩⟩ :: ts)) = true
    rw [hrule]
    rfl
  tilde := by simp [Piece.sym, Piece.name]
  reads := fun _ _ => by
    rw [Piece.name, Layout.place_token, List.cons_append, Parse.prim.eq_def]
    exact reads_ok

theorem prim_lit (text : String) : Prim eof false [.token (.str text)] (.lit text) where
  first := ⟨_, _, rfl⟩
  starts := fun _ => rfl
  tilde := by simp [Piece.sym]
  reads := by
    intro pos ts hts _
    have hread : ∀ lower, Reads (literalOrRange eof lower text ts) (.lit text) ts := by
      intro lower
      rw [literalOrRange.eq_def]
      split
      · exact absurd rfl (hts.range _ _)
      · exact absurd rfl (hts.range _ _)
      · exact reads_ok
    rw [Layout.place_token, List.cons_append, Parse.prim.eq_def]
    exact (hread _).bind fun _ => reads_pure

theorem prim_range (lo hi : Char) : Prim eof false
    [.token (.str (String.singleton lo)), .sym .dotDot, .token (.str (String.singleton hi))]
    (.range lo hi) where
  first := ⟨_, _, rfl⟩
  starts := fun _ => rfl
  tilde := by simp [Piece.sym]
  reads := by
    intro pos ts _ _
    have hbound : ∀ bound c, rangeBound bound (String.singleton c) = .ok c := by
      intro bound c
      simp [rangeBound]
    have hread : ∀ lower dots upper, Reads (literalOrRange eof lower (String.singleton lo)
        (⟨.symbol .dotDot, dots⟩ :: ⟨.str (String.singleton hi), upper⟩ :: ts)) (.range lo hi)
        ts := by
      intro lower dots upper
      rw [literalOrRange, hbound, hbound]
      exact reads_pure
    rw [Piece.sym, Layout.place_token, Layout.place_token, Layout.place_token, List.cons_append,
      Parse.prim.eq_def]
    exact (hread _ _ _).bind fun _ => reads_pure

theorem prim_pos : Prim eof false [.sym .openBrace, .sym .closeBrace] .pos where
  toStarts := starts_of_symbol _ (by simp)
  tilde := by simp [Piece.sym]
  reads := fun _ _ => by
    rw [Piece.sym, Piece.sym, Layout.place_token, Layout.place_token, List.cons_append,
      Parse.prim.eq_def]
    exact reads_ok

theorem prim_pred (e : Expr) :
    Prim eof false (.sym .question :: Layout.parens e.layout) (.pred e.flat) where
  first := ⟨_, _, rfl⟩
  starts := fun {pos ts} _ => by
    simp [Piece.sym, Layout.parens, Layout.between, Layout.place_token, startsTerm, atPredicate,
      Span.abuts]
  tilde := by simp [Piece.sym]
  reads := by
    intro pos ts _ _
    obtain ⟨inner, span, -, hplace⟩ := Layout.place_between .openParen .closeParen e.layout
      (pos + (Piece.sym .question).width) ts
    rw [Piece.sym, Layout.place_token, List.cons_append, Layout.parens, ← Piece.sym, hplace,
      Parse.prim.eq_def]
    have hread : Reads (predicate eof (⟨.symbol .openParen, ⟨pos + (Piece.sym .question).width,
        inner⟩⟩ :: (e.layout.place inner ++ ⟨.symbol .closeParen, span⟩ :: ts))) (.pred e.flat)
        ts := by
      rw [predicate.eq_def]
      refine (e.reread.reads inner rfl).bind fun _ => ?_
      exact (reads_closing _ _ _).bind fun _ => reads_pure
    exact hread.bind fun _ => reads_pure

theorem prim_eq (e : Expr) : Prim eof false
    (.sym .equal :: Layout.between .openBrace .closeBrace e.layout) (.eq e.flat) where
  first := ⟨_, _, rfl⟩
  starts := fun {pos ts} _ => by
    simp [Piece.sym, Layout.between, Layout.place_token, startsTerm, Span.abuts]
  tilde := by simp [Piece.sym]
  reads := by
    intro pos ts _ _
    obtain ⟨inner, span, -, hplace⟩ := Layout.place_between .openBrace .closeBrace e.layout
      (pos + (Piece.sym .equal).width) ts
    rw [Piece.sym, Layout.place_token, List.cons_append, ← Piece.sym, hplace, Parse.prim.eq_def]
    refine (e.reread.reads inner rfl).bind fun _ => ?_
    exact (reads_closing _ _ _).bind fun _ => reads_pure

/-- An action is open at its end: its expression goes on as far as it can. -/
theorem prim_action (e : Expr) :
    Prim eof true (.sym .arrow :: .blank :: e.layout) (.action e.flat) where
  toStarts := starts_of_symbol _ (by simp)
  tilde := by simp [Piece.sym]
  reads := by
    intro pos ts _ hopen
    rw [Piece.sym, Layout.place_token, List.cons_append, Layout.place_blank, Parse.prim.eq_def]
    exact (e.reread.reads _ (hopen rfl)).bind fun _ => reads_pure

theorem prim_empty : Prim eof false [.sym .openParen, .sym .closeParen]
    (.paren (.choice [.empty])) :=
  (alternative_nil.choice : Choice eof [] _).parens

end Row

end Pegboard
