import Pegboard.Grammar.Parse
import Pegboard.Proofs.Token.Rescan

/-!
# Blanks between tokens

Two texts with the same tokens are parsed alike, wherever the tokens stand and however they are
written.  The parser looks at places only in order to see whether a `=` or a `?` opens something
together with the token right behind it.  So of each two such neighbours it is asked that they abut
in one text where they do in the other.  If the texts are no grammars, the same is wrong with both.

The two texts are parsed side by side.  What is read of either up to some point leaves tokens that
are again alike, so all reading functions are followed by one induction on the tokens.

## Main Definitions

* `Token.opensWith`: which tokens open something together.
* `Parse.Alike`: tokens that are the same but for their places.
* `Parse.Agree`: two attempts that read the same, or fail alike.

## Main Results

* `Parse.agree_choice`: the same patterns are read from tokens that are alike.
* `parseGrammar_respaced`: texts with the same tokens give the same rules, or the same error.
-/

namespace Pegboard

/-! ## Errors without their places -/

/-- A token that stands nowhere. -/
def PlacedToken.unplaced (t : PlacedToken) : PlacedToken := ⟨t.token, .origin⟩

/-- A diagnostic that points nowhere. -/
def Diagnostic.unplaced (d : Diagnostic) : Diagnostic :=
  { d with
    span := .origin
    spanned := d.spanned.map fun r => { r with span := .origin }
    unspanned := d.unspanned.map fun r => { r with span := .origin } }

namespace SyntaxError

/-- An error that is nowhere. -/
def unplaced : SyntaxError → SyntaxError
  | .invalidCharacter _ c => .invalidCharacter .origin c
  | .unterminatedLiteral _ => .unterminatedLiteral .origin
  | .invalidEscape _ text => .invalidEscape .origin text
  | .unterminatedComment _ => .unterminatedComment .origin
  | .expectedRule found => .expectedRule found.unplaced
  | .expectedExpression found => .expectedExpression found.unplaced
  | .unclosedDelimiter closer opener found =>
    .unclosedDelimiter closer opener.unplaced found.unplaced
  | .invalidRangeBound found => .invalidRangeBound found.unplaced
  | .expectedToken expected found => .expectedToken expected found.unplaced

/-- What is told of an error depends on its places only where it points. -/
theorem diagnostic_unplaced (e : SyntaxError) : e.unplaced.diagnostic = e.diagnostic.unplaced := by
  cases e <;> rfl

end SyntaxError

/-- Whether a token opens something together with the next one, if they abut: `={` an equality
assertion, and `?(` or `?{` a predicate. -/
def Token.opensWith (t u : Token) : Bool :=
  t = .symbol .equal && u = .symbol .openBrace ||
    t = .symbol .question && (u = .symbol .openParen || u = .symbol .openBrace)

/-- Whether two tokens open something together. -/
def PlacedToken.opensWith (t u : PlacedToken) : Bool :=
  t.token.opensWith u.token && t.span.abuts u.span

namespace Parse

variable {stop stop' : Nat} {ts us : List PlacedToken}

/-! ## Two tokens that open something -/

/-- A predicate starts with a question mark that opens something with the next token. -/
theorem atPredicate_iff : atPredicate ts = true ↔
    ∃ t u rest, ts = t :: u :: rest ∧ t.token = .symbol .question ∧ t.opensWith u = true := by
  refine ⟨fun h => ?_, ?_⟩
  · rw [atPredicate.eq_def] at h
    split at h
    · exact ⟨_, _, _, rfl, rfl, by simpa [PlacedToken.opensWith, Token.opensWith] using h⟩
    · exact ⟨_, _, _, rfl, rfl, by simpa [PlacedToken.opensWith, Token.opensWith] using h⟩
    · contradiction
  · rintro ⟨⟨_, question⟩, ⟨next, opener⟩, rest, rfl, rfl, h⟩
    obtain ⟨hnext, habuts⟩ := by simpa [PlacedToken.opensWith, Token.opensWith] using h
    rcases hnext with rfl | rfl <;> exact habuts

/-- A rule starts with a name and a `=` that opens nothing with the next token. -/
theorem atRuleStart_iff : atRuleStart ts = true ↔
    ∃ t u rest, ts = t :: u :: rest ∧ (∃ name, t.token = .ident name) ∧ u.token = .symbol .equal ∧
      ∀ v ∈ rest.head?, u.opensWith v = false := by
  refine ⟨fun h => ?_, ?_⟩
  · rw [atRuleStart.eq_def] at h
    split at h
    · refine ⟨_, _, _, rfl, ⟨_, rfl⟩, rfl, ?_⟩
      simpa [PlacedToken.opensWith, Token.opensWith] using h
    · next name span eq rest hno =>
      refine ⟨_, _, _, rfl, ⟨_, rfl⟩, rfl, fun v hv => ?_⟩
      obtain ⟨rest, rfl⟩ := List.head?_eq_some_iff.1 hv
      have hbrace : v.token ≠ .symbol .openBrace := fun hv => hno v.span rest (by simp [← hv])
      simp [PlacedToken.opensWith, Token.opensWith, hbrace]
    · contradiction
  · rintro ⟨⟨_, span⟩, ⟨_, eq⟩, rest, rfl, ⟨name, rfl⟩, rfl, h⟩
    rw [atRuleStart.eq_def]
    split
    · next hts =>
      obtain ⟨⟨rfl, rfl⟩, rfl, rfl⟩ := by simpa using hts
      simpa [PlacedToken.opensWith, Token.opensWith] using h
    · rfl
    · next hno => exact absurd rfl (hno _ _ _ _)

/-! ## Tokens that are alike -/

/-- Tokens that are the same but for their places, and of which the same ones open something
together. -/
inductive Alike : List PlacedToken → List PlacedToken → Prop where
  | nil : Alike [] []
  | cons {token : Token} {span span' : Span} {ts us : List PlacedToken}
      (opens : ∀ t ∈ ts.head?, ∀ u ∈ us.head?,
        PlacedToken.opensWith ⟨token, span⟩ t = PlacedToken.opensWith ⟨token, span'⟩ u)
      (later : Alike ts us) : Alike (⟨token, span⟩ :: ts) (⟨token, span'⟩ :: us)

namespace Alike

theorem symm (h : Alike ts us) : Alike us ts := by
  induction h with
  | nil => exact .nil
  | cons opens later ih => exact .cons (fun u hu t ht => (opens t ht u hu).symm) ih

/-- If tokens do not start with some token, then neither do tokens that are like them. -/
theorem not_cons {token : Token} {span : Span} (h : Alike ts (⟨token, span⟩ :: us))
    (hno : ∀ span rest, ts = ⟨token, span⟩ :: rest → False) : False := by
  cases h
  exact hno _ _ rfl

theorem found (stop stop' : Nat) (h : Alike ts us) :
    (found stop ts).unplaced = (found stop' us).unplaced := by
  cases h <;> rfl

theorem token_found (stop stop' : Nat) (h : Alike ts us) :
    (Parse.found stop ts).token = (Parse.found stop' us).token :=
  congrArg (·.token) (h.found stop stop')

theorem atPredicate_of_atPredicate (h : Alike ts us) (hts : atPredicate ts = true) :
    atPredicate us = true := by
  obtain ⟨t, u, rest, rfl, ht, hu⟩ := atPredicate_iff.1 hts
  cases h with
  | cons opens later =>
    cases later with
    | cons opens' later =>
      exact atPredicate_iff.2 ⟨_, _, _, rfl, ht, opens _ rfl _ rfl ▸ hu⟩

theorem atRuleStart_of_atRuleStart (h : Alike ts us) (hts : atRuleStart ts = true) :
    atRuleStart us = true := by
  obtain ⟨t, u, rest, rfl, ht, hu, hrest⟩ := atRuleStart_iff.1 hts
  cases h with
  | cons _ later =>
    cases later with
    | @cons _ _ _ rest rest' opens later =>
      refine atRuleStart_iff.2 ⟨_, _, _, rfl, ht, hu, fun v hv => ?_⟩
      cases later with
      | nil => contradiction
      | cons _ _ => rw [← opens _ rfl v hv, hrest _ rfl]

/-- The same tokens open a predicate. -/
theorem atPredicate (h : Alike ts us) : atPredicate ts = atPredicate us :=
  Bool.eq_iff_iff.2 ⟨h.atPredicate_of_atPredicate, h.symm.atPredicate_of_atPredicate⟩

/-- The same tokens start a rule. -/
theorem atRuleStart (h : Alike ts us) : atRuleStart ts = atRuleStart us :=
  Bool.eq_iff_iff.2 ⟨h.atRuleStart_of_atRuleStart, h.symm.atRuleStart_of_atRuleStart⟩

/-- Alternatives end at the same tokens. -/
theorem atAltEnd (h : Alike ts us) : atAltEnd ts = atAltEnd us := by
  have hrule := h.atRuleStart
  rw [atAltEnd.eq_def]
  split
  case h_7 hnil hpipe hcomma hparen hbrace hbracket =>
    rw [atAltEnd.eq_def]
    split
    case h_7 => exact hrule
    case h_1 => cases h; exact absurd rfl hnil
    case h_2 => exact (h.not_cons hpipe).elim
    case h_3 => exact (h.not_cons hcomma).elim
    case h_4 => exact (h.not_cons hparen).elim
    case h_5 => exact (h.not_cons hbrace).elim
    case h_6 => exact (h.not_cons hbracket).elim
  all_goals cases h; rfl

end Alike

/-! ## Attempts that agree -/

/-- Two attempts that give related results, or fail alike. -/
inductive Agree {α β : Type} (R : α → β → Prop) : Attempt α → Attempt β → Prop where
  | ok {a : α} {b : β} (related : R a b) : Agree R (.ok a) (.ok b)
  | error {e e' : SyntaxError} (same : e.unplaced = e'.unplaced) : Agree R (.error e) (.error e')

/-- Two readings of the same that leave tokens that are alike. -/
structure Likewise {n m : Nat} {α : Type} (x : Reading n α) (y : Reading m α) : Prop where
  value : x.value = y.value
  rest : Alike x.rest y.rest

section Agree

variable {n m k l : Nat} {α β γ δ : Type}

theorem agree_pure {a : α} {rest rest' : List PlacedToken} {h : rest.length < n}
    {h' : rest'.length < m} (alike : Alike rest rest') :
    Agree Likewise (pure ⟨a, rest, h⟩ : Attempt (Reading n α))
      (pure ⟨a, rest', h'⟩ : Attempt (Reading m α)) := .ok ⟨rfl, alike⟩

/-- One step after the other. -/
theorem Agree.andThen {R : α → β → Prop} {S : γ → δ → Prop} {r : Attempt α} {r' : Attempt β}
    {f : α → Attempt γ} {f' : β → Attempt δ} (first : Agree R r r')
    (next : ∀ a b, R a b → Agree S (f a) (f' b)) : Agree S (r >>= f) (r' >>= f') := by
  cases first with
  | ok related => exact next _ _ related
  | error same => exact .error same

/-- Reading twice in a row. -/
theorem Agree.bind {S : γ → δ → Prop} {r : Attempt (Reading n α)} {r' : Attempt (Reading m α)}
    {f : Reading n α → Attempt γ} {f' : Reading m α → Attempt δ} (first : Agree Likewise r r')
    (next : ∀ a rest rest' h h', Alike rest rest' →
      Agree S (f ⟨a, rest, h⟩) (f' ⟨a, rest', h'⟩)) : Agree S (r >>= f) (r' >>= f') := by
  refine first.andThen ?_
  rintro ⟨a, rest, h⟩ ⟨_, rest', h'⟩ ⟨rfl, alike⟩
  exact next a rest rest' h h' alike

end Agree

theorem same_expectedToken (stop stop' : Nat) (expected : Expected) (h : Alike ts us) :
    (SyntaxError.expectedToken expected (found stop ts)).unplaced
      = (SyntaxError.expectedToken expected (found stop' us)).unplaced :=
  congrArg (SyntaxError.expectedToken expected) (h.found stop stop')

theorem same_expectedExpression (stop stop' : Nat) (h : Alike ts us) :
    (SyntaxError.expectedExpression (found stop ts)).unplaced
      = (SyntaxError.expectedExpression (found stop' us)).unplaced :=
  congrArg SyntaxError.expectedExpression (h.found stop stop')

/-- The openers may stand at different places. -/
theorem agree_closing (closer : Symbol) (token : Token) (span span' : Span) (h : Alike ts us) :
    Agree Likewise (closing stop closer ⟨token, span⟩ ts)
      (closing stop' closer ⟨token, span'⟩ us) := by
  have hfound : (SyntaxError.unclosedDelimiter closer ⟨token, span⟩ (found stop ts)).unplaced
      = (SyntaxError.unclosedDelimiter closer ⟨token, span'⟩ (found stop' us)).unplaced :=
    congrArg (SyntaxError.unclosedDelimiter closer ⟨token, .origin⟩) (h.found stop stop')
  unfold closing
  cases h with
  | nil => exact .error hfound
  | @cons next place place' ts us _ later =>
    cases next with
    | symbol s =>
      dsimp only
      split
      · exact .ok ⟨rfl, later⟩
      · exact .error hfound
    | _ => exact .error hfound

/-!
## Expressions

The induction is on the tokens of the first text.  What is read of them leaves fewer, and the second
text goes along.  Where no token that a function asks for stands in front of the first text, none
does in front of the second.
-/

theorem agree_attributeName (h : Alike ts us) :
    Agree Likewise (attributeName stop ts) (attributeName stop' us) := by
  have hfound := same_expectedToken stop stop' .attributeName h
  unfold attributeName
  cases h with
  | nil => exact .error hfound
  | @cons token _ _ _ _ _ later =>
    cases token with
    | ident name => exact .ok ⟨rfl, later⟩
    | _ => exact .error hfound

mutual

/-- The same expressions are read from tokens that are alike. -/
theorem agree_expr (ts us : List PlacedToken) (h : Alike ts us) :
    Agree Likewise (expr stop ts) (expr stop' us) := by
  rw [expr, expr]
  refine (agree_qual ts us h).bind fun lhs rest rest' _ _ hrest => ?_
  exact (agree_summands lhs rest rest' hrest).bind fun _ _ _ _ _ hrest' => agree_pure hrest'
termination_by 4 * ts.length + 2
decreasing_by all_goals omega

theorem agree_summands (lhs : Expr) (ts us : List PlacedToken) (h : Alike ts us) :
    Agree Likewise (summands stop lhs ts) (summands stop' lhs us) := by
  generalize hts : ts = ts' at h
  rw [summands.eq_def]
  split
  · next span rest =>
    cases h with
    | @cons _ _ span' _ us _ later =>
      rw [summands.eq_def]
      refine (agree_qual rest us later).bind fun rhs rest rest' h₁ _ hrest => ?_
      exact (agree_summands _ rest rest' hrest).bind fun _ _ _ _ _ hrest' => agree_pure hrest'
  · next hno =>
    rw [summands.eq_def]
    split
    · exact (h.not_cons hno).elim
    · exact .ok ⟨rfl, h⟩
termination_by 4 * ts.length
decreasing_by all_goals simp only [hts, List.length_cons]; omega

theorem agree_qual (ts us : List PlacedToken) (h : Alike ts us) :
    Agree Likewise (qual stop ts) (qual stop' us) := by
  rw [qual, qual]
  refine (agree_primary ts us h).bind fun base rest rest' h₁ _ hrest => ?_
  exact (agree_suffixes rest rest' hrest).bind fun _ _ _ _ _ hrest' => agree_pure hrest'
termination_by 4 * ts.length + 1
decreasing_by all_goals omega

theorem agree_suffixes (ts us : List PlacedToken) (h : Alike ts us) :
    Agree Likewise (suffixes stop ts) (suffixes stop' us) := by
  generalize hts : ts = ts' at h
  rw [suffixes.eq_def]
  split
  · next span rest =>
    cases h with
    | @cons _ _ span' _ us _ later =>
      rw [suffixes.eq_def]
      refine (agree_expr rest us later).bind fun index rest₁ rest₁' h₁ _ hrest₁ => ?_
      refine (agree_closing _ _ _ _ hrest₁).bind fun _ rest₂ rest₂' h₂ _ hrest₂ => ?_
      exact (agree_suffixes rest₂ rest₂' hrest₂).bind fun _ _ _ _ _ hrest₃ => agree_pure hrest₃
  · next span rest =>
    cases h with
    | @cons _ _ span' _ us _ later =>
      rw [suffixes.eq_def]
      refine (agree_exprs _ _ _ _ rest us later).bind fun args rest₁ rest₁' h₁ _ hrest₁ => ?_
      exact (agree_suffixes rest₁ rest₁' hrest₁).bind fun _ _ _ _ _ hrest₂ => agree_pure hrest₂
  · next span rest =>
    cases h with
    | @cons _ _ span' _ us _ later =>
      rw [suffixes.eq_def]
      refine (agree_attributeName later).bind fun name rest₁ rest₁' h₁ _ hrest₁ => ?_
      exact (agree_suffixes rest₁ rest₁' hrest₁).bind fun _ _ _ _ _ hrest₂ => agree_pure hrest₂
  · next hbracket hparen hdot =>
    rw [suffixes.eq_def]
    split
    · exact (h.not_cons hbracket).elim
    · exact (h.not_cons hparen).elim
    · exact (h.not_cons hdot).elim
    · exact .ok ⟨rfl, h⟩
termination_by 4 * ts.length
decreasing_by all_goals simp only [hts, List.length_cons]; omega

theorem agree_primary (ts us : List PlacedToken) (h : Alike ts us) :
    Agree Likewise (primary stop ts) (primary stop' us) := by
  generalize hts : ts = ts' at h
  rw [primary.eq_def]
  split
  case h_1 | h_2 | h_3 | h_4 =>
    cases h with
    | cons _ later =>
      rw [primary.eq_def]
      exact .ok ⟨rfl, later⟩
  · next span rest =>
    cases h with
    | @cons _ _ span' _ us _ later =>
      rw [primary.eq_def]
      exact (agree_exprs _ _ _ _ rest us later).bind fun _ _ _ _ _ hrest => agree_pure hrest
  · next span rest =>
    cases h with
    | @cons _ _ span' _ us _ later =>
      rw [primary.eq_def]
      refine (agree_expr rest us later).bind fun e rest₁ rest₁' _ _ hrest₁ => ?_
      exact (agree_closing _ _ _ _ hrest₁).bind fun _ _ _ _ _ hrest₂ => agree_pure hrest₂
  · next hident hdec hhex hstr hbracket hparen =>
    have hfound := same_expectedExpression stop stop' h
    rw [primary.eq_def]
    split
    · exact (h.not_cons (hident _)).elim
    · exact (h.not_cons (hdec _)).elim
    · exact (h.not_cons (hhex _)).elim
    · exact (h.not_cons (hstr _)).elim
    · exact (h.not_cons hbracket).elim
    · exact (h.not_cons hparen).elim
    · exact .error hfound
termination_by 4 * ts.length
decreasing_by all_goals simp only [hts, List.length_cons]; omega

theorem agree_exprs (closer : Symbol) (token : Token) (span span' : Span)
    (ts us : List PlacedToken) (h : Alike ts us) :
    Agree Likewise (exprs stop closer ⟨token, span⟩ ts) (exprs stop' closer ⟨token, span'⟩ us) := by
  rw [exprs, exprs, ← h.token_found stop stop']
  split
  · exact (agree_closing _ _ _ _ h).bind fun _ _ _ _ _ hrest => agree_pure hrest
  · refine (agree_expr ts us h).bind fun first rest₁ rest₁' h₁ _ hrest₁ => ?_
    refine (agree_furtherExprs rest₁ rest₁' hrest₁).bind fun more rest₂ rest₂' _ _ hrest₂ => ?_
    exact (agree_closing _ _ _ _ hrest₂).bind fun _ _ _ _ _ hrest₃ => agree_pure hrest₃
termination_by 4 * ts.length + 3
decreasing_by all_goals omega

theorem agree_furtherExprs (ts us : List PlacedToken) (h : Alike ts us) :
    Agree Likewise (furtherExprs stop ts) (furtherExprs stop' us) := by
  generalize hts : ts = ts' at h
  rw [furtherExprs.eq_def]
  split
  · next span rest =>
    cases h with
    | @cons _ _ span' _ us _ later =>
      rw [furtherExprs.eq_def]
      refine (agree_expr rest us later).bind fun e rest₁ rest₁' h₁ _ hrest₁ => ?_
      exact (agree_furtherExprs rest₁ rest₁' hrest₁).bind fun _ _ _ _ _ hrest₂ =>
        agree_pure hrest₂
  · next hno =>
    rw [furtherExprs.eq_def]
    split
    · exact (h.not_cons hno).elim
    · exact .ok ⟨rfl, h⟩
termination_by 4 * ts.length
decreasing_by all_goals simp only [hts, List.length_cons]; omega

end

/-! ## Patterns -/

theorem agree_rangeBound (token : Token) (span span' : Span) (text : String) :
    Agree Eq (rangeBound ⟨token, span⟩ text) (rangeBound ⟨token, span'⟩ text) := by
  unfold rangeBound
  split
  · exact .ok rfl
  · exact .error rfl

theorem agree_literalOrRange (token : Token) (span span' : Span) (text : String)
    (h : Alike ts us) :
    Agree Likewise (literalOrRange stop ⟨token, span⟩ text ts)
      (literalOrRange stop' ⟨token, span'⟩ text us) := by
  have hlower := agree_rangeBound token span span' text
  rw [literalOrRange.eq_def]
  split
  · cases h with
    | cons _ later =>
      cases later with
      | cons _ later =>
        rw [literalOrRange.eq_def]
        refine hlower.andThen fun lo _ hlo => ?_
        refine (agree_rangeBound _ _ _ _).andThen fun hi _ hhi => ?_
        subst hlo hhi
        exact agree_pure later
  · next hno =>
    rw [literalOrRange.eq_def]
    split
    · cases h with
      | cons _ later =>
        cases later
        exact absurd rfl (hno _ _ _)
    · cases h with
      | cons _ later =>
        exact hlower.andThen fun _ _ _ => .error (same_expectedToken _ _ _ later)
    · next hdots =>
      cases h
      exact absurd rfl (hdots _ _)
  · next hno hdots =>
    rw [literalOrRange.eq_def]
    split
    · exact (h.not_cons hdots).elim
    · exact (h.not_cons hdots).elim
    · exact .ok ⟨rfl, h⟩

theorem agree_predicate (h : Alike ts us) :
    Agree Likewise (predicate stop ts) (predicate stop' us) := by
  have hfound := same_expectedToken stop stop' .predicateOpener h
  rw [predicate.eq_def]
  split
  case h_1 | h_2 =>
    cases h with
    | cons _ later =>
      rw [predicate.eq_def]
      refine (agree_expr _ _ later).bind fun e rest₁ rest₁' _ _ hrest₁ => ?_
      exact (agree_closing _ _ _ _ hrest₁).bind fun _ _ _ _ _ hrest₂ => agree_pure hrest₂
  · next hparen hbrace =>
    rw [predicate.eq_def]
    split
    · exact (h.not_cons hparen).elim
    · exact (h.not_cons hbrace).elim
    · exact .error hfound

/-- The same sign of repetition is read. -/
theorem likewise_repetition (p : Pattern) (h : Alike ts us) :
    Likewise (repetition p ts) (repetition p us) := by
  have hpredicate := h.atPredicate
  rw [repetition.eq_def]
  split
  · next span rest =>
    cases h with
    | cons opens later =>
      rw [repetition.eq_def]
      dsimp only
      rw [← hpredicate]
      split
      · exact ⟨rfl, .cons opens later⟩
      · exact ⟨rfl, later⟩
  case h_2 | h_3 =>
    cases h with
    | cons _ later =>
      rw [repetition.eq_def]
      exact ⟨rfl, later⟩
  · next hquestion hstar hplus =>
    rw [repetition.eq_def]
    split
    · exact (h.not_cons hquestion).elim
    · exact (h.not_cons hstar).elim
    · exact (h.not_cons hplus).elim
    · exact ⟨rfl, h⟩

theorem agree_labelled (p : Pattern) (h : Alike ts us) :
    Agree Likewise (labelled stop p ts) (labelled stop' p us) := by
  rw [labelled.eq_def]
  split
  · cases h with
    | cons _ later =>
      cases later with
      | cons _ later =>
        rw [labelled.eq_def]
        exact .ok ⟨rfl, later⟩
  · next hno =>
    rw [labelled.eq_def]
    split
    · cases h with
      | cons _ later =>
        cases later
        exact absurd rfl (hno _ _ _)
    · cases h with
      | cons _ later => exact .error (same_expectedToken _ _ _ later)
    · next hcolon =>
      cases h
      exact absurd rfl (hcolon _ _)
  · next hno hcolon =>
    rw [labelled.eq_def]
    split
    · exact (h.not_cons hcolon).elim
    · exact (h.not_cons hcolon).elim
    · exact .ok ⟨rfl, h⟩

mutual

/-- The same patterns are read from tokens that are alike. -/
theorem agree_choice (ts us : List PlacedToken) (h : Alike ts us) :
    Agree Likewise (choice stop ts) (choice stop' us) := by
  rw [choice, choice]
  refine (agree_alternative ts us h).bind fun first rest rest' _ _ hrest => ?_
  exact (agree_furtherAlternatives rest rest' hrest).bind fun _ _ _ _ _ hrest' => agree_pure hrest'
termination_by 6 * ts.length + 5
decreasing_by all_goals omega

theorem agree_furtherAlternatives (ts us : List PlacedToken) (h : Alike ts us) :
    Agree Likewise (furtherAlternatives stop ts) (furtherAlternatives stop' us) := by
  generalize hts : ts = ts' at h
  rw [furtherAlternatives.eq_def]
  split
  · next span rest =>
    cases h with
    | @cons _ _ span' _ us _ later =>
      rw [furtherAlternatives.eq_def]
      refine (agree_alternative rest us later).bind fun alt rest₁ rest₁' h₁ _ hrest₁ => ?_
      exact (agree_furtherAlternatives rest₁ rest₁' hrest₁).bind fun _ _ _ _ _ hrest₂ =>
        agree_pure hrest₂
  · next hno =>
    rw [furtherAlternatives.eq_def]
    split
    · exact (h.not_cons hno).elim
    · exact .ok ⟨rfl, h⟩
termination_by 6 * ts.length + 4
decreasing_by all_goals simp only [hts, List.length_cons]; omega

theorem agree_alternative (ts us : List PlacedToken) (h : Alike ts us) :
    Agree Likewise (alternative stop ts) (alternative stop' us) := by
  rw [alternative, alternative]
  exact (agree_terms ts us h).bind fun _ _ _ _ _ hrest => agree_pure hrest
termination_by 6 * ts.length + 4
decreasing_by all_goals omega

theorem agree_terms (ts us : List PlacedToken) (h : Alike ts us) :
    Agree Likewise (terms stop ts) (terms stop' us) := by
  rw [terms, terms, ← h.atAltEnd]
  split
  · exact .ok ⟨rfl, h⟩
  · refine (agree_term ts us h).bind fun p rest rest' _ _ hrest => ?_
    exact (agree_terms rest rest' hrest).bind fun _ _ _ _ _ hrest' => agree_pure hrest'
termination_by 6 * ts.length + 3
decreasing_by all_goals omega

theorem agree_term (ts us : List PlacedToken) (h : Alike ts us) :
    Agree Likewise (term stop ts) (term stop' us) := by
  generalize hts : ts = ts' at h
  rw [term.eq_def]
  split
  · next span rest =>
    cases h with
    | @cons _ _ span' _ us _ later =>
      rw [term.eq_def stop']
      exact (agree_term rest us later).bind fun _ _ _ _ _ hrest => agree_pure hrest
  · next hno =>
    rw [term.eq_def]
    split
    · exact (h.not_cons hno).elim
    · subst hts
      refine (agree_prim ts us h).bind fun p rest rest' _ _ hrest => ?_
      -- A sign of repetition cannot be wrong, so reading it is no step of its own.
      have hrepetition := likewise_repetition p hrest
      dsimp only
      generalize repetition p rest = x at hrepetition ⊢
      generalize repetition p rest' = y at hrepetition ⊢
      obtain ⟨q, rest₁, h₁⟩ := x
      obtain ⟨q', rest₁', h₁'⟩ := y
      obtain ⟨hq, hrest₁⟩ := hrepetition
      subst hq
      exact (agree_labelled q hrest₁).bind fun _ _ _ _ _ hrest₂ => agree_pure hrest₂
termination_by 6 * ts.length + 2
decreasing_by
  · simp only [hts, List.length_cons]
    omega
  · omega

theorem agree_prim (ts us : List PlacedToken) (h : Alike ts us) :
    Agree Likewise (prim stop ts) (prim stop' us) := by
  generalize hts : ts = ts' at h
  rw [prim.eq_def]
  split
  · cases h with
    | cons _ later =>
      rw [prim.eq_def]
      exact .ok ⟨rfl, later⟩
  · cases h with
    | cons _ later =>
      rw [prim.eq_def]
      exact (agree_literalOrRange _ _ _ _ later).bind fun _ _ _ _ _ hrest => agree_pure hrest
  · next span rest =>
    cases h with
    | @cons _ _ span' _ us _ later =>
      rw [prim.eq_def]
      refine (agree_choice rest us later).bind fun p rest₁ rest₁' _ _ hrest₁ => ?_
      exact (agree_closing _ _ _ _ hrest₁).bind fun _ _ _ _ _ hrest₂ => agree_pure hrest₂
  · cases h with
    | cons _ later =>
      cases later with
      | cons _ later =>
        rw [prim.eq_def]
        exact .ok ⟨rfl, later⟩
  · next span rest hno =>
    -- The brace is not closed at once, in either text.
    rw [prim.eq_def stop']
    split
    case h_5 =>
      cases h with
      | cons _ later =>
        refine (agree_choice rest _ later).bind fun p rest₁ rest₁' _ _ hrest₁ => ?_
        exact (agree_closing _ _ _ _ hrest₁).bind fun _ _ _ _ _ hrest₂ => agree_pure hrest₂
    case h_4 =>
      cases h with
      | cons _ later =>
        cases later
        exact absurd rfl (hno _ _)
    case h_9 hbrace _ _ _ =>
      cases h
      exact absurd rfl (hbrace _ _)
    all_goals cases h
  · cases h with
    | cons _ later =>
      rw [prim.eq_def]
      exact (agree_expr _ _ later).bind fun _ _ _ _ _ hrest => agree_pure hrest
  · cases h with
    | cons _ later =>
      rw [prim.eq_def]
      exact (agree_predicate later).bind fun _ _ _ _ _ hrest => agree_pure hrest
  · cases h with
    | cons _ later =>
      cases later with
      | cons _ later =>
        rw [prim.eq_def]
        refine (agree_expr _ _ later).bind fun e rest₁ rest₁' _ _ hrest₁ => ?_
        exact (agree_closing _ _ _ _ hrest₁).bind fun _ _ _ _ _ hrest₂ => agree_pure hrest₂
  · next hident hstr hparen _ hbrace harrow hquestion hequal =>
    have hfound := same_expectedExpression stop stop' h
    rw [prim.eq_def stop']
    split
    case h_9 => exact .error hfound
    case h_1 => exact (h.not_cons (hident _)).elim
    case h_2 => exact (h.not_cons (hstr _)).elim
    case h_3 => exact (h.not_cons hparen).elim
    case h_4 => exact (h.not_cons hbrace).elim
    case h_5 => exact (h.not_cons hbrace).elim
    case h_6 => exact (h.not_cons harrow).elim
    case h_7 => exact (h.not_cons hquestion).elim
    case h_8 =>
      cases h with
      | cons _ later =>
        cases later
        exact absurd rfl (hequal _ _ _)
termination_by 6 * ts.length
decreasing_by all_goals simp only [hts, List.length_cons]; omega

end

/-! ## Rules -/

theorem Alike.skipComma (h : Alike ts us) : Alike (skipComma ts) (skipComma us) := by
  rw [Parse.skipComma.eq_def]
  split
  · cases h with
    | cons _ later => exact later
  · next hno =>
    rw [Parse.skipComma.eq_def]
    split
    · exact (h.not_cons hno).elim
    · exact h

/-- Whether two lists of rules are the same but for the places of the rules. -/
def SameRules (rs rs' : List Rule) : Prop :=
  (RuleSet.mk rs).definitions = (RuleSet.mk rs').definitions

/-- The same rules are read from tokens that are alike. -/
theorem agree_rules (stop stop' : Nat) (ts us : List PlacedToken) (h : Alike ts us) :
    Agree SameRules (rules stop ts) (rules stop' us) := by
  generalize hts : ts = ts' at h
  rw [rules.eq_def]
  split
  · cases h
    rw [rules.eq_def]
    exact .ok rfl
  · next name span eq rest =>
    cases h with
    | cons _ later =>
      cases later with
      | @cons _ _ _ _ us _ later =>
        rw [rules.eq_def stop']
        refine (agree_choice rest us later).bind fun body rest rest' _ _ hrest => ?_
        refine (agree_rules stop stop' _ _ hrest.skipComma).andThen fun more more' hmore => ?_
        exact .ok (congrArg ((name, body) :: ·) hmore)
  · next hno =>
    rw [rules.eq_def stop']
    split
    · cases h
    · cases h with
      | cons _ later =>
        cases later
        exact absurd rfl (hno _ _)
    · cases h with
      | cons _ later => exact .error (same_expectedToken _ _ _ later)
    · next hident =>
      cases h
      exact absurd rfl (hident _ _ _)
  · next hnil _ hident =>
    have hfound : (SyntaxError.expectedRule (found stop _)).unplaced
        = (SyntaxError.expectedRule (found stop' us)).unplaced :=
      congrArg SyntaxError.expectedRule (h.found stop stop')
    rw [rules.eq_def stop']
    split
    case h_4 => exact .error hfound
    case h_1 => cases h; exact absurd rfl hnil
    case h_2 | h_3 => exact (h.not_cons (hident _)).elim
termination_by ts.length
decreasing_by
  have := length_skipComma_le rest
  simp only [hts, List.length_cons]
  omega

/-- Tokens are alike if they are the same but for their places, and of each two neighbours the same
ones open something together. -/
theorem alike_of_zipWith {ts us : List PlacedToken} (same : ts.map (·.token) = us.map (·.token))
    (opens : List.zipWith PlacedToken.opensWith ts ts.tail
      = List.zipWith PlacedToken.opensWith us us.tail) : Alike ts us := by
  induction ts generalizing us with
  | nil =>
    obtain rfl := List.map_eq_nil_iff.1 same.symm
    exact .nil
  | cons t ts ih =>
    obtain ⟨u, us, rfl, htoken, hrest⟩ := List.map_eq_cons_iff.1 same.symm
    obtain ⟨token, span⟩ := t
    obtain ⟨_, span'⟩ := u
    obtain rfl := htoken
    cases ts with
    | nil =>
      obtain rfl := List.map_eq_nil_iff.1 hrest
      exact .cons nofun .nil
    | cons t ts =>
      obtain ⟨u, us, rfl, -, -⟩ := List.map_eq_cons_iff.1 hrest
      obtain ⟨hhead, htail⟩ := List.cons.inj opens
      refine .cons (fun x hx y hy => ?_) (ih hrest.symm htail)
      obtain rfl := Option.some.inj hx
      obtain rfl := Option.some.inj hy
      exact hhead

end Parse

/-! ## Texts -/

/-- For each two neighbours among the tokens of a text, whether they open something together. -/
def Scan.openings (s : Scan) : List Bool :=
  List.zipWith PlacedToken.opensWith s.placed s.placed.tail

/-- Two texts with the same tokens are parsed alike if the same tokens open something together. -/
theorem agree_parseGrammar {a b : String} (cleanA : (scan a).errors = [])
    (cleanB : (scan b).errors = [])
    (same : (scan a).placed.map (·.token) = (scan b).placed.map (·.token))
    (openings : (scan a).openings = (scan b).openings) :
    Parse.Agree (fun rs rs' : RuleSet => rs.definitions = rs'.definitions) (parseGrammar a)
      (parseGrammar b) := by
  have h := Parse.agree_rules (scan a).stop (scan b).stop _ _
    (Parse.alike_of_zipWith same openings)
  simp only [parseGrammar, cleanA, cleanB]
  generalize Parse.rules (scan a).stop (scan a).placed = r at h ⊢
  generalize Parse.rules (scan b).stop (scan b).placed = r' at h ⊢
  cases h with
  | ok related => exact .ok related
  | error same => exact .error same

/-- The layout of a text does not matter.  Two texts that are scanned without diagnostics to the
same tokens, of which `=` and a brace, and `?` and a parenthesis or a brace, abut in one text where
they do in the other, are either both parsed, to the same rules, or fail with the same code, title
and label. -/
theorem parseGrammar_respaced {a b : String} (cleanA : (scan a).diagnostics = [])
    (cleanB : (scan b).diagnostics = [])
    (same : (scan a).tokens.map (·.token) = (scan b).tokens.map (·.token))
    (openings : (scan a).openings = (scan b).openings) :
    (∃ rs rs', parseGrammar a = .ok rs ∧ parseGrammar b = .ok rs' ∧
        rs.definitions = rs'.definitions) ∨
      ∃ e e', parseGrammar a = .error e ∧ parseGrammar b = .error e' ∧
        e.diagnostic.code = e'.diagnostic.code ∧ e.diagnostic.title = e'.diagnostic.title ∧
          e.diagnostic.label = e'.diagnostic.label := by
  have placed : (scan a).placed.map (·.token) = (scan b).placed.map (·.token) := by
    rw [Scan.map_token_tokens, Scan.map_token_tokens] at same
    exact List.append_cancel_right same
  have h := agree_parseGrammar ((Scan.diagnostics_eq_nil_iff _).1 cleanA)
    ((Scan.diagnostics_eq_nil_iff _).1 cleanB) placed openings
  generalize parseGrammar a = r at h ⊢
  generalize parseGrammar b = r' at h ⊢
  cases h with
  | ok related => exact .inl ⟨_, _, rfl, rfl, related⟩
  | @error e e' same =>
    have told : e.diagnostic.unplaced = e'.diagnostic.unplaced := by
      rw [← e.diagnostic_unplaced, ← e'.diagnostic_unplaced, same]
    exact .inr ⟨e, e', rfl, rfl, congrArg (·.code) told, congrArg (·.title) told,
      congrArg (·.label) told⟩

/-- A rule on one line, and the same rule over two lines with comments, other quotes and an
escape. -/
theorem parseGrammar_respaced_lines :
    let line := "a = 'x' ?(v) =\x7bv\x7d"
    let lines := "a=\"\\x78\" // x\n?( v ) =\x7b v /**/ \x7d"
    ((scan line).diagnostics = [] ∧ (scan lines).diagnostics = [] ∧
      (scan line).tokens.map (·.token) = (scan lines).tokens.map (·.token) ∧
      (scan line).openings = (scan lines).openings) ∧
      ((∃ rs rs', parseGrammar line = .ok rs ∧ parseGrammar lines = .ok rs' ∧
          rs.definitions = rs'.definitions) ∨
        ∃ e e', parseGrammar line = .error e ∧ parseGrammar lines = .error e' ∧
          e.diagnostic.code = e'.diagnostic.code ∧ e.diagnostic.title = e'.diagnostic.title ∧
            e.diagnostic.label = e'.diagnostic.label) := by
  intro line lines
  have cleanLine : (scan line).diagnostics = [] := by decide +kernel
  have cleanLines : (scan lines).diagnostics = [] := by decide +kernel
  have same : (scan line).tokens.map (·.token) = (scan lines).tokens.map (·.token) := by
    decide +kernel
  have openings : (scan line).openings = (scan lines).openings := by decide +kernel
  exact ⟨⟨cleanLine, cleanLines, same, openings⟩,
    parseGrammar_respaced cleanLine cleanLines same openings⟩

end Pegboard
