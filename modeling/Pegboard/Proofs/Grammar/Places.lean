import Pegboard.Grammar.Parse
import Pegboard.Lint
import Pegboard.Normalize
import Pegboard.Proofs.Token.Places

/-!
# Where diagnostics point

Every diagnostic about a text points into the text, and so does every remark on it.  A reading
function tells of the token where it stops or of an opener that it went by, and both are tokens of
the text, or its end.  What is wrong with rules as a whole, and what is suspicious about them, is told
of the places of their names, which are tokens too, or of the start of the text.

## Main Definitions

* `Parse.AllWithin`: tokens that stand in a text of so many characters.
* `Parse.Keeps`: reading that leaves such tokens, or fails at places in the text.

## Main Results

* `Parse.keeps_choice`: patterns are read from tokens of a text in this way.
* `parseGrammar_inside`: the rules of a text stand in the text.
* `diagnostics_inside`: all diagnostics about a text point into it.
-/

namespace Pegboard

namespace Parse

/-- Tokens that stand in a text of `n` characters, and of which the end is at `stop` in it. -/
structure AllWithin (n stop : Nat) (ts : List PlacedToken) : Prop where
  stop : stop ≤ n
  tokens : ∀ t ∈ ts, t.span.Within n

/-- Reading that leaves tokens in a text of `n` characters, and tells of places in the text if it
fails. -/
def Keeps (n stop : Nat) {m : Nat} {α : Type} (r : Attempt (Reading m α)) : Prop :=
  (∀ x, r = .ok x → AllWithin n stop x.rest) ∧ ∀ e, r = .error e → e.Inside n

variable {n stop : Nat} {ts : List PlacedToken}

namespace AllWithin

theorem head {t : PlacedToken} (h : AllWithin n stop (t :: ts)) : t.span.Within n :=
  h.tokens t (.head _)

theorem tail {t : PlacedToken} (h : AllWithin n stop (t :: ts)) : AllWithin n stop ts :=
  ⟨h.stop, fun u hu => h.tokens u (.tail _ hu)⟩

/-- The token that is found in front stands in the text, also if it is the end of the text. -/
theorem found (h : AllWithin n stop ts) : (found stop ts).span.Within n := by
  cases ts with
  | nil => exact ⟨Nat.le_refl _, h.stop⟩
  | cons t ts => exact h.head

end AllWithin

section Keeps

variable {m k : Nat} {α β γ : Type}

theorem keeps_ok {a : α} {rest : List PlacedToken} {h : rest.length < m}
    (within : AllWithin n stop rest) : Keeps n stop (.ok ⟨a, rest, h⟩ : Attempt (Reading m α)) := by
  refine ⟨fun x hx => ?_, fun e he => by contradiction⟩
  obtain rfl := Except.ok.inj hx
  exact within

theorem keeps_pure {a : α} {rest : List PlacedToken} {h : rest.length < m}
    (within : AllWithin n stop rest) : Keeps n stop (pure ⟨a, rest, h⟩ : Attempt (Reading m α)) :=
  keeps_ok within

theorem keeps_error {e : SyntaxError} (he : e.Inside n) :
    Keeps n stop (.error e : Attempt (Reading m α)) := by
  refine ⟨fun x hx => by contradiction, fun e' he' => ?_⟩
  obtain rfl := Except.error.inj he'
  exact he

/-- Reading twice in a row. -/
theorem Keeps.bind {r : Attempt (Reading m α)} {f : Reading m α → Attempt (Reading k β)}
    (first : Keeps n stop r) (next : ∀ a rest h, AllWithin n stop rest → Keeps n stop (f ⟨a, rest, h⟩)) :
    Keeps n stop (r >>= f) := by
  cases r with
  | error e => exact keeps_error (first.2 e rfl)
  | ok x => exact next x.value x.rest x.shorter (first.1 x rfl)

/-- Reading after a step that reads nothing. -/
theorem keeps_bind {r : Attempt γ} {f : γ → Attempt (Reading k β)}
    (wrong : ∀ e, r = .error e → e.Inside n) (next : ∀ c, Keeps n stop (f c)) : Keeps n stop (r >>= f) := by
  cases r with
  | error e => exact keeps_error (wrong e rfl)
  | ok c => exact next c

end Keeps

/-! ## What is wrong with a token -/

theorem inside_expectedToken (expected : Expected) (h : AllWithin n stop ts) :
    (SyntaxError.expectedToken expected (found stop ts)).Inside n :=
  Diagnostic.inside_error (h.found)

theorem inside_expectedExpression (h : AllWithin n stop ts) :
    (SyntaxError.expectedExpression (found stop ts)).Inside n :=
  Diagnostic.inside_error (h.found)

theorem inside_expectedRule (h : AllWithin n stop ts) :
    (SyntaxError.expectedRule (found stop ts)).Inside n :=
  Diagnostic.inside_error (h.found)

/-- The opener of what is not closed is remembered, and so is where it stands. -/
theorem keeps_closing (closer : Symbol) {opener : PlacedToken} (hopener : opener.span.Within n)
    (h : AllWithin n stop ts) : Keeps n stop (closing stop closer opener ts) := by
  have wrong {t : PlacedToken} (ht : t.span.Within n) :
      (SyntaxError.unclosedDelimiter closer opener t).Inside n :=
    (Diagnostic.inside_error ht).withSpannedNote hopener _
  unfold closing
  split
  · split
    · exact keeps_ok h.tail
    · exact keeps_error (wrong h.head)
  · exact keeps_error (wrong (h.found))

/-! ## Expressions -/

theorem keeps_attributeName (h : AllWithin n stop ts) : Keeps n stop (attributeName stop ts) := by
  unfold attributeName
  split
  · exact keeps_ok h.tail
  · exact keeps_error (inside_expectedToken _ h)

mutual

/-- Expressions are read from the tokens of a text. -/
theorem keeps_expr (ts : List PlacedToken) (h : AllWithin n stop ts) : Keeps n stop (expr stop ts) := by
  rw [expr]
  refine (keeps_qual ts h).bind fun lhs rest shorter hrest => ?_
  exact (keeps_summands lhs rest hrest).bind fun _ _ _ hrest' => keeps_pure hrest'
termination_by 4 * ts.length + 2
decreasing_by all_goals omega

theorem keeps_summands (lhs : Expr) (ts : List PlacedToken) (h : AllWithin n stop ts) :
    Keeps n stop (summands stop lhs ts) := by
  generalize hts : ts = ts' at h
  rw [summands.eq_def]
  split
  · next span rest =>
    refine (keeps_qual rest h.tail).bind fun rhs rest' shorter hrest' => ?_
    exact (keeps_summands _ rest' hrest').bind fun _ _ _ hrest => keeps_pure hrest
  · exact keeps_ok h
termination_by 4 * ts.length
decreasing_by all_goals simp only [hts, List.length_cons]; omega

theorem keeps_qual (ts : List PlacedToken) (h : AllWithin n stop ts) : Keeps n stop (qual stop ts) := by
  rw [qual]
  refine (keeps_primary ts h).bind fun base rest shorter hrest => ?_
  exact (keeps_suffixes rest hrest).bind fun _ _ _ hrest' => keeps_pure hrest'
termination_by 4 * ts.length + 1
decreasing_by all_goals omega

theorem keeps_suffixes (ts : List PlacedToken) (h : AllWithin n stop ts) :
    Keeps n stop (suffixes stop ts) := by
  generalize hts : ts = ts' at h
  rw [suffixes.eq_def]
  split
  · next span rest =>
    refine (keeps_expr rest h.tail).bind fun index rest₁ h₁ hrest₁ => ?_
    refine (keeps_closing _ h.head hrest₁).bind fun _ rest₂ h₂ hrest₂ => ?_
    exact (keeps_suffixes rest₂ hrest₂).bind fun _ _ _ hrest₃ => keeps_pure hrest₃
  · next span rest =>
    refine (keeps_exprs _ h.head rest h.tail).bind fun args rest₁ h₁ hrest₁ => ?_
    exact (keeps_suffixes rest₁ hrest₁).bind fun _ _ _ hrest₂ => keeps_pure hrest₂
  · next span rest =>
    refine (keeps_attributeName h.tail).bind fun name rest₁ h₁ hrest₁ => ?_
    exact (keeps_suffixes rest₁ hrest₁).bind fun _ _ _ hrest₂ => keeps_pure hrest₂
  · exact keeps_ok h
termination_by 4 * ts.length
decreasing_by all_goals simp only [hts, List.length_cons]; omega

theorem keeps_primary (ts : List PlacedToken) (h : AllWithin n stop ts) :
    Keeps n stop (primary stop ts) := by
  generalize hts : ts = ts' at h
  rw [primary.eq_def]
  split
  · exact keeps_ok h.tail
  · exact keeps_ok h.tail
  · exact keeps_ok h.tail
  · exact keeps_ok h.tail
  · next span rest =>
    exact (keeps_exprs _ h.head rest h.tail).bind fun _ _ _ hrest => keeps_pure hrest
  · next span rest =>
    refine (keeps_expr rest h.tail).bind fun e rest₁ _ hrest₁ => ?_
    exact (keeps_closing _ h.head hrest₁).bind fun _ _ _ hrest₂ => keeps_pure hrest₂
  · exact keeps_error (inside_expectedExpression h)
termination_by 4 * ts.length
decreasing_by all_goals simp only [hts, List.length_cons]; omega

theorem keeps_exprs (closer : Symbol) {opener : PlacedToken} (hopener : opener.span.Within n)
    (ts : List PlacedToken) (h : AllWithin n stop ts) : Keeps n stop (exprs stop closer opener ts) := by
  rw [exprs]
  split
  · exact (keeps_closing _ hopener h).bind fun _ _ _ hrest => keeps_pure hrest
  · refine (keeps_expr ts h).bind fun first rest₁ h₁ hrest₁ => ?_
    refine (keeps_furtherExprs rest₁ hrest₁).bind fun more rest₂ _ hrest₂ => ?_
    exact (keeps_closing _ hopener hrest₂).bind fun _ _ _ hrest₃ => keeps_pure hrest₃
termination_by 4 * ts.length + 3
decreasing_by all_goals omega

theorem keeps_furtherExprs (ts : List PlacedToken) (h : AllWithin n stop ts) :
    Keeps n stop (furtherExprs stop ts) := by
  generalize hts : ts = ts' at h
  rw [furtherExprs.eq_def]
  split
  · next span rest =>
    refine (keeps_expr rest h.tail).bind fun e rest₁ h₁ hrest₁ => ?_
    exact (keeps_furtherExprs rest₁ hrest₁).bind fun _ _ _ hrest₂ => keeps_pure hrest₂
  · exact keeps_ok h
termination_by 4 * ts.length
decreasing_by all_goals simp only [hts, List.length_cons]; omega

end

/-! ## Patterns -/

theorem inside_of_rangeBound {bound : PlacedToken} {text : String} (h : bound.span.Within n)
    (e : SyntaxError) (he : rangeBound bound text = .error e) : e.Inside n := by
  unfold rangeBound at he
  split at he
  · contradiction
  · obtain rfl := Except.error.inj he
    exact Diagnostic.inside_error h

theorem keeps_literalOrRange {lower : PlacedToken} (hlower : lower.span.Within n) (text : String)
    (h : AllWithin n stop ts) : Keeps n stop (literalOrRange stop lower text ts) := by
  unfold literalOrRange
  split
  · refine keeps_bind (inside_of_rangeBound hlower) fun lo => ?_
    exact keeps_bind (inside_of_rangeBound h.tail.head) fun hi => keeps_pure h.tail.tail
  · exact keeps_bind (inside_of_rangeBound hlower) fun _ =>
      keeps_error (inside_expectedToken _ h.tail)
  · exact keeps_ok h

theorem keeps_predicate (h : AllWithin n stop ts) : Keeps n stop (predicate stop ts) := by
  unfold predicate
  split
  · refine (keeps_expr _ h.tail).bind fun e rest₁ _ hrest₁ => ?_
    exact (keeps_closing _ h.head hrest₁).bind fun _ _ _ hrest₂ => keeps_pure hrest₂
  · refine (keeps_expr _ h.tail).bind fun e rest₁ _ hrest₁ => ?_
    exact (keeps_closing _ h.head hrest₁).bind fun _ _ _ hrest₂ => keeps_pure hrest₂
  · exact keeps_error (inside_expectedToken _ h)

/-- A sign of repetition is read without fail. -/
theorem AllWithin.repetition (p : Pattern) (h : AllWithin n stop ts) :
    AllWithin n stop (repetition p ts).rest := by
  unfold Parse.repetition
  split
  · split
    · exact h
    · exact h.tail
  · exact h.tail
  · exact h.tail
  · exact h

theorem keeps_labelled (p : Pattern) (h : AllWithin n stop ts) : Keeps n stop (labelled stop p ts) := by
  unfold labelled
  split
  · exact keeps_ok h.tail.tail
  · exact keeps_error (inside_expectedToken _ h.tail)
  · exact keeps_ok h

mutual

/-- Patterns are read from the tokens of a text. -/
theorem keeps_choice (ts : List PlacedToken) (h : AllWithin n stop ts) : Keeps n stop (choice stop ts) := by
  rw [choice]
  refine (keeps_alternative ts h).bind fun first rest shorter hrest => ?_
  exact (keeps_furtherAlternatives rest hrest).bind fun _ _ _ hrest' => keeps_pure hrest'
termination_by 6 * ts.length + 5
decreasing_by all_goals omega

theorem keeps_furtherAlternatives (ts : List PlacedToken) (h : AllWithin n stop ts) :
    Keeps n stop (furtherAlternatives stop ts) := by
  generalize hts : ts = ts' at h
  rw [furtherAlternatives.eq_def]
  split
  · next span rest =>
    refine (keeps_alternative rest h.tail).bind fun alt rest₁ h₁ hrest₁ => ?_
    exact (keeps_furtherAlternatives rest₁ hrest₁).bind fun _ _ _ hrest₂ => keeps_pure hrest₂
  · exact keeps_ok h
termination_by 6 * ts.length + 4
decreasing_by all_goals simp only [hts, List.length_cons]; omega

theorem keeps_alternative (ts : List PlacedToken) (h : AllWithin n stop ts) :
    Keeps n stop (alternative stop ts) := by
  rw [alternative]
  exact (keeps_terms ts h).bind fun _ _ _ hrest => keeps_pure hrest
termination_by 6 * ts.length + 4
decreasing_by all_goals omega

theorem keeps_terms (ts : List PlacedToken) (h : AllWithin n stop ts) : Keeps n stop (terms stop ts) := by
  rw [terms]
  split
  · exact keeps_ok h
  · refine (keeps_term ts h).bind fun p rest shorter hrest => ?_
    exact (keeps_terms rest hrest).bind fun _ _ _ hrest' => keeps_pure hrest'
termination_by 6 * ts.length + 3
decreasing_by all_goals omega

theorem keeps_term (ts : List PlacedToken) (h : AllWithin n stop ts) : Keeps n stop (term stop ts) := by
  generalize hts : ts = ts' at h
  rw [term.eq_def]
  split
  · next span rest =>
    exact (keeps_term rest h.tail).bind fun _ _ _ hrest => keeps_pure hrest
  · subst hts
    refine (keeps_prim ts h).bind fun p rest shorter hrest => ?_
    have hrepetition := hrest.repetition p
    dsimp only
    generalize repetition p rest = r at hrepetition ⊢
    obtain ⟨q, rest₁, h₁⟩ := r
    exact (keeps_labelled q hrepetition).bind fun _ _ _ hrest' => keeps_pure hrest'
termination_by 6 * ts.length + 2
decreasing_by
  · simp only [hts, List.length_cons]
    omega
  · omega

theorem keeps_prim (ts : List PlacedToken) (h : AllWithin n stop ts) : Keeps n stop (prim stop ts) := by
  generalize hts : ts = ts' at h
  rw [prim.eq_def]
  split
  · exact keeps_ok h.tail
  · exact (keeps_literalOrRange h.head _ h.tail).bind fun _ _ _ hrest => keeps_pure hrest
  · next span rest =>
    refine (keeps_choice rest h.tail).bind fun p rest₁ _ hrest₁ => ?_
    exact (keeps_closing _ h.head hrest₁).bind fun _ _ _ hrest₂ => keeps_pure hrest₂
  · exact keeps_ok h.tail.tail
  · next span rest _ =>
    refine (keeps_choice rest h.tail).bind fun p rest₁ _ hrest₁ => ?_
    exact (keeps_closing _ h.head hrest₁).bind fun _ _ _ hrest₂ => keeps_pure hrest₂
  · exact (keeps_expr _ h.tail).bind fun _ _ _ hrest => keeps_pure hrest
  · exact (keeps_predicate h.tail).bind fun _ _ _ hrest => keeps_pure hrest
  · next equal opener rest =>
    refine (keeps_expr _ h.tail.tail).bind fun e rest₁ _ hrest₁ => ?_
    exact (keeps_closing _ h.tail.head hrest₁).bind fun _ _ _ hrest₂ => keeps_pure hrest₂
  · exact keeps_error (inside_expectedExpression h)
termination_by 6 * ts.length
decreasing_by all_goals simp only [hts, List.length_cons]; omega

end

/-! ## Rules -/

theorem AllWithin.skipComma (h : AllWithin n stop ts) : AllWithin n stop (skipComma ts) := by
  unfold Parse.skipComma
  split
  · exact h.tail
  · exact h

/-- The rules that are read from the tokens of a text stand in the text, and what is wrong with them
is told of places in it. -/
theorem rules_inside (ts : List PlacedToken) (h : AllWithin n stop ts) :
    (∀ rs, rules stop ts = .ok rs → ∀ rule ∈ rs, rule.span.Within n) ∧
      ∀ e, rules stop ts = .error e → e.Inside n := by
  generalize hts : ts = ts' at h
  rw [rules.eq_def]
  split
  · refine ⟨fun rs hrs => ?_, fun e he => by contradiction⟩
    obtain rfl := Except.ok.inj hrs
    simp
  · next name span eq rest =>
    obtain ⟨hrest', wrong⟩ := keeps_choice rest h.tail.tail
    cases hchoice : choice stop rest with
    | error e =>
      refine ⟨fun rs hrs => by contradiction, fun e' he' => ?_⟩
      obtain rfl := Except.error.inj he'
      exact wrong e hchoice
    | ok x =>
      obtain ⟨body, rest', shorter⟩ := x
      have later := rules_inside (skipComma rest') (hrest' _ hchoice).skipComma
      cases hmore : rules stop (skipComma rest') with
      | error e =>
        simp only [bind, Except.bind, hmore]
        exact ⟨fun rs hrs => by contradiction, fun e' he' => later.2 e' (he' ▸ hmore)⟩
      | ok more =>
        simp only [bind, Except.bind, hmore, pure, Except.pure]
        refine ⟨fun rs hrs rule hrule => ?_, fun e he => by contradiction⟩
        obtain rfl := Except.ok.inj hrs
        rcases List.mem_cons.1 hrule with rfl | hrule
        · exact h.head
        · exact later.1 more hmore rule hrule
  · refine ⟨fun rs hrs => by contradiction, fun e he => ?_⟩
    obtain rfl := Except.error.inj he
    exact inside_expectedToken _ h.tail
  · refine ⟨fun rs hrs => by contradiction, fun e he => ?_⟩
    obtain rfl := Except.error.inj he
    exact inside_expectedRule h
termination_by ts.length
decreasing_by
  have := length_skipComma_le rest'
  simp only [hts, List.length_cons]
  omega

end Parse

/-! ## Rule sets -/

namespace RuleSet

/-- The names of the rules stand in a text of `n` characters. -/
def Inside (n : Nat) (rs : RuleSet) : Prop := ∀ rule ∈ rs.rules, rule.span.Within n

variable {n : Nat} {rs : RuleSet}

/-- The place that stands for a rule of some name, if need be the start of the text. -/
theorem Inside.place (h : rs.Inside n) (name : String) (i : Nat) {other : Span}
    (hother : other.Within n) : ((rs.spansOf name)[i]?.getD other).Within n := by
  cases hspan : (rs.spansOf name)[i]? with
  | none => exact hother
  | some span =>
    obtain ⟨rule, hrule, rfl⟩ := List.mem_map.1 (List.mem_of_getElem? hspan)
    exact h rule (List.mem_filter.1 hrule).1

/-- What is wrong with rules as a whole is told of places where rules stand. -/
theorem Inside.grammarError (h : rs.Inside n) (e : GrammarError) :
    (e.diagnostic rs).Inside n := by
  have origin := Span.within_origin n
  cases e with
  | emptyGrammar => exact (Diagnostic.inside_error origin).withHelp _
  | duplicateRule name =>
    have first := h.place name 0 origin
    exact (Diagnostic.inside_error (h.place name 1 first)).withSpannedNote first _
  | unresolvedRule rule reference => exact Diagnostic.inside_error (h.place rule 0 origin)
  | unknownLeftAssocRule name => exact Diagnostic.inside_error origin

/-- What is suspicious about rules is told of places where rules stand. -/
theorem Inside.lint (h : rs.Inside n) : ∀ d ∈ rs.lint, d.Inside n := by
  intro d hd
  rcases List.mem_append.1 hd with hd | hd
  · obtain ⟨rule, hrule, hd⟩ := List.mem_flatMap.1 hd
    obtain ⟨s, -, rfl⟩ := List.mem_map.1 hd
    exact ((Diagnostic.inside_warning (h rule hrule)).withNote _).withHelp _
  · obtain ⟨rule, hrule, rfl⟩ := List.mem_map.1 hd
    have hrule : rule ∈ rs.rules := List.mem_of_mem_drop (List.mem_filter.1 hrule).1
    exact (Diagnostic.inside_warning (h rule hrule)).withHelp _

end RuleSet

/-! ## Texts -/

/-- What scanning a text gives stands in the text. -/
theorem scan_inside (text : String) :
    Parse.AllWithin text.length (scan text).stop (scan text).placed ∧
      ∀ e ∈ (scan text).errors, e.Inside text.length := by
  have inside := Scan.read_inside 0 text.toList
  rw [Nat.zero_add, String.length_toList] at inside
  exact ⟨⟨Nat.le_of_eq inside.1, inside.2.1⟩, inside.2.2⟩

/-- The rules of a text stand in the text, and if it has none, then what is wrong with it is told of
places in it. -/
theorem parseGrammar_inside (text : String) :
    (∀ rs, parseGrammar text = .ok rs → rs.Inside text.length) ∧
      ∀ e, parseGrammar text = .error e → e.Inside text.length := by
  obtain ⟨placed, errors⟩ := scan_inside text
  cases herrors : (scan text).errors with
  | cons first others =>
    simp only [parseGrammar, herrors]
    refine ⟨fun rs hrs => by contradiction, fun e he => ?_⟩
    obtain rfl := Except.error.inj he
    exact errors first (herrors ▸ .head _)
  | nil =>
    obtain ⟨places, wrong⟩ := Parse.rules_inside _ placed
    cases hrules : Parse.rules (scan text).stop (scan text).placed with
    | error e =>
      simp only [parseGrammar, herrors, hrules]
      refine ⟨fun rs hrs => by contradiction, fun e' he' => ?_⟩
      obtain rfl := Except.error.inj he'
      exact wrong e hrules
    | ok rules =>
      simp only [parseGrammar, herrors, hrules]
      refine ⟨fun rs hrs => ?_, fun e he => by contradiction⟩
      obtain rfl := Except.ok.inj hrs
      exact places rules hrules

/-- All diagnostics about a text, and all remarks on them, are about places in the text: those about
its tokens, about their order, about its rules as a whole, whatever is asked of normalization, and the
warnings about its rules. -/
theorem diagnostics_inside (text : String) :
    (∀ d ∈ (scan text).diagnostics, d.Inside text.length) ∧
      (∀ e, parseGrammar text = .error e → e.diagnostic.Inside text.length) ∧
      ∀ rs, parseGrammar text = .ok rs →
        (∀ options e, rs.normalize options = .error e →
          (e.diagnostic rs).Inside text.length) ∧
        ∀ d ∈ rs.lint, d.Inside text.length := by
  refine ⟨fun d hd => ?_, (parseGrammar_inside text).2, fun rs parsed => ?_⟩
  · obtain ⟨e, he, rfl⟩ := List.mem_map.1 hd
    exact (scan_inside text).2 e he
  · have inside := (parseGrammar_inside text).1 rs parsed
    exact ⟨fun _ e _ => inside.grammarError e, inside.lint⟩

end Pegboard
