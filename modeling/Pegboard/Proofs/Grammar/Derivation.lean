import Pegboard.Grammar.Parse

/-!
# Derivations

The notation of grammars is itself given by a grammar, and what is parsed is the tree of one of its
derivations.  The relations here follow that grammar, nonterminal by nonterminal; each relates a
string of tokens to what the string stands for.  They do not mention how tokens are looked ahead at.

The grammar leaves open where an expression in an action ends, for a parenthesis after it may be the
arguments of a call or the next term.  It is a call: a term that follows an action does not start
with a parenthesis.  This is the only derivation that is left out, but for a pair of braces with
nothing inside, which is no capture.

## Main Definitions

* `Parse.DerivesExpr`, `Parse.DerivesChoice`: the strings of expressions and of patterns.
* `Parse.DerivesRules`: the strings of rules, with the places of the tokens.
* `Parse.Gives`: something is so of what reading gives, if it gives anything.

## Main Results

* `Parse.derives_expr`, `Parse.derives_choice`: what is read is derived from the tokens read.
* `Parse.derives_of_parseGrammar`: so are the rules of a text, from all tokens of the text.
-/

namespace Pegboard

namespace Parse

/-! ## The grammar of the notation -/

mutual

/-- Sums, which nest to the left. -/
inductive DerivesExpr : List Token → Expr → Prop where
  | qual {us e} (h : DerivesQual us e) : DerivesExpr us e
  | plus {us vs lhs rhs} (left : DerivesExpr us lhs) (right : DerivesQual vs rhs) :
      DerivesExpr (us ++ .symbol .plus :: vs) (.plus lhs rhs)

/-- Expressions with their suffixes. -/
inductive DerivesQual : List Token → Expr → Prop where
  | primary {us e} (h : DerivesPrimary us e) : DerivesQual us e
  | suffixed {us vs e ss} (base : DerivesPrimary us e) (suffixes : DerivesSuffixes vs ss)
      (some : ss ≠ []) : DerivesQual (us ++ vs) (.qual e ss)

/-- Suffixes, in their order. -/
inductive DerivesSuffixes : List Token → List Suffix → Prop where
  | nil : DerivesSuffixes [] []
  | item {us vs e ss} (index : DerivesExpr us e) (later : DerivesSuffixes vs ss) :
      DerivesSuffixes (.symbol .openBracket :: us ++ .symbol .closeBracket :: vs) (.item e :: ss)
  | call {us vs es ss} (args : DerivesExprs us es) (later : DerivesSuffixes vs ss) :
      DerivesSuffixes (.symbol .openParen :: us ++ .symbol .closeParen :: vs) (.call es :: ss)
  | attr {name vs ss} (later : DerivesSuffixes vs ss) :
      DerivesSuffixes (.symbol .dot :: .ident name :: vs) (.attr name :: ss)

/-- Expressions without suffixes. -/
inductive DerivesPrimary : List Token → Expr → Prop where
  | var (name : String) : DerivesPrimary [.ident name] (.var name)
  | dec (digits : String) : DerivesPrimary [.dec digits] (.dec digits)
  | hex (digits : String) : DerivesPrimary [.hex digits] (.hex digits)
  | str (text : String) : DerivesPrimary [.str text] (.str text)
  | arr {us es} (items : DerivesExprs us es) :
      DerivesPrimary (.symbol .openBracket :: us ++ [.symbol .closeBracket]) (.arr es)
  | group {us e} (h : DerivesExpr us e) :
      DerivesPrimary (.symbol .openParen :: us ++ [.symbol .closeParen]) e

/-- Expressions with commas between. -/
inductive DerivesExprs : List Token → List Expr → Prop where
  | nil : DerivesExprs [] []
  | cons {us vs e es} (first : DerivesExpr us e) (further : DerivesFurtherExprs vs es) :
      DerivesExprs (us ++ vs) (e :: es)

/-- Expressions with a comma before each. -/
inductive DerivesFurtherExprs : List Token → List Expr → Prop where
  | nil : DerivesFurtherExprs [] []
  | cons {us vs e es} (first : DerivesExpr us e) (further : DerivesFurtherExprs vs es) :
      DerivesFurtherExprs (.symbol .comma :: us ++ vs) (e :: es)

end

mutual

/-- Choices. -/
inductive DerivesChoice : List Token → Pattern → Prop where
  | mk {us vs p ps} (first : DerivesAlternative us p) (further : DerivesFurther vs ps) :
      DerivesChoice (us ++ vs) (.choice (p :: ps))

/-- Alternatives with a bar before each. -/
inductive DerivesFurther : List Token → List Pattern → Prop where
  | nil : DerivesFurther [] []
  | cons {us vs p ps} (first : DerivesAlternative us p) (further : DerivesFurther vs ps) :
      DerivesFurther (.symbol .pipe :: us ++ vs) (p :: ps)

/-- Alternatives: sequences of terms, or nothing. -/
inductive DerivesAlternative : List Token → Pattern → Prop where
  | empty : DerivesAlternative [] .empty
  | seq {us ps} (terms : DerivesTerms us ps) (some : ps ≠ []) : DerivesAlternative us (.seq ps)

/-- Terms, of which none in parentheses follows an action. -/
inductive DerivesTerms : List Token → List Pattern → Prop where
  | nil : DerivesTerms [] []
  | cons {us vs p ps} (first : DerivesTerm us p) (later : DerivesTerms vs ps)
      (apart : ∀ e, p = .action e → vs.head? ≠ some (.symbol .openParen)) :
      DerivesTerms (us ++ vs) (p :: ps)

/-- Lookaheads, and repetitions with or without a label. -/
inductive DerivesTerm : List Token → Pattern → Prop where
  | not {us p} (h : DerivesTerm us p) : DerivesTerm (.symbol .tilde :: us) (.not p)
  | postfixed {us p} (h : DerivesPostfixed us p) : DerivesTerm us p
  | label {us p} (h : DerivesPostfixed us p) (name : String) :
      DerivesTerm (us ++ [.symbol .colon, .ident name]) (.label p name)

/-- Patterns with or without a sign of repetition. -/
inductive DerivesPostfixed : List Token → Pattern → Prop where
  | prim {us p} (h : DerivesPrim us p) : DerivesPostfixed us p
  | opt {us p} (h : DerivesPrim us p) : DerivesPostfixed (us ++ [.symbol .question]) (.opt p)
  | star {us p} (h : DerivesPrim us p) : DerivesPostfixed (us ++ [.symbol .star]) (.star p)
  | plus {us p} (h : DerivesPrim us p) : DerivesPostfixed (us ++ [.symbol .plus]) (.plus p)

/-- Patterns without sign of repetition and label. -/
inductive DerivesPrim : List Token → Pattern → Prop where
  | apply (name : String) : DerivesPrim [.ident name] (.apply name)
  | lit (text : String) : DerivesPrim [.str text] (.lit text)
  | range (lo hi : Char) :
      DerivesPrim [.str (String.singleton lo), .symbol .dotDot, .str (String.singleton hi)]
        (.range lo hi)
  | paren {us p} (h : DerivesChoice us p) :
      DerivesPrim (.symbol .openParen :: us ++ [.symbol .closeParen]) (.paren p)
  | pos : DerivesPrim [.symbol .openBrace, .symbol .closeBrace] .pos
  | capture {us p} (h : DerivesChoice us p) (some : us ≠ []) :
      DerivesPrim (.symbol .openBrace :: us ++ [.symbol .closeBrace]) (.capture p)
  | action {us e} (h : DerivesExpr us e) : DerivesPrim (.symbol .arrow :: us) (.action e)
  | pred {us e} (h : DerivesExpr us e) :
      DerivesPrim (.symbol .question :: .symbol .openParen :: us ++ [.symbol .closeParen]) (.pred e)
  | predBraces {us e} (h : DerivesExpr us e) :
      DerivesPrim (.symbol .question :: .symbol .openBrace :: us ++ [.symbol .closeBrace]) (.pred e)
  | eq {us e} (h : DerivesExpr us e) :
      DerivesPrim (.symbol .equal :: .symbol .openBrace :: us ++ [.symbol .closeBrace]) (.eq e)

end

/-- The tokens of a list, without their places. -/
def tokens (ts : List PlacedToken) : List Token := ts.map (·.token)

@[simp] theorem tokens_nil : tokens [] = [] := rfl

@[simp] theorem tokens_cons (t : PlacedToken) (ts : List PlacedToken) :
    tokens (t :: ts) = t.token :: tokens ts := rfl

@[simp] theorem tokens_append (ts us : List PlacedToken) :
    tokens (ts ++ us) = tokens ts ++ tokens us := List.map_append

/-- Rules, each of which stands where its name stands. -/
inductive DerivesRule : List PlacedToken → Rule → Prop where
  | mk {us body} (name : String) (span eq : Span) (h : DerivesChoice (tokens us) body) :
      DerivesRule (⟨.ident name, span⟩ :: ⟨.symbol .equal, eq⟩ :: us) ⟨name, body, span⟩

/-- The rules of a text, with or without a comma after each. -/
inductive DerivesRules : List PlacedToken → List Rule → Prop where
  | nil : DerivesRules [] []
  | cons {us vs r rs} (first : DerivesRule us r) (later : DerivesRules vs rs) :
      DerivesRules (us ++ vs) (r :: rs)
  | comma {us vs r rs} (first : DerivesRule us r) (span : Span) (later : DerivesRules vs rs) :
      DerivesRules (us ++ ⟨.symbol .comma, span⟩ :: vs) (r :: rs)

/-! ## Reading in steps -/

/-- Whether `P` is so of what reading gives and of the tokens that it leaves, if it gives
anything. -/
def Gives {n : Nat} {α : Type} (P : α → List PlacedToken → Prop) (r : Attempt (Reading n α)) :
    Prop :=
  ∀ x, r = .ok x → P x.value x.rest

/-- The tokens from `ts` up to `rest` are derived as `a`. -/
def Spans {α : Type} (D : List Token → α → Prop) (ts : List PlacedToken) (a : α)
    (rest : List PlacedToken) : Prop :=
  ∃ us, ts = us ++ rest ∧ D (tokens us) a

section Gives

variable {n m : Nat} {α β : Type} {P : α → List PlacedToken → Prop}
variable {Q : β → List PlacedToken → Prop}

theorem gives_pure {a : α} {rest : List PlacedToken} {h : rest.length < n} (ha : P a rest) :
    Gives P (pure ⟨a, rest, h⟩ : Attempt (Reading n α)) := by
  rintro x hx
  obtain rfl := Except.ok.inj hx
  exact ha

theorem gives_ok {a : α} {rest : List PlacedToken} {h : rest.length < n} (ha : P a rest) :
    Gives P (.ok ⟨a, rest, h⟩ : Attempt (Reading n α)) :=
  gives_pure ha

theorem gives_error {e : SyntaxError} : Gives P (.error e : Attempt (Reading n α)) :=
  fun _ h => by contradiction

theorem gives_any {r : Attempt (Reading n α)} : Gives (fun _ _ => True) r := fun _ _ => trivial

theorem Gives.and {P' : α → List PlacedToken → Prop} {r : Attempt (Reading n α)} (h : Gives P r)
    (h' : Gives P' r) : Gives (fun a rest => P a rest ∧ P' a rest) r :=
  fun x hx => ⟨h x hx, h' x hx⟩

/-- Reading twice in a row. -/
theorem Gives.bind {r : Attempt (Reading n α)} {f : Reading n α → Attempt (Reading m β)}
    (first : Gives P r) (next : ∀ a rest h, P a rest → Gives Q (f ⟨a, rest, h⟩)) :
    Gives Q (r >>= f) := by
  intro y hy
  cases r with
  | error e => contradiction
  | ok x => exact next x.value x.rest x.shorter (first x rfl) y hy

/-- Reading after a step that reads nothing. -/
theorem gives_bind {γ : Type} {r : Attempt γ} {f : γ → Attempt (Reading m β)}
    (next : ∀ c, r = .ok c → Gives Q (f c)) : Gives Q (r >>= f) := by
  intro y hy
  cases r with
  | error e => contradiction
  | ok c => exact next c rfl y hy

end Gives

variable {stop : Nat} {ts : List PlacedToken}

/-- The first token of a list. -/
theorem head_token {token : Token} (h : (tokens ts).head? = some token) :
    ∃ t : PlacedToken, t.token = token ∧ ∃ rest, ts = t :: rest := by
  cases ts with
  | nil => contradiction
  | cons t rest => exact ⟨t, Option.some.inj h, rest, rfl⟩

theorem gives_closing (closer : Symbol) (opener : PlacedToken) :
    Gives (fun _ rest => ∃ span, ts = ⟨.symbol closer, span⟩ :: rest)
      (closing stop closer opener ts) := by
  unfold closing
  split
  · next s span rest =>
    split
    · next same => exact gives_ok ⟨span, by rw [same]⟩
    · exact gives_error
  · exact gives_error

/-- What is read between the tokens `opening` and a closing sign is derived with them. -/
theorem Spans.enclosed {α β : Type} {D : List Token → α → Prop} {E : List Token → β → Prop} {a : α}
    {b : β} {closer : Symbol} {rest rest' : List PlacedToken} (h : Spans D ts a rest)
    (opening : List PlacedToken) (hclose : ∃ span, rest = ⟨.symbol closer, span⟩ :: rest')
    (derives : ∀ us, D us a → E (tokens opening ++ us ++ [.symbol closer]) b) :
    Spans E (opening ++ ts) b rest' := by
  obtain ⟨us, hus, ha⟩ := h
  obtain ⟨span, hclose⟩ := hclose
  refine ⟨opening ++ us ++ [⟨.symbol closer, span⟩], by simp [hus, hclose], ?_⟩
  simpa using derives _ ha

/-! ## Expressions -/

theorem gives_attributeName :
    Gives (fun name rest => ∃ span, ts = ⟨.ident name, span⟩ :: rest) (attributeName stop ts) := by
  unfold attributeName
  split
  · exact gives_ok ⟨_, rfl⟩
  · exact gives_error

mutual

/-- An expression that is read is derived from the tokens read. -/
theorem derives_expr (stop : Nat) (ts : List PlacedToken) :
    Gives (Spans DerivesExpr ts) (expr stop ts) := by
  rw [expr]
  refine (derives_qual stop ts).bind fun lhs rest shorter hlhs => ?_
  obtain ⟨us, hus, hlhs⟩ := hlhs
  refine (derives_summands stop (.qual hlhs) rest).bind fun e rest' _ he => gives_pure ?_
  obtain ⟨vs, rfl, he⟩ := he
  exact ⟨us ++ vs, by simp [hus], by simpa using he⟩
termination_by 4 * ts.length + 2
decreasing_by all_goals omega

/-- What is added to the sum so far makes it a longer sum. -/
theorem derives_summands (stop : Nat) {lhs : Expr} {us : List Token} (hlhs : DerivesExpr us lhs)
    (ts : List PlacedToken) :
    Gives (Spans (fun vs e => DerivesExpr (us ++ vs) e) ts) (summands stop lhs ts) := by
  generalize hts : ts = ts'
  rw [summands.eq_def]
  split
  · next span rest =>
    refine (derives_qual stop rest).bind fun rhs rest' shorter hrhs => ?_
    obtain ⟨vs, hvs, hrhs⟩ := hrhs
    refine (derives_summands stop (.plus hlhs hrhs) rest').bind fun e rest'' _ he => gives_pure ?_
    obtain ⟨ws, rfl, he⟩ := he
    exact ⟨⟨.symbol .plus, span⟩ :: vs ++ ws, by simp [hvs], by simpa using he⟩
  · exact gives_ok ⟨[], rfl, by simpa using hlhs⟩
termination_by 4 * ts.length
decreasing_by all_goals simp only [hts, List.length_cons]; omega

theorem derives_qual (stop : Nat) (ts : List PlacedToken) :
    Gives (Spans DerivesQual ts) (qual stop ts) := by
  rw [qual]
  refine (derives_primary stop ts).bind fun base rest shorter hbase => ?_
  obtain ⟨us, hus, hbase⟩ := hbase
  refine (derives_suffixes stop rest).bind fun ss rest' _ hss => gives_pure ?_
  obtain ⟨vs, rfl, hss⟩ := hss
  refine ⟨us ++ vs, by simp [hus], ?_⟩
  rw [tokens_append]
  cases ss with
  | nil =>
    generalize tokens vs = vs at hss
    cases hss
    rw [List.append_nil]
    exact .primary hbase
  | cons s ss => exact .suffixed hbase hss (List.cons_ne_nil _ _)
termination_by 4 * ts.length + 1
decreasing_by all_goals omega

theorem derives_suffixes (stop : Nat) (ts : List PlacedToken) :
    Gives (Spans DerivesSuffixes ts) (suffixes stop ts) := by
  generalize hts : ts = ts'
  rw [suffixes.eq_def]
  split
  · next span rest =>
    refine (derives_expr stop rest).bind fun index rest₁ h₁ hindex => ?_
    refine (gives_closing _ _).bind fun _ rest₂ h₂ hclose => ?_
    refine (derives_suffixes stop rest₂).bind fun ss rest₃ _ hss => gives_pure ?_
    obtain ⟨us, hus, hindex⟩ := hindex
    obtain ⟨close, hclose⟩ := hclose
    obtain ⟨vs, hvs, hss⟩ := hss
    refine ⟨⟨.symbol .openBracket, span⟩ :: us ++ ⟨.symbol .closeBracket, close⟩ :: vs,
      by simp [hus, hclose, hvs], ?_⟩
    simpa using DerivesSuffixes.item hindex hss
  · next span rest =>
    refine (derives_exprs stop _ _ rest).bind fun args rest₁ h₁ hargs => ?_
    refine (derives_suffixes stop rest₁).bind fun ss rest₂ _ hss => gives_pure ?_
    obtain ⟨us, close, hus, hargs⟩ := hargs
    obtain ⟨vs, hvs, hss⟩ := hss
    refine ⟨⟨.symbol .openParen, span⟩ :: us ++ ⟨.symbol .closeParen, close⟩ :: vs,
      by simp [hus, hvs], ?_⟩
    simpa using DerivesSuffixes.call hargs hss
  · next span rest =>
    refine gives_attributeName.bind fun name rest₁ h₁ hname => ?_
    refine (derives_suffixes stop rest₁).bind fun ss rest₂ _ hss => gives_pure ?_
    obtain ⟨place, hname⟩ := hname
    obtain ⟨vs, hvs, hss⟩ := hss
    refine ⟨⟨.symbol .dot, span⟩ :: ⟨.ident name, place⟩ :: vs, by simp [hname, hvs], ?_⟩
    simpa using DerivesSuffixes.attr hss
  · exact gives_ok ⟨[], rfl, .nil⟩
termination_by 4 * ts.length
decreasing_by all_goals simp only [hts, List.length_cons]; omega

theorem derives_primary (stop : Nat) (ts : List PlacedToken) :
    Gives (Spans DerivesPrimary ts) (primary stop ts) := by
  generalize hts : ts = ts'
  rw [primary.eq_def]
  split
  · exact gives_ok ⟨[_], rfl, .var _⟩
  · exact gives_ok ⟨[_], rfl, .dec _⟩
  · exact gives_ok ⟨[_], rfl, .hex _⟩
  · exact gives_ok ⟨[_], rfl, .str _⟩
  · next span rest =>
    refine (derives_exprs stop _ _ rest).bind fun items rest₁ _ hitems => gives_pure ?_
    obtain ⟨us, close, hus, hitems⟩ := hitems
    refine ⟨⟨.symbol .openBracket, span⟩ :: us ++ [⟨.symbol .closeBracket, close⟩],
      by simp [hus], ?_⟩
    simpa using DerivesPrimary.arr hitems
  · next span rest =>
    refine (derives_expr stop rest).bind fun e rest₁ _ he => ?_
    refine (gives_closing _ _).bind fun _ rest₂ _ hclose => gives_pure ?_
    exact he.enclosed [⟨.symbol .openParen, span⟩] hclose fun _ => .group
  · exact gives_error
termination_by 4 * ts.length
decreasing_by all_goals simp only [hts, List.length_cons]; omega

/-- A list of expressions is read up to the delimiter that closes it. -/
theorem derives_exprs (stop : Nat) (closer : Symbol) (opener : PlacedToken)
    (ts : List PlacedToken) :
    Gives (fun es rest => ∃ us close, ts = us ++ ⟨.symbol closer, close⟩ :: rest ∧
      DerivesExprs (tokens us) es) (exprs stop closer opener ts) := by
  rw [exprs]
  split
  · refine (gives_closing _ _).bind fun _ rest _ hclose => gives_pure ?_
    obtain ⟨close, rfl⟩ := hclose
    exact ⟨[], close, rfl, .nil⟩
  · refine (derives_expr stop ts).bind fun first rest₁ h₁ hfirst => ?_
    refine (derives_furtherExprs stop rest₁).bind fun more rest₂ _ hmore => ?_
    refine (gives_closing _ _).bind fun _ rest₃ _ hclose => gives_pure ?_
    obtain ⟨us, hus, hfirst⟩ := hfirst
    obtain ⟨vs, hvs, hmore⟩ := hmore
    obtain ⟨close, hclose⟩ := hclose
    refine ⟨us ++ vs, close, by simp [hus, hvs, hclose], ?_⟩
    rw [tokens_append]
    exact .cons hfirst hmore
termination_by 4 * ts.length + 3
decreasing_by all_goals omega

theorem derives_furtherExprs (stop : Nat) (ts : List PlacedToken) :
    Gives (Spans DerivesFurtherExprs ts) (furtherExprs stop ts) := by
  generalize hts : ts = ts'
  rw [furtherExprs.eq_def]
  split
  · next span rest =>
    refine (derives_expr stop rest).bind fun e rest₁ h₁ he => ?_
    refine (derives_furtherExprs stop rest₁).bind fun more rest₂ _ hmore => gives_pure ?_
    obtain ⟨us, hus, he⟩ := he
    obtain ⟨vs, hvs, hmore⟩ := hmore
    refine ⟨⟨.symbol .comma, span⟩ :: us ++ vs, by simp [hus, hvs], ?_⟩
    simpa using DerivesFurtherExprs.cons he hmore
  · exact gives_ok ⟨[], rfl, .nil⟩
termination_by 4 * ts.length
decreasing_by all_goals simp only [hts, List.length_cons]; omega

end

/-! ## Where an expression ends -/

/-- Whether no parenthesis follows that would be the arguments of a call. -/
def NoCall (ts : List PlacedToken) : Prop := (tokens ts).head? ≠ some (.symbol .openParen)

theorem NoCall.of_append {us : List PlacedToken} (h : NoCall (us ++ ts)) : NoCall us := by
  cases us with
  | nil => simp [NoCall]
  | cons t us => exact h

/-- Suffixes are read as long as there are any. -/
theorem suffixes_stop (stop : Nat) (ts : List PlacedToken) :
    Gives (fun _ rest => NoCall rest) (suffixes stop ts) := by
  generalize hts : ts = ts'
  rw [suffixes.eq_def]
  split
  · next span rest =>
    refine gives_any.bind fun _ rest₁ h₁ _ => gives_any.bind fun _ rest₂ h₂ _ => ?_
    exact (suffixes_stop stop rest₂).bind fun _ _ _ h => gives_pure h
  · next span rest =>
    refine gives_any.bind fun _ rest₁ h₁ _ => ?_
    exact (suffixes_stop stop rest₁).bind fun _ _ _ h => gives_pure h
  · next span rest =>
    refine gives_any.bind fun _ rest₁ h₁ _ => ?_
    exact (suffixes_stop stop rest₁).bind fun _ _ _ h => gives_pure h
  · next other _ =>
    refine gives_ok fun opens => ?_
    obtain ⟨t, htoken, rest, rfl⟩ := head_token opens
    exact other t.span rest (by rw [← htoken])
termination_by ts.length
decreasing_by all_goals simp only [hts, List.length_cons]; omega

theorem qual_stop (stop : Nat) (ts : List PlacedToken) :
    Gives (fun _ rest => NoCall rest) (qual stop ts) := by
  rw [qual]
  refine gives_any.bind fun _ rest _ _ => ?_
  exact (suffixes_stop stop rest).bind fun _ _ _ h => gives_pure h

theorem summands_stop (stop : Nat) (lhs : Expr) (ts : List PlacedToken) (h : NoCall ts) :
    Gives (fun _ rest => NoCall rest) (summands stop lhs ts) := by
  generalize hts : ts = ts' at h
  rw [summands.eq_def]
  split
  · next span rest =>
    refine (qual_stop stop rest).bind fun rhs rest' shorter hrest' => ?_
    exact (summands_stop stop _ rest' hrest').bind fun _ _ _ h => gives_pure h
  · exact gives_ok h
termination_by ts.length
decreasing_by simp only [hts, List.length_cons]; omega

/-- No parenthesis follows an expression. -/
theorem expr_stop (stop : Nat) (ts : List PlacedToken) :
    Gives (fun _ rest => NoCall rest) (expr stop ts) := by
  rw [expr]
  refine (qual_stop stop ts).bind fun lhs rest _ hrest => ?_
  exact (summands_stop stop lhs rest hrest).bind fun _ _ _ h => gives_pure h

/-! ## Patterns -/

/-- The tokens from `ts` up to `rest` are derived as a pattern, and no parenthesis follows it if it
is an action. -/
def SpansTerm (D : List Token → Pattern → Prop) (ts : List PlacedToken) (p : Pattern)
    (rest : List PlacedToken) : Prop :=
  Spans D ts p rest ∧ ∀ e, p = .action e → NoCall rest

theorem rangeBound_eq_ok {bound : PlacedToken} {text : String} {c : Char}
    (h : rangeBound bound text = .ok c) : text = String.singleton c := by
  unfold rangeBound at h
  split at h
  · next d hd =>
    obtain rfl := Except.ok.inj h
    rw [← String.toList_inj, hd, String.toList_singleton]
  · contradiction

theorem derives_literalOrRange (lower : PlacedToken) (text : String) (span : Span) :
    Gives (SpansTerm DerivesPrim (⟨.str text, span⟩ :: ts))
      (literalOrRange stop lower text ts) := by
  unfold literalOrRange
  split
  · refine gives_bind fun lo hlo => gives_bind fun hi hhi => ?_
    refine gives_pure ⟨⟨[_, _, _], rfl, ?_⟩, by simp⟩
    rw [rangeBound_eq_ok hlo, rangeBound_eq_ok hhi]
    exact .range lo hi
  · exact gives_bind fun _ _ => gives_error
  · exact gives_ok ⟨⟨[_], rfl, .lit text⟩, by simp⟩

theorem derives_predicate (span : Span) :
    Gives (SpansTerm DerivesPrim (⟨.symbol .question, span⟩ :: ts)) (predicate stop ts) := by
  unfold predicate
  split
  · next opener rest =>
    refine (derives_expr stop rest).bind fun e rest₁ _ he => ?_
    refine (gives_closing _ _).bind fun _ rest₂ _ hclose => gives_pure ⟨?_, by simp⟩
    exact he.enclosed [⟨.symbol .question, span⟩, ⟨.symbol .openParen, opener⟩] hclose
      fun _ => .pred
  · next opener rest =>
    refine (derives_expr stop rest).bind fun e rest₁ _ he => ?_
    refine (gives_closing _ _).bind fun _ rest₂ _ hclose => gives_pure ⟨?_, by simp⟩
    exact he.enclosed [⟨.symbol .question, span⟩, ⟨.symbol .openBrace, opener⟩] hclose
      fun _ => .predBraces
  · exact gives_error

/-- A sign of repetition is read without fail. -/
theorem derives_repetition {p : Pattern} {rest : List PlacedToken}
    (h : SpansTerm DerivesPrim ts p rest) :
    SpansTerm DerivesPostfixed ts (repetition p rest).value (repetition p rest).rest := by
  obtain ⟨⟨us, rfl, hp⟩, apart⟩ := h
  unfold repetition
  split
  · split
    · exact ⟨⟨us, rfl, .prim hp⟩, apart⟩
    · exact ⟨⟨us ++ [_], List.append_cons .., by simpa using DerivesPostfixed.opt hp⟩, by simp⟩
  · exact ⟨⟨us ++ [_], List.append_cons .., by simpa using DerivesPostfixed.star hp⟩, by simp⟩
  · exact ⟨⟨us ++ [_], List.append_cons .., by simpa using DerivesPostfixed.plus hp⟩, by simp⟩
  · exact ⟨⟨us, rfl, .prim hp⟩, apart⟩

theorem derives_labelled {p : Pattern} {rest : List PlacedToken}
    (h : SpansTerm DerivesPostfixed ts p rest) :
    Gives (SpansTerm DerivesTerm ts) (labelled stop p rest) := by
  obtain ⟨⟨us, rfl, hp⟩, apart⟩ := h
  unfold labelled
  split
  · next colon name span rest =>
    refine gives_ok ⟨⟨us ++ [⟨.symbol .colon, colon⟩, ⟨.ident name, span⟩], by simp, ?_⟩, by simp⟩
    simpa using DerivesTerm.label hp name
  · exact gives_error
  · exact gives_ok ⟨⟨us, rfl, .postfixed hp⟩, apart⟩

mutual

/-- A pattern that is read is derived from the tokens read. -/
theorem derives_choice (stop : Nat) (ts : List PlacedToken) :
    Gives (Spans DerivesChoice ts) (choice stop ts) := by
  rw [choice]
  refine (derives_alternative stop ts).bind fun first rest shorter hfirst => ?_
  refine (derives_furtherAlternatives stop rest).bind fun more rest' _ hmore => gives_pure ?_
  obtain ⟨us, hus, hfirst⟩ := hfirst
  obtain ⟨vs, hvs, hmore⟩ := hmore
  refine ⟨us ++ vs, by simp [hus, hvs], ?_⟩
  simpa using DerivesChoice.mk hfirst hmore
termination_by 6 * ts.length + 5
decreasing_by all_goals omega

theorem derives_furtherAlternatives (stop : Nat) (ts : List PlacedToken) :
    Gives (Spans DerivesFurther ts) (furtherAlternatives stop ts) := by
  generalize hts : ts = ts'
  rw [furtherAlternatives.eq_def]
  split
  · next span rest =>
    refine (derives_alternative stop rest).bind fun alt rest₁ h₁ halt => ?_
    refine (derives_furtherAlternatives stop rest₁).bind fun more rest₂ _ hmore => gives_pure ?_
    obtain ⟨us, hus, halt⟩ := halt
    obtain ⟨vs, hvs, hmore⟩ := hmore
    refine ⟨⟨.symbol .pipe, span⟩ :: us ++ vs, by simp [hus, hvs], ?_⟩
    simpa using DerivesFurther.cons halt hmore
  · exact gives_ok ⟨[], rfl, .nil⟩
termination_by 6 * ts.length + 4
decreasing_by all_goals simp only [hts, List.length_cons]; omega

theorem derives_alternative (stop : Nat) (ts : List PlacedToken) :
    Gives (Spans DerivesAlternative ts) (alternative stop ts) := by
  rw [alternative]
  refine (derives_terms stop ts).bind fun ps rest _ hps => gives_pure ?_
  obtain ⟨us, rfl, hps⟩ := hps
  refine ⟨us, rfl, ?_⟩
  cases ps with
  | nil =>
    generalize tokens us = us at hps
    cases hps
    exact .empty
  | cons p ps => exact .seq hps (List.cons_ne_nil _ _)
termination_by 6 * ts.length + 4
decreasing_by all_goals omega

theorem derives_terms (stop : Nat) (ts : List PlacedToken) :
    Gives (Spans DerivesTerms ts) (terms stop ts) := by
  rw [terms]
  split
  · exact gives_ok ⟨[], rfl, .nil⟩
  · refine (derives_term stop ts).bind fun p rest shorter hp => ?_
    refine (derives_terms stop rest).bind fun more rest' _ hmore => gives_pure ?_
    obtain ⟨⟨us, hus, hp⟩, apart⟩ := hp
    obtain ⟨vs, rfl, hmore⟩ := hmore
    refine ⟨us ++ vs, by simp [hus], ?_⟩
    rw [tokens_append]
    exact .cons hp hmore fun e he => (apart e he).of_append
termination_by 6 * ts.length + 3
decreasing_by all_goals omega

theorem derives_term (stop : Nat) (ts : List PlacedToken) :
    Gives (SpansTerm DerivesTerm ts) (term stop ts) := by
  generalize hts : ts = ts'
  rw [term.eq_def]
  split
  · next span rest =>
    refine (derives_term stop rest).bind fun p rest' _ hp => gives_pure ⟨?_, by simp⟩
    obtain ⟨⟨us, hus, hp⟩, -⟩ := hp
    exact ⟨⟨.symbol .tilde, span⟩ :: us, by simp [hus], .not hp⟩
  · subst hts
    refine (derives_prim stop ts).bind fun p rest shorter hp => ?_
    have hrepetition := derives_repetition hp
    dsimp only
    generalize repetition p rest = r at hrepetition ⊢
    obtain ⟨q, rest₁, h₁⟩ := r
    exact (derives_labelled hrepetition).bind fun _ _ _ h => gives_pure h
termination_by 6 * ts.length + 2
decreasing_by
  · simp only [hts, List.length_cons]
    omega
  · omega

theorem derives_prim (stop : Nat) (ts : List PlacedToken) :
    Gives (SpansTerm DerivesPrim ts) (prim stop ts) := by
  generalize hts : ts = ts'
  rw [prim.eq_def]
  split
  · exact gives_ok ⟨⟨[_], rfl, .apply _⟩, by simp⟩
  · exact (derives_literalOrRange _ _ _).bind fun _ _ _ h => gives_pure h
  · next span rest =>
    refine (derives_choice stop rest).bind fun p rest₁ _ hp => ?_
    refine (gives_closing _ _).bind fun _ rest₂ _ hclose => gives_pure ⟨?_, by simp⟩
    exact hp.enclosed [⟨.symbol .openParen, span⟩] hclose fun _ => .paren
  · exact gives_ok ⟨⟨[_, _], rfl, .pos⟩, by simp⟩
  · next span rest other =>
    refine (derives_choice stop rest).bind fun p rest₁ _ hp => ?_
    refine (gives_closing _ _).bind fun _ rest₂ _ hclose => gives_pure ⟨?_, by simp⟩
    obtain ⟨us, hus, hp⟩ := hp
    obtain ⟨close, hclose⟩ := hclose
    have some : tokens us ≠ [] := by
      rintro none
      rw [tokens, List.map_eq_nil_iff] at none
      rw [none, hclose] at hus
      exact other close rest₂ hus
    refine ⟨⟨.symbol .openBrace, span⟩ :: us ++ [⟨.symbol .closeBrace, close⟩],
      by simp [hus, hclose], ?_⟩
    simpa using DerivesPrim.capture hp some
  · next span rest =>
    refine ((derives_expr stop rest).and (expr_stop stop rest)).bind fun e rest₁ _ he => ?_
    obtain ⟨⟨us, hus, he⟩, apart⟩ := he
    refine gives_pure ⟨⟨⟨.symbol .arrow, span⟩ :: us, by simp [hus], .action he⟩, fun _ _ => apart⟩
  · exact (derives_predicate _).bind fun _ _ _ h => gives_pure h
  · next equal opener rest =>
    refine (derives_expr stop rest).bind fun e rest₁ _ he => ?_
    refine (gives_closing _ _).bind fun _ rest₂ _ hclose => gives_pure ⟨?_, by simp⟩
    exact he.enclosed [⟨.symbol .equal, equal⟩, ⟨.symbol .openBrace, opener⟩] hclose fun _ => .eq
  · exact gives_error
termination_by 6 * ts.length
decreasing_by all_goals simp only [hts, List.length_cons]; omega

end

/-! ## Rules -/

/-- Rules that are read are derived from all tokens. -/
theorem derives_rules (stop : Nat) (ts : List PlacedToken) {rs : List Rule}
    (h : rules stop ts = .ok rs) : DerivesRules ts rs := by
  generalize hts : ts = ts' at h ⊢
  rw [rules.eq_def] at h
  split at h
  · obtain rfl := Except.ok.inj h
    exact .nil
  · next name span eq rest =>
    cases hchoice : choice stop rest with
    | error e =>
      rw [hchoice] at h
      contradiction
    | ok x =>
      obtain ⟨body, rest', shorter⟩ := x
      obtain ⟨us, hus, hbody⟩ := derives_choice stop rest _ hchoice
      rw [hchoice] at h
      cases hmore : rules stop (skipComma rest') with
      | error e =>
        simp only [bind, Except.bind, hmore] at h
        contradiction
      | ok more =>
        simp only [bind, Except.bind, hmore, pure, Except.pure, Except.ok.injEq] at h
        subst h
        have later := derives_rules stop _ hmore
        have first : DerivesRule (⟨.ident name, span⟩ :: ⟨.symbol .equal, eq⟩ :: us)
            ⟨name, body, span⟩ := .mk name span eq hbody
        rw [hus]
        unfold skipComma at later
        split at later
        · exact .comma first _ later
        · exact .cons first later
  · contradiction
  · contradiction
termination_by ts.length
decreasing_by
  have := length_skipComma_le rest'
  simp only [hts, List.length_cons]
  omega

end Parse

/-- The rules of a text are derived from the tokens of the text. -/
theorem Parse.derives_of_parseGrammar {text : String} {rs : RuleSet}
    (parsed : parseGrammar text = .ok rs) :
    (scan text).errors = [] ∧ DerivesRules (scan text).placed rs.rules := by
  cases errors : (scan text).errors with
  | cons e es =>
    simp only [parseGrammar, errors] at parsed
    contradiction
  | nil =>
    cases hrules : rules (scan text).stop (scan text).placed with
    | error e =>
      simp only [parseGrammar, errors, hrules] at parsed
      contradiction
    | ok rules =>
      simp only [parseGrammar, errors, hrules] at parsed
      obtain rfl := Except.ok.inj parsed
      exact ⟨rfl, derives_rules _ _ hrules⟩

end Pegboard
