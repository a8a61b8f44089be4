import Mathlib.Data.List.Permutation
import Pegboard.Proofs.Grammar.Lines
import Pegboard.Proofs.Grammar.Written

/-!
# Printing what was parsed

The rules of a grammar text can be printed as they were parsed, without any normalization.  Their
text is parsed again, and the rules are the same but for groups and for how suffixes are nested.
There are two exceptions, both of expressions that run on into a parenthesis that printing puts
behind them.  One is a lookahead at an action.  The other is an action in front of another one that
gets parentheses of its own, because a repeated action follows, which starts with a parenthesis when
it is printed.

## Main Definitions

* `Pattern.NoActionAhead`: a node is no lookahead at an action.
* `Pattern.RepeatsApart`: no repeated action follows two actions.

## Main Results

* `Pattern.guarded_of_authored`: then no expression of what was parsed runs on.
* `simplify_of_reparse`: the text of parsed rules is parsed to the same rules up to groups.
-/

namespace Pegboard

namespace Pattern

/-! ## Nodes as parsing gives them -/

theorem AuthoredNode.written {p : Pattern} (h : p.AuthoredNode) : p.WrittenNode := by
  cases p with
  | label => exact h.1
  | apply | pred | eq | action => exact h
  | _ => trivial

theorem AuthoredNode.filled {p : Pattern} (h : p.AuthoredNode) : p.FilledNode := by
  cases p with
  | choice | seq => exact h.1
  | scope => exact h.elim
  | _ => trivial

theorem AuthoredNode.raw {p : Pattern} (h : p.AuthoredNode) : p.RawNode := by
  cases p with
  | scope | leftrec | memo => exact h.elim
  | _ => trivial

/-! ## Rows that start with a parenthesis -/

/-- Whether a term is a repeated action, which is printed with parentheses around the action. -/
def repeatsAction : Pattern → Bool
  | .opt p => isAction p
  | .star p => isAction p
  | .plus p => isAction p
  | .label p _ => repeatsAction p
  | _ => false

/-- What needs no parentheses is printed without any. -/
theorem Fits.layout {p : Pattern} {least : Level} (h : p.Fits least) :
    layout least p = layout .choice p := by
  rw [layout_eq_grouped, Level.grouped, if_neg (by rw [h.tight]; decide)]

theorem not_repeatsAction_of_level {p : Pattern} (h : p.level = .prim) :
    p.repeatsAction = false := by
  cases p with
  | opt | star | plus | label => contradiction
  | _ => rfl

theorem head?_of_append {row : Layout} {s : Symbol} {more : Layout} (hs : s ≠ .openParen)
    (h : (row ++ .sym s :: more).head? = some (.sym .openParen)) :
    row.head? = some (.sym .openParen) := by
  cases row with
  | nil => exact absurd (Token.symbol.inj (Piece.token.inj (Option.some.inj h))) hs
  | cons x row => exact h

/-- A term whose row starts with a parenthesis was written with one, or it is a repeated action. -/
theorem opens_of_head? {p : Pattern} (authored : p.Authored) {least : Level} (fits : p.Fits least)
    (h : (layout least p).head? = some (.sym .openParen)) :
    p.opensGroup = true ∨ p.repeatsAction = true := by
  induction p using induction_parts generalizing least with
  | node p ih =>
    rw [fits.layout] at h
    obtain ⟨own, parts⟩ := everywhere_iff.1 authored
    -- Before a sign of repetition is an action in parentheses, or what was written there.
    have repeated : ∀ q ∈ p.parts, q.Fits .prim → ∀ s : Symbol, s ≠ .openParen →
        (repeatable q (layout (innerLevel q) q) ++ [Piece.sym s]).head? = some (.sym .openParen) →
          q.opensGroup = true ∨ q.isAction = true := by
      intro q hq prim s hs start
      cases haction : q.isAction with
      | true => exact .inr rfl
      | false =>
        rw [repeatable, innerLevel, haction] at start
        refine (ih q hq (parts q hq) prim (head?_of_append hs start)).imp_right fun again => ?_
        rw [not_repeatsAction_of_level prim.level_prim] at again
        contradiction
    cases p with
    | opt q => exact repeated q (.head _) own .question (by decide) h
    | star q => exact repeated q (.head _) own .star (by decide) h
    | plus q => exact repeated q (.head _) own .plus (by decide) h
    | label q name =>
      exact ih q (.head _) (parts q (.head _)) own.2 (head?_of_append (by decide) h)
    | paren q => exact .inl rfl
    | capture q => simp [layout_capture, Layout.between, Piece.sym] at h
    | choice | seq | scope | leftrec | memo | empty => exact fits.isTerm.elim
    | _ => simp [layout, grouped, Piece.sym, Piece.name] at h

/-- Terms start with a parenthesis if the first of them does, or is put in parentheses. -/
theorem startsWithParen_joinTerms (q : Pattern) (rest : List Pattern)
    (h : (joinTerms (layoutTerms (q :: rest))).startsWithParen = true) :
    (layout .term q).startsWithParen = true ∨ q.isParenthesized rest = true := by
  cases rest with
  | nil => exact .inl h
  | cons r rest =>
    cases hparens : q.isParenthesized (r :: rest) with
    | true => exact .inr rfl
    | false =>
      rw [joinTerms_layoutTerms, hparens, if_neg (by decide), List.append_assoc,
        List.singleton_append, Row.startsWithParen_append_blank] at h
      exact .inl h

/-! ## Actions kept apart -/

/-- Whether a node is no lookahead at an action. -/
def NoActionAhead (p : Pattern) : Prop := ∀ e, p ≠ .not (.action e)

/-- Whether no repeated action follows two actions in a sequence. -/
def RepeatsApart : Pattern → Prop
  | .seq ps => ∀ e f q, [.action e, .action f, q] <:+: ps → q.repeatsAction = false
  | _ => True

/-- Without lookaheads at actions, an action is the only term that is open at its end. -/
theorem eq_action_of_openEnded {p : Pattern} (term : p.IsTerm) (authored : p.Authored)
    (ahead : p.Everywhere NoActionAhead) (h : p.openEnded = true) : ∃ e, p = .action e := by
  induction p using induction_parts with
  | node p ih =>
    obtain ⟨own, parts⟩ := everywhere_iff.1 authored
    rw [everywhere_iff] at ahead
    cases p with
    | action e => exact ⟨e, rfl⟩
    | not q =>
      obtain ⟨e, rfl⟩ := ih q (.head _) own (parts q (.head _)) (ahead.2 q (.head _)) h
      exact absurd rfl (ahead.1 e)
    | choice | seq | scope | leftrec | memo | empty => exact term.elim
    | _ => contradiction

theorem eq_action_of_isAction {p : Pattern} (term : p.IsTerm) (h : p.isAction = true) :
    ∃ e, p = .action e := by
  cases p with
  | action e => exact ⟨e, rfl⟩
  | choice | seq | scope | leftrec | memo => exact term.elim
  | _ => contradiction

/-- A term that starts with a parenthesis when it is printed does so. -/
theorem opens_of_startsWithParen {p : Pattern} (term : p.IsTerm) (authored : p.Authored)
    (h : (layout .term p).startsWithParen = true) :
    p.opensGroup = true ∨ p.repeatsAction = true := by
  have written : p.Everywhere WrittenNode := fun q hq => (authored q hq).written
  refine opens_of_head? authored ⟨term, ?_⟩
    (Row.head?_of_startsWithParen (legible_layout written .term).writable h)
  cases p with
  | choice | seq | scope | leftrec | memo | empty => exact term.elim
  | _ => rfl

/-- Terms in which no group follows an action, and no repeated action two actions, are guarded. -/
theorem guardedTerms_of_apart {ps : List Pattern} (terms : ∀ p ∈ ps, p.IsTerm)
    (authored : ∀ p ∈ ps, p.Authored) (ahead : ∀ p ∈ ps, p.Everywhere NoActionAhead)
    (groups : ActionsApart ps) (repeats : RepeatsApart (.seq ps)) : GuardedTerms ps := by
  induction ps with
  | nil => trivial
  | cons p later ih =>
    refine ⟨fun opened => ?_, ih (fun q hq => terms q (.tail _ hq))
      (fun q hq => authored q (.tail _ hq)) (fun q hq => ahead q (.tail _ hq))
      (fun e q hq => groups e q (List.infix_cons hq))
      fun e f q hq => repeats e f q (List.infix_cons hq)⟩
    obtain ⟨e, rfl⟩ := eq_action_of_openEnded (terms p (.head _)) (authored p (.head _))
      (ahead p (.head _)) opened
    cases later with
    | nil => exact .inr rfl
    | cons q rest =>
      cases start : (joinTerms (layoutTerms (q :: rest))).startsWithParen with
      | false => exact .inr rfl
      | true =>
        rcases startsWithParen_joinTerms q rest start with paren | parenthesized
        · refine .inl ?_
          rw [isParenthesized, List.head?_cons, Option.map_some, Option.getD_some, paren]
          rfl
        · -- The next term is an action in parentheses, so one is printed for the term after it.
          rw [isParenthesized, Bool.and_eq_true] at parenthesized
          have next := terms q (.tail _ (.head _))
          obtain ⟨f, rfl⟩ := eq_action_of_isAction next parenthesized.1
          cases rest with
          | nil => exact absurd parenthesized.2 (by decide)
          | cons r rest =>
            have third : r ∈ .action e :: .action f :: r :: rest := .tail _ (.tail _ (.head _))
            rcases opens_of_startsWithParen (terms r third) (authored r third) parenthesized.2
              with group | repeated
            · have apart := groups f r ⟨[.action e], rest, rfl⟩
              exact absurd (group.symm.trans apart) (by decide)
            · have apart := repeats e f r ⟨[], rest, rfl⟩
              exact absurd (repeated.symm.trans apart) (by decide)

/-- No expression of what was parsed runs on, if actions are kept apart. -/
theorem guarded_of_authored {p : Pattern} (authored : p.Authored)
    (ahead : p.Everywhere NoActionAhead) (repeats : p.Everywhere RepeatsApart) :
    p.Everywhere GuardedNode := by
  induction p using induction_parts with
  | node p ih =>
    obtain ⟨own, parts⟩ := everywhere_iff.1 authored
    rw [everywhere_iff] at ahead repeats
    refine everywhere_iff.2 ⟨fun ps hps => ?_,
      fun q hq => ih q hq (parts q hq) (ahead.2 q hq) (repeats.2 q hq)⟩
    cases p with
    | seq qs =>
      obtain rfl := Option.some.inj hps
      exact guardedTerms_of_apart own.2.1 parts ahead.2 own.2.2 repeats.1
    | scope => exact own.elim
    | _ => contradiction

/-- All expressions of what is read for a body are flat. -/
theorem flattened_rereadBody (p : Pattern) : p.rereadBody.flattened = p.rereadBody :=
  flattened_eq_self (everywhere_rereadBody (P := fun _ => True) ⟨fun _ _ flat => flat, fun _ => rfl⟩
    (fun _ _ _ _ => rfl) fun _ _ => trivial)

end Pattern

section Reparse

variable {text : String} {rs : RuleSet} (parsed : parseGrammar text = .ok rs)
include parsed

/-- There are no scopes and wrappers in what was parsed. -/
theorem raw_of_parseGrammar : ∀ d ∈ rs.definitions, d.2.Everywhere Pattern.RawNode := by
  intro d hd q hq
  obtain ⟨r, hr, rfl⟩ := List.mem_map.1 hd
  exact ((authored_of_parseGrammar parsed r hr).2 q hq).raw

/-- What was parsed is read back from its text, if actions are kept apart. -/
theorem legible_of_parseGrammar
    (ahead : ∀ r ∈ rs.rules, r.body.Everywhere Pattern.NoActionAhead)
    (repeats : ∀ r ∈ rs.rules, r.body.Everywhere Pattern.RepeatsApart) :
    ∀ d ∈ rs.definitions, LegibleRule d := by
  intro d hd
  obtain ⟨r, hr, rfl⟩ := List.mem_map.1 hd
  obtain ⟨name, body⟩ := authored_of_parseGrammar parsed r hr
  exact ⟨name, fun q hq => (body q hq).written, fun q hq => (body q hq).filled,
    Pattern.guarded_of_authored body (ahead r hr) (repeats r hr)⟩

/-- The text of rules that were parsed is parsed again, to rules with the same names.  Their bodies
are the same once groups are simplified and suffixes are put in a row, if no lookahead is at an
action and no repeated action follows two actions. -/
theorem simplify_of_reparse (ahead : ∀ r ∈ rs.rules, r.body.Everywhere Pattern.NoActionAhead)
    (repeats : ∀ r ∈ rs.rules, r.body.Everywhere Pattern.RepeatsApart) :
    ∃ rs', parseGrammar rs.pretty = .ok rs' ∧
      rs'.definitions.map (fun d => (d.1, d.2.simplify))
        = rs.definitions.map fun d => (d.1, d.2.flattened.simplify) := by
  obtain ⟨rs', reparsed, definitions⟩ :=
    parseGrammar_pretty (legible_of_parseGrammar parsed ahead repeats)
  have raw := raw_of_parseGrammar reparsed
  refine ⟨rs', reparsed, ?_⟩
  rw [definitions] at raw ⊢
  rw [List.map_map]
  refine List.map_congr_left fun d hd => Prod.ext rfl ?_
  calc d.2.rereadBody.simplify
      = d.2.rereadBody.flattened.simplify := by rw [Pattern.flattened_rereadBody]
    _ = d.2.rereadBody.skeleton := Pattern.simplify_flattened (raw _ (List.mem_map_of_mem hd))
    _ = d.2.skeleton := Pattern.skeleton_rereadBody d.2
    _ = d.2.flattened.simplify :=
      (Pattern.simplify_flattened (raw_of_parseGrammar parsed d hd)).symm

end Reparse

/-- A text with an action in parentheses before a group, suffixes in parentheses of their own, and
empty alternatives. -/
def nestedText : String := "a = b:v (-> (v.w)[0]) ('y' |)? | ()\nb = -> 'k' 'm'\n"

/-- The rules of that text. -/
def nestedRules : RuleSet :=
  ⟨[⟨"a", .choice [.seq [.label (.apply "b") "v",
        .paren (.choice [.seq [.action (.qual (.qual (.var "v") [.attr "w"]) [.item (.dec "0")])]]),
        .opt (.paren (.choice [.seq [.lit "y"], .empty]))],
      .seq [.paren (.choice [.empty])]], ⟨0, 1⟩⟩,
    ⟨"b", .choice [.seq [.action (.str "k"), .lit "m"]], ⟨36, 37⟩⟩]⟩

theorem nestedText_parse : parseGrammar nestedText = .ok nestedRules := by cbv

theorem nestedRules_apart : ∀ r ∈ nestedRules.rules,
    r.body.Everywhere Pattern.NoActionAhead ∧ r.body.Everywhere Pattern.RepeatsApart := by
  simp [nestedRules, Pattern.Everywhere, Pattern.nodes, Pattern.nodesAll, Pattern.NoActionAhead,
    Pattern.RepeatsApart, List.infix_cons_iff]

theorem simplify_of_reparse_nested : ∃ rs', parseGrammar nestedRules.pretty = .ok rs' ∧
    rs'.definitions.map (fun d => (d.1, d.2.simplify))
      = nestedRules.definitions.map fun d => (d.1, d.2.flattened.simplify) :=
  simplify_of_reparse nestedText_parse (fun r hr => (nestedRules_apart r hr).1)
    fun r hr => (nestedRules_apart r hr).2

/-- The rule of `a = -> x -> y -> z?`, where a repeated action follows two actions. -/
def repeatedRules : RuleSet :=
  ⟨[⟨"a", .choice [.seq [.action (.var "x"), .action (.var "y"), .opt (.action (.var "z"))]],
    ⟨0, 1⟩⟩]⟩

/-- The second action gets parentheses, and so it becomes the arguments of a call in the first. -/
example : repeatedRules.pretty = "a = -> x (-> y) (-> z)?\n" ∧
    parseGrammar repeatedRules.pretty
      = .error (.expectedExpression ⟨.symbol .arrow, ⟨10, 12⟩⟩) := by
  constructor <;> cbv

end Pegboard
