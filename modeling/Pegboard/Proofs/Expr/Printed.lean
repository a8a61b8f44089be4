import Pegboard.Proofs.Expr.Attached
import Pegboard.Proofs.Grammar.Lines
import Pegboard.Proofs.Grammar.Written

/-!
# The value of a printed expression

The text of an expression, put behind an arrow, is parsed as an action of the flat form of that
expression, whatever the expression is.  What this evaluates to is what the expression evaluates to,
with one exception: printing drops the parentheses around an attribute that a call follows, and so
turns the error that the attribute must be called into the call.

## Main Definitions

* `Expr.nodes`: an expression and all expressions in it.
* `RuleSet.Holds`: an expression occurs in rules.

## Main Results

* `parseGrammar_pretty_expr`: the text of an expression is parsed as its flat form.
* `eval_pretty`: what is parsed has the value of what was printed, up to detached calls.
-/

namespace Pegboard

/-! ## The expressions of rules -/

mutual

/-- An expression and all expressions in it. -/
def Expr.nodes : Expr → List Expr
  | .var name => [.var name]
  | .dec digits => [.dec digits]
  | .hex digits => [.hex digits]
  | .str text => [.str text]
  | .plus lhs rhs => .plus lhs rhs :: (lhs.nodes ++ rhs.nodes)
  | .qual base suffixes => .qual base suffixes :: (base.nodes ++ Suffix.nodesAll suffixes)
  | .arr items => .arr items :: Expr.nodesAll items

/-- All expressions in the expressions of a list. -/
def Expr.nodesAll : List Expr → List Expr
  | [] => []
  | e :: es => e.nodes ++ Expr.nodesAll es

/-- All expressions in suffixes. -/
def Suffix.nodesAll : List Suffix → List Expr
  | [] => []
  | .item index :: rest => index.nodes ++ Suffix.nodesAll rest
  | .call args :: rest => Expr.nodesAll args ++ Suffix.nodesAll rest
  | .attr _ :: rest => Suffix.nodesAll rest

end

/-- Whether an expression occurs in rules, on its own or in another one. -/
def RuleSet.Holds (rs : RuleSet) (e : Expr) : Prop :=
  ∃ r ∈ rs.rules, ∃ p ∈ r.body.nodes, ∃ whole, p.expr? = some whole ∧ e ∈ whole.nodes

namespace Expr

mutual

/-- The expressions in one that can be written can be written. -/
theorem written_nodes : ∀ e : Expr, e.Written → ∀ x ∈ e.nodes, x.Written
  | .var _, w => List.forall_mem_singleton.2 w
  | .dec _, w => List.forall_mem_singleton.2 w
  | .hex _, w => List.forall_mem_singleton.2 w
  | .str _, w => List.forall_mem_singleton.2 w
  | .plus lhs rhs, w => List.forall_mem_cons.2 ⟨w, List.forall_mem_append.2
      ⟨written_nodes lhs w.1, written_nodes rhs w.2⟩⟩
  | .qual base suffixes, w => List.forall_mem_cons.2 ⟨w, List.forall_mem_append.2
      ⟨written_nodes base w.2.1, written_suffixNodes suffixes w.2.2⟩⟩
  | .arr items, w => List.forall_mem_cons.2 ⟨w, written_nodesAll items w⟩

theorem written_nodesAll : ∀ es : List Expr, WrittenAll es → ∀ x ∈ nodesAll es, x.Written
  | [], _ => nofun
  | e :: es, w => List.forall_mem_append.2 ⟨written_nodes e w.1, written_nodesAll es w.2⟩

theorem written_suffixNodes : ∀ ss : List Suffix, Suffix.WrittenAll ss →
    ∀ x ∈ Suffix.nodesAll ss, x.Written
  | [], _ => nofun
  | .item index :: rest, w => List.forall_mem_append.2
      ⟨written_nodes index w.1, written_suffixNodes rest w.2⟩
  | .call args :: rest, w => List.forall_mem_append.2
      ⟨written_nodesAll args w.1, written_suffixNodes rest w.2⟩
  | .attr _ :: rest, w => written_suffixNodes rest w.2

end

end Expr

/-- The expressions that occur in the rules of a text can be written. -/
theorem RuleSet.Holds.written {text : String} {rs : RuleSet} {e : Expr} (h : rs.Holds e)
    (parsed : parseGrammar text = .ok rs) : e.Written := by
  obtain ⟨r, hr, p, hp, whole, hwhole, he⟩ := h
  have authored : p.AuthoredNode := (authored_of_parseGrammar parsed r hr).2 p hp
  refine whole.written_nodes ?_ e he
  cases p with
  | pred own => exact Option.some.inj hwhole ▸ authored
  | eq own => exact Option.some.inj hwhole ▸ authored
  | action own => exact Option.some.inj hwhole ▸ authored
  | _ => contradiction

/-! ## An expression as a rule of its own -/

open Layout

/-- The row of a rule that is a single action. -/
def actionRule (name : String) (e : Expr) : Layout :=
  ruleHead name ++ .sym .arrow :: .blank :: e.layout

theorem legible_actionRule {name : String} {e : Expr} (hname : Token.Writable (.ident name))
    (he : e.Written) : (actionRule name e).Legible := by
  have haction := (e.legible_layout he).blank_cons.sym_cons (s := .arrow) (by decide)
  have hbody := (haction.blank_cons.sym_cons (s := .equal) (by decide)).blank_cons
  exact (legible_token hname (by simp)).append hbody (separate_blank _)

/-- A rule that is a single action is read, with the expression made flat. -/
theorem Parse.rules_actionRule (eof : Nat) (name : String) (e : Expr) :
    ∃ span, rules eof ((actionRule name e).place 0)
      = .ok [⟨name, .choice [.seq [.action e.flat]], span⟩] := by
  have haction : Row.Choice eof (.sym .arrow :: .blank :: e.layout)
      (.choice [.seq [.action e.flat]]) :=
    ((Row.prim_action e).postfixed.term.terms.alternative (by simp)).choice
  obtain ⟨span, eq, hplace⟩ := place_ruleHead name (.sym .arrow :: .blank :: e.layout) 0
  have hread : Reads
      (choice eof (Layout.place (eq.hi + 1) (.sym .arrow :: .blank :: e.layout) ++ []))
      (.choice [.seq [.action e.flat]]) [] := haction.reads rfl nofun
  rw [List.append_nil] at hread
  obtain ⟨shorter, hbody⟩ := hread
  have hend : rules eof [] = .ok [] := by rw [rules]
  refine ⟨span, ?_⟩
  rw [actionRule, hplace, rules, hbody]
  change (rules eof [] >>= fun more => pure (⟨name, .choice [.seq [.action e.flat]], span⟩ :: more))
    = _
  rw [hend]
  rfl

/-- The text of an expression is parsed as an action of its flat form. -/
theorem parseGrammar_pretty_expr {e : Expr} (he : e.Written) :
    ∃ span, parseGrammar ("a = -> " ++ e.pretty)
      = .ok ⟨[⟨"a", .choice [.seq [.action e.flat]], span⟩]⟩ := by
  have hname : Token.Writable (.ident "a") := ⟨'a', [], rfl, by decide, nofun⟩
  have legible := legible_actionRule hname he
  have text : "a = -> " ++ e.pretty = (actionRule "a" e).text := by
    rw [← String.toList_inj]
    simp [actionRule, ruleHead, Expr.pretty, Layout.toList_text, Piece.sym, Piece.name, Piece.text,
      Token.display, Symbol.text]
  obtain ⟨span, hrules⟩ := Parse.rules_actionRule (0 + (actionRule "a" e).text.toList.length) "a" e
  refine ⟨span, ?_⟩
  rw [parseGrammar, text, scan, Scan.read_writes _ (writes_text _) legible.spaced_self
    legible.writable]
  simp only [hrules]
  rfl

/-- The text of an expression that occurs in a grammar, put behind an arrow, is parsed as a single
action.  What this evaluates to is what the expression evaluates to, in any scopes, if no call in
the expression stands behind an attribute in parentheses.  Otherwise the expression may be an error
about an attribute that is not called where the action is none, and that is the only difference. -/
theorem eval_pretty {text : String} {rs : RuleSet} {e : Expr} (parsed : parseGrammar text = .ok rs)
    (occurs : rs.Holds e) : ∃ e' span,
      parseGrammar ("a = -> " ++ e.pretty) = .ok ⟨[⟨"a", .choice [.seq [.action e']], span⟩]⟩ ∧
      (e.Attached → ∀ scopes, e'.eval scopes = e.eval scopes) ∧
      ∀ scopes, e'.eval scopes = e.eval scopes ∨
        ∃ name, e.eval scopes = .error (.bareAttribute name) := by
  have written := occurs.written parsed
  obtain ⟨span, hparse⟩ := parseGrammar_pretty_expr written
  refine ⟨e.flat, span, hparse, fun attached scopes => e.eval_flat scopes written attached,
    fun scopes => ?_⟩
  have h : Flattened True (e.flat.eval scopes) (e.eval scopes) :=
    e.flattened_flat scopes written (.inl trivial)
  exact h.imp_right And.right

/-- A call behind an attribute in parentheses is printed without these.  A sum keeps its parentheses
before a method, and so its value. -/
theorem eval_pretty_detached :
    let e : Expr := .qual (.qual (.var "s") [.attr "len"]) [.call []]
    let sum : Expr := .qual (.plus (.var "s") (.var "s")) [.attr "len", .call []]
    let scopes := Scopes.base.bind "s" (.str "")
    parseGrammar "a = -> [(s.len)(), (s + s).len()]"
        = .ok ⟨[⟨"a", .choice [.seq [.action (.arr [e, sum])]], ⟨0, 1⟩⟩]⟩ ∧
      e.eval scopes = .error (.bareAttribute "len") ∧ e.flat.eval scopes = .ok (.int 0) ∧
      (∃ e' span,
        parseGrammar ("a = -> " ++ e.pretty) = .ok ⟨[⟨"a", .choice [.seq [.action e']], span⟩]⟩ ∧
        (e.Attached → ∀ scopes, e'.eval scopes = e.eval scopes) ∧
        ∀ scopes, e'.eval scopes = e.eval scopes ∨
          ∃ name, e.eval scopes = .error (.bareAttribute name)) ∧
      sum.Attached ∧ ∃ e' span,
        parseGrammar ("a = -> " ++ sum.pretty) = .ok ⟨[⟨"a", .choice [.seq [.action e']], span⟩]⟩ ∧
        e'.eval scopes = .ok (.int 0) := by
  intro e sum scopes
  have parsed : parseGrammar "a = -> [(s.len)(), (s + s).len()]"
      = .ok ⟨[⟨"a", .choice [.seq [.action (.arr [e, sum])]], ⟨0, 1⟩⟩]⟩ := by cbv
  have holds {x : Expr} (hx : x ∈ (Expr.arr [e, sum]).nodes) :
      RuleSet.Holds ⟨[⟨"a", .choice [.seq [.action (.arr [e, sum])]], ⟨0, 1⟩⟩]⟩ x :=
    ⟨_, .head _, .action (.arr [e, sum]), by simp [Pattern.nodes, Pattern.nodesAll],
      .arr [e, sum], rfl, hx⟩
  have attached : sum.Attached := by
    simp [sum, Expr.Attached, Expr.AttachedAll, Expr.endsInAttribute, Suffix.AttachedAll,
      Suffix.Attached]
  refine ⟨parsed, by cbv, by cbv, eval_pretty parsed (holds ?_), attached, ?_⟩
  · simp [Expr.nodes, Expr.nodesAll, e]
  · have occurs : sum ∈ (Expr.arr [e, sum]).nodes := by simp [Expr.nodes, Expr.nodesAll, sum]
    obtain ⟨e', span, read, same, -⟩ := eval_pretty parsed (holds occurs)
    exact ⟨e', span, read, (same attached scopes).trans (by cbv)⟩

end Pegboard
