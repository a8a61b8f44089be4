import Mathlib.Data.List.Permutation
import Pegboard.Proofs.Match.Essence
import Pegboard.Proofs.Normalize.Faithful

/-!
# Printing keeps the meaning

The text of a grammar is parsed and normalized to a grammar of the same essence, and so to one with
the same results, if four things hold.  No expression runs on into the term that follows it.  The
scopes that are not printed are put in again, as far as names are concerned that are looked up.  No
call stands behind an attribute in parentheses.  And the same rules are found to be left-recursive:
parentheses that are not printed may have hidden from the detector what comes after them.

## Main Definitions

* `Grammar.looksUp`: a name is mentioned in an expression of a grammar.
* `Grammar.Wraps`: the body of a rule is wrapped for left recursion.

## Main Results

* `Pattern.essence_rereadBody`: a body that is read back has the essence of the body.
* `run_pretty`: a grammar and what its text is read back as give the same results.
-/

namespace Pegboard

namespace Pattern

/-! ## Bodies that are read back -/

section Essence

variable {seen : String → Bool} {f : Expr → Expr}

theorem unwrapped_of_plain {p : Pattern} (h : p.PlainNode) : p.unwrapped = p := by
  cases p with
  | leftrec | memo => exact h.elim
  | _ => rfl

/-- An alternative that is read back has the essence of the alternative. -/
theorem essence_rereadAlternative (rule : String) {p : Pattern} (h : p.Recoverable seen)
    (closed : p.Closed) :
    (scopedAlternative rule p.rereadAlternative).essence seen id = p.essence seen Expr.flat := by
  have whole := unwrapped_of_plain h.node.plain
  by_cases hempty : p = empty
  · subst hempty
    rfl
  · obtain ⟨ps, hps⟩ := reread_seq p
    rw [rereadAlternative_of_ne (by rwa [whole]), whole, hps, scopedAlternative,
      scopeAlternative_rebuild_seq, ← hps]
    exact rescoped_reread_of_closed .seq h closed (by decide) (rescoped_core h)

/-- A body that is read back has the essence of the body. -/
theorem essence_rereadBody (rule : String) {p : Pattern} (h : p.Recoverable seen)
    (closed : p.Closed) :
    (p.rereadBody.insertScopes rule).essence seen id = p.essence seen Expr.flat := by
  have whole := unwrapped_of_plain h.node.plain
  rw [rereadBody, insertScopes_choice, List.map_map]
  by_cases several : ∃ alts, p = choice alts
  · obtain ⟨alts, rfl⟩ := several
    rw [alternatives_of_choice whole, essence_choice, essence_choice, List.map_map]
    refine congrArg (fun ps => simplifyNode (.choice ps)) (List.map_congr_left fun q hq => ?_)
    exact essence_rereadAlternative rule (h.part hq) (closedAll_iff.1 closed q hq)
  · rw [alternatives_of_ne fun alts halts => several ⟨alts, whole.symm.trans halts⟩, whole]
    exact essence_rereadAlternative rule h closed

theorem essence_wrapLeftRecursive (recursive : List String) (rule : String) (p : Pattern) :
    (Bodies.wrapLeftRecursive recursive rule p).essence seen f
      = Bodies.wrapLeftRecursive recursive rule (p.essence seen f) := by
  unfold Bodies.wrapLeftRecursive
  split <;> rfl

theorem rereadBody_wrapLeftRecursive (recursive : List String) (rule : String) (p : Pattern) :
    (Bodies.wrapLeftRecursive recursive rule p).rereadBody = p.rereadBody := by
  unfold Bodies.wrapLeftRecursive
  split <;> rfl

end Essence

/-! ## Bodies without wrappers -/

theorem steady_plainNode : Steady PlainNode where
  parts f p h := by
    cases p with
    | leftrec | memo => exact h.elim
    | _ => trivial
  choice _ := trivial
  seq _ := trivial
  scope _ _ := trivial
  label _ _ := trivial
  empty := trivial

theorem steady_notMemo : Steady NotMemo where
  parts f p h := by
    cases p with
    | memo => exact h.elim
    | _ => trivial
  choice _ := trivial
  seq _ := trivial
  scope _ _ := trivial
  label _ _ := trivial
  empty := trivial

theorem notMemo_of_plain (p : Pattern) (h : p.PlainNode) : p.NotMemo := by
  cases p <;> first | exact h | trivial

theorem plain_of_authored {p : Pattern} (h : p.Authored) : p.Everywhere PlainNode := by
  intro q hq
  have own := h q hq
  cases q with
  | leftrec | memo => exact own.elim
  | _ => trivial

end Pattern

/-! ## Grammars that are read back -/

namespace Grammar

/-- Whether a name is mentioned in an expression of a grammar. -/
def looksUp (g : Grammar) (name : String) : Bool :=
  g.bodies.any fun b => b.2.variableNames.contains name

/-- Whether the body of a rule is wrapped for left recursion. -/
def Wraps (g : Grammar) (rule : String) : Prop :=
  ∃ inner, (rule, Pattern.leftrec inner rule) ∈ g.bodies

theorem looksUp_iff {g : Grammar} {name : String} :
    g.looksUp name = true ↔ ∃ b ∈ g.bodies, name ∈ b.2.variableNames := by
  simp [looksUp]

end Grammar

namespace RuleSet

variable {rs : RuleSet} {leftAssoc : List String} {g : Grammar}

/-- If no body is wrapped as it is written, the passes put no wrapper in but the one for left
recursion. -/
theorem plain_of_unwrapped (unwrapped : ∀ r ∈ rs.rules, r.body.Everywhere Pattern.PlainNode)
    {b : String × Pattern} (hb : b ∈ rs.finished) : ∃ inner, inner.Everywhere Pattern.PlainNode ∧
      b.2 = Bodies.wrapLeftRecursive rs.scopedBodies.leftRecursive b.1 inner := by
  obtain ⟨r, hr, hname, hbody⟩ := rule_of_finished hb
  rw [hname] at hbody
  refine ⟨((r.body.insertScopes b.1).insertPositional b.1).simplify, ?_, ?_⟩
  · have steady := Pattern.steady_plainNode
    exact steady.simplify (steady.insertPositional (steady.insertScopes (unwrapped r hr)))
  · rw [hbody, Bodies.finishBody, Bodies.wrapLeftRecursive, Bodies.wrapLeftRecursive]
    split <;> rfl

/-- A body of a grammar that is normalized from text has no wrapper but the one for left
recursion. -/
theorem plain_of_normalize
    (authored : ∀ r ∈ rs.rules, Token.Writable (.ident r.name) ∧ r.body.Authored)
    (normalized : rs.normalize ⟨false, leftAssoc⟩ = .ok g) {b : String × Pattern}
    (hb : b ∈ g.bodies) : ∃ inner, inner.Everywhere Pattern.PlainNode ∧
      b.2 = Bodies.wrapLeftRecursive rs.scopedBodies.leftRecursive b.1 inner := by
  obtain ⟨-, -, rfl⟩ := normalize_eq_ok.1 normalized
  exact plain_of_unwrapped (fun r hr => Pattern.plain_of_authored (authored r hr).2) hb

/-- The bodies that are wrapped are those of the rules that are found to be left-recursive. -/
theorem wraps_iff (authored : ∀ r ∈ rs.rules, Token.Writable (.ident r.name) ∧ r.body.Authored)
    (normalized : rs.normalize ⟨false, leftAssoc⟩ = .ok g) {b : String × Pattern}
    (hb : b ∈ g.bodies) : g.Wraps b.1 ↔ rs.scopedBodies.leftRecursive.contains b.1 = true := by
  constructor
  · rintro ⟨inner, wrapped⟩
    obtain ⟨inner', plain, hbody⟩ := plain_of_normalize authored normalized wrapped
    by_contra not
    rw [Bodies.wrapLeftRecursive, if_neg not] at hbody
    rw [← hbody] at plain
    exact (Pattern.everywhere_iff.1 plain).1
  · intro found
    obtain ⟨inner, -, hbody⟩ := plain_of_normalize authored normalized hb
    rw [Bodies.wrapLeftRecursive, if_pos found] at hbody
    exact ⟨inner, hbody ▸ hb⟩

end RuleSet

namespace Pattern

/-! ## Names that are looked up -/

/-- The expressions of a grammar look up only names that are mentioned in it. -/
theorem looksUp_of_reads {g : Grammar} {b : String × Pattern} (hb : b ∈ g.bodies) {q : Pattern}
    (hq : q ∈ b.2.nodes) {e : Expr} (holds : q.expr? = some e) :
    ∀ name ∈ e.reads, g.looksUp name = true := fun _ hname =>
  Grammar.looksUp_iff.2
    ⟨b, hb, mem_variableNames_iff.2 ⟨q, hq, e, holds, Expr.mem_variableNames e hname⟩⟩

/-- A faithful node has an expression with the value of its flat form. -/
theorem eval_flat_of_faithful {seen : String → Bool} {q : Pattern} {e : Expr}
    (written : q.WrittenNode) (faithful : q.FaithfulNode seen) (holds : q.expr? = some e)
    (scopes : Scopes) : e.flat.eval scopes = e.eval scopes := by
  cases q with
  | pred e' | eq e' | action e' =>
    obtain rfl := Option.some.inj holds
    exact Expr.eval_flat scopes _ written faithful
  | _ => contradiction

/-- A body without its wrapper is recoverable. -/
theorem recoverable_of_faithful {seen : String → Bool} {p : Pattern}
    (plain : p.Everywhere PlainNode) (printable : p.Printable) (tidy : p.Tidy)
    (faithful : p.Everywhere (FaithfulNode seen)) : p.Recoverable seen := fun q hq =>
  ⟨plain q hq, (printable q hq).2, tidy q hq, faithful q hq⟩

/-- A body that is read back and normalized has the essence of the body, if it is wrapped again. -/
theorem essence_again {seen : String → Bool} {recursive recursive' : List String} {rule : String}
    {inner body : Pattern} (hbody : body = Bodies.wrapLeftRecursive recursive rule inner)
    (plain : inner.Everywhere PlainNode) (printable : body.Printable) (settled : body.Settled)
    (tidy : body.Tidy) (closed : body.Closed) (faithful : body.Everywhere (FaithfulNode seen))
    (same : recursive'.contains rule = recursive.contains rule) :
    (body.again recursive' rule).essence seen id = body.essence seen Expr.flat := by
  have unwrapped : body.unwrapped = inner := by
    rw [← unwrapped_of_plain (everywhere_iff.1 plain).1, hbody, Bodies.wrapLeftRecursive]
    split <;> rfl
  have closed' : inner.Closed := by
    rw [hbody, Bodies.wrapLeftRecursive] at closed
    split at closed <;> exact closed
  have recoverable : inner.Recoverable seen := by
    rw [← unwrapped] at plain ⊢
    exact recoverable_of_faithful plain (everywhere_unwrapped printable) (everywhere_unwrapped tidy)
      (everywhere_unwrapped faithful)
  rw [again_eq recursive' rule settled, essence_simplify, essence_wrapLeftRecursive, hbody,
    rereadBody_wrapLeftRecursive, essence_rereadBody rule recoverable closed',
    essence_wrapLeftRecursive, Bodies.wrapLeftRecursive, Bodies.wrapLeftRecursive, same]

end Pattern

/-- A grammar and what its text is read back as give the same results wherever both give one, if the
grammar is guarded and faithful and the same rules are found to be left-recursive. -/
theorem run_pretty {text : String} {rs rs' : RuleSet} {g g' : Grammar}
    (parsed : parseGrammar text = .ok rs) (normalized : rs.normalize .default = .ok g)
    (parsed' : parseGrammar g.pretty = .ok rs') (normalized' : rs'.normalize .default = .ok g')
    (guarded : ∀ b ∈ g.bodies, b.2.Everywhere Pattern.GuardedNode)
    (faithful : ∀ b ∈ g.bodies, b.2.Everywhere (Pattern.FaithfulNode g.looksUp))
    (wraps : ∀ rule, g'.Wraps rule ↔ g.Wraps rule) {n m : Nat} {source : String}
    {input : Array Char} {r r' : MatchResult} (h : g.run n source input = some r)
    (h' : g'.run m source input = some r') : r' = r := by
  have authored := authored_of_parseGrammar parsed
  have authored' := authored_of_parseGrammar parsed'
  have printable := printable_of_normalize authored normalized
  have tidy : ∀ b ∈ g.bodies, b.2.Tidy := tidy_of_normalize authored normalized
  have closed : ∀ b ∈ g.bodies, b.2.Closed := rs.closed_of_normalize normalized
  have closed' : ∀ b ∈ g'.bodies, b.2.Closed := rs'.closed_of_normalize normalized'
  have definitions : rs'.definitions = g.bodies.map fun b => (b.1, b.2.rereadBody) := by
    obtain ⟨rs'', hparse, definitions, -⟩ := exists_reread parsed normalized guarded
    obtain rfl := Except.ok.inj (hparse.symm.trans parsed')
    exact definitions
  let recursive' := rs'.scopedBodies.leftRecursive
  have settled : ∀ b ∈ g.bodies, b.2.Settled := fun b hb => by
    obtain ⟨_, _, _, settled, _⟩ := RuleSet.rule_of_mem normalized hb
    exact settled
  have bodies' : g' = ⟨g.bodies.mapBodies fun rule body => body.again recursive' rule,
      g.leftAssoc⟩ := by
    have plain : g.leftAssoc = [] := by rw [(RuleSet.normalize_eq_ok.1 normalized).2.2]; rfl
    rw [(RuleSet.normalize_eq_ok.1 normalized').2.2, plain, ← RuleSet.finished_of_reread definitions]
    rfl
  -- What is read back of a body mentions the same names, and is wrapped if the body is.
  have mem' : ∀ b ∈ g.bodies, (b.1, b.2.again recursive' b.1) ∈ g'.bodies := fun b hb => by
    rw [bodies']
    exact List.mem_map_of_mem hb
  have recursive : ∀ b ∈ g.bodies,
      recursive'.contains b.1 = rs.scopedBodies.leftRecursive.contains b.1 := fun b hb => by
    rw [Bool.eq_iff_iff, ← RuleSet.wraps_iff authored normalized hb, ← wraps b.1,
      RuleSet.wraps_iff authored' normalized' (mem' b hb)]
  have same : g'.essence g.looksUp id = g.essence g.looksUp Expr.flat := by
    rw [bodies']
    refine Grammar.essence_mapBodies fun b hb => ?_
    obtain ⟨inner, plain, hbody⟩ := RuleSet.plain_of_normalize authored normalized hb
    exact Pattern.essence_again hbody plain (printable b hb).2 (settled b hb) (tidy b hb)
      (closed b hb) (faithful b hb) (recursive b hb)
  have looks : ∀ name, g'.looksUp name = true → g.looksUp name = true := by
    intro name hname
    rw [Grammar.looksUp_iff] at hname ⊢
    obtain ⟨b', hb', hname⟩ := hname
    rw [bodies'] at hb'
    obtain ⟨b, hb, rfl⟩ := List.mem_map.1 hb'
    refine ⟨b, hb, ?_⟩
    rwa [← Pattern.variableNames_skeleton, Pattern.skeleton_again recursive' b.1 (settled b hb),
      Pattern.variableNames_skeleton] at hname
  refine Grammar.run_eq_of_essence closed closed' (fun b hb q hq e holds => ?_)
    (fun b hb q hq e holds => ?_) same h h'
  · exact ⟨Pattern.looksUp_of_reads hb hq holds, Pattern.eval_flat_of_faithful
      ((printable b hb).2 q hq).1 (faithful b hb q hq) holds⟩
  · exact ⟨fun name hname => looks name (Pattern.looksUp_of_reads hb hq holds name hname),
      fun _ => rfl⟩

/-! ## A text that is read back differently -/

/-- A text with left recursion, parentheses, a positional variable and a call behind parentheses. -/
def countText : String := "a = (a)? 'x':v -> (scons(_1, [v])).len()\n"

/-- The expression as it was written: the length of a list of two. -/
def countExpr : Expr :=
  .qual (.qual (.var "scons") [.call [.var "_1", .arr [.var "v"]]]) [.attr "len", .call []]

/-- The rules of that text. -/
def countRules : RuleSet :=
  ⟨[⟨"a", .choice [.seq [.opt (.paren (.choice [.seq [.apply "a"]])), .label (.lit "x") "v",
    .action countExpr]], ⟨0, 1⟩⟩]⟩

/-- The grammar of that text, given the expression of its action. -/
def countGrammar (e : Expr) : Grammar :=
  ⟨[("a", .leftrec (.scope "a" [.label (.opt (.apply "a")) "_1", .label (.lit "x") "v", .action e])
    "a")], []⟩

theorem countText_parse : parseGrammar countText = .ok countRules := by cbv

theorem countRules_normalize :
    countRules.normalize .default = .ok (countGrammar countExpr) := by cbv

theorem countGrammar_guarded :
    ∀ b ∈ (countGrammar countExpr).bodies, b.2.Everywhere Pattern.GuardedNode := by
  have last : (Pattern.joinTerms []).startsWithParen = false := rfl
  simp [countGrammar, Pattern.Everywhere, Pattern.nodes, Pattern.nodesAll, Pattern.GuardedNode,
    Pattern.terms?, Pattern.GuardedTerms, Pattern.openEnded, Pattern.layoutTerms, last]

/-- Nothing is labelled but an option and a literal, no scope stands among terms, and the call
in the parentheses is not that of an attribute. -/
theorem countGrammar_faithful (seen : String → Bool) :
    ∀ b ∈ (countGrammar countExpr).bodies, b.2.Everywhere (Pattern.FaithfulNode seen) := by
  simp [countGrammar, countExpr, Pattern.Everywhere, Pattern.nodes, Pattern.nodesAll,
    Pattern.FaithfulNode, Pattern.Hides, Pattern.Loose, Pattern.exposed, Expr.Attached,
    Expr.AttachedAll, Suffix.AttachedAll, Suffix.Attached, Suffix.startWithCall,
    Expr.endsInAttribute]

/-- What the text of the grammar is read back as: the suffixes of its expression stand in a row. -/
theorem countGrammar_reread : ∃ rs', parseGrammar (countGrammar countExpr).pretty = .ok rs' ∧
    rs'.normalize .default = .ok (countGrammar countExpr.flat) := by
  obtain ⟨rs', parsed, reread, normalized⟩ :=
    exists_reread countText_parse countRules_normalize countGrammar_guarded
  have definitions : rs'.definitions = [("a", .choice [.seq [.label (.opt (.apply "a")) "_1",
      .label (.lit "x") "v", .action countExpr.flat]])] := reread
  have finished : rs'.finished = (countGrammar countExpr.flat).bodies := by
    rw [RuleSet.finished, RuleSet.scopedBodies, definitions]
    cbv
  exact ⟨rs', parsed, by rw [normalized, finished]; rfl⟩

theorem run_pretty_count : ∃ r r', (countGrammar countExpr).run 30 "t" #['x', 'x'] = some r ∧
    (countGrammar countExpr.flat).run 30 "t" #['x', 'x'] = some r' ∧ r' = r := by
  obtain ⟨rs', parsed, normalized⟩ := countGrammar_reread
  have written : (countGrammar countExpr).run 30 "t" #['x', 'x']
      = some (.accepted (.int 2) 2) := rfl
  have again : (countGrammar countExpr.flat).run 30 "t" #['x', 'x']
      = some (.accepted (.int 2) 2) := rfl
  have wraps (rule : String) :
      (countGrammar countExpr.flat).Wraps rule ↔ (countGrammar countExpr).Wraps rule := by
    simp [Grammar.Wraps, countGrammar]
  exact ⟨_, _, written, again, run_pretty countText_parse countRules_normalize parsed normalized
    countGrammar_guarded (countGrammar_faithful _) wraps written again⟩

end Pegboard
