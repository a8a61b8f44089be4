import Pegboard.Proofs.Grammar.Legible
import Pegboard.Proofs.Grammar.Reread

/-!
# Printed rules are read back

The text of rules is scanned and parsed as a whole.  A line break is a blank like any other, so the
text writes one long row, and that row is legible.  A rule ends where a name and its `=` follow, for
a blank keeps the `=` apart from what comes after.

## Main Definitions

* `Pattern.rereadBody`: the body that is read back.
* `Bodies.row`: the rules as one row of tokens.

## Main Results

* `Pattern.skeleton_rereadBody`: what is read back has the same skeleton.
* `parseGrammar_pretty`: the text of guarded rules is parsed, and as these bodies.
-/

namespace Pegboard

/-! ## Bodies read back -/

namespace Pattern

/-- What is read for an alternative of a rule. -/
def rereadAlternative (p : Pattern) : Pattern :=
  match p.unwrapped with
  | .empty => .empty
  | q => q.reread .seq

/-- What is read for the body of a rule. -/
def rereadBody (body : Pattern) : Pattern := .choice (body.alternatives.map rereadAlternative)

theorem skeleton_unwrapped (p : Pattern) : p.unwrapped.skeleton = p.skeleton := by
  fun_induction unwrapped p with
  | case1 p _ ih => exact ih
  | case2 p _ ih => exact ih
  | case3 => rfl

theorem everywhere_unwrapped {P : Pattern → Prop} {p : Pattern} (h : p.Everywhere P) :
    p.unwrapped.Everywhere P := by
  fun_induction unwrapped p with
  | case1 p _ ih => exact ih ((everywhere_iff.1 h).2 p (.head _))
  | case2 p _ ih => exact ih ((everywhere_iff.1 h).2 p (.head _))
  | case3 => exact h

theorem skeleton_rereadAlternative (p : Pattern) : p.rereadAlternative.skeleton = p.skeleton := by
  rw [← skeleton_unwrapped p, rereadAlternative]
  split
  · next h => rw [h]
  · exact skeleton_reread .seq _

/-- What is read for the body of a rule has the same skeleton. -/
theorem skeleton_rereadBody (p : Pattern) : p.rereadBody.skeleton = p.skeleton := by
  rw [← skeleton_unwrapped p, rereadBody, alternatives]
  split
  · next alts h =>
    rw [h]
    refine skeleton_choice_congr ?_
    rw [List.map_map]
    exact List.map_congr_left fun q _ => skeleton_rereadAlternative q
  · rw [List.map_singleton, skeleton_choice_single, skeleton_rereadAlternative]

theorem rereadAlternative_of_ne {p : Pattern} (h : p.unwrapped ≠ empty) :
    p.rereadAlternative = p.unwrapped.reread .seq := by
  unfold rereadAlternative
  split
  · next hempty => exact absurd hempty h
  · rfl

theorem layoutAlternative_of_ne {p : Pattern} (h : p.unwrapped ≠ empty) :
    p.layoutAlternative = layout .seq p.unwrapped := by
  unfold layoutAlternative
  split
  · next hempty => exact absurd hempty h
  · rfl

/-- What is so of all nodes of a body is so of all nodes of its alternatives. -/
theorem everywhere_alternatives {P : Pattern → Prop} {body : Pattern} (h : body.Everywhere P) :
    ∀ p ∈ body.alternatives, p.Everywhere P := by
  have hbody := everywhere_unwrapped h
  rw [alternatives]
  split
  · next alts hchoice =>
    rw [hchoice] at hbody
    exact (everywhere_iff.1 hbody).2
  · exact fun p hp => List.mem_singleton.1 hp ▸ hbody

/-- What is so of all nodes of what is read for a body. -/
theorem everywhere_rereadBody {P Q : Pattern → Prop} (ofTerms : OfTerms Q)
    (terms : ∀ (p : Pattern) (ps : List Pattern), p.terms? = some ps → P p →
      Q (.seq (coreTerms ps))) {body : Pattern} (h : body.Everywhere P) :
    body.rereadBody.Everywhere Q := by
  refine everywhere_iff.2 ⟨ofTerms.other _ rfl rfl, fun q hq => ?_⟩
  obtain ⟨alt, halt, rfl⟩ := List.mem_map.1 hq
  have inside := everywhere_unwrapped (everywhere_alternatives h alt halt)
  unfold rereadAlternative
  split
  · exact everywhere_leaf (ofTerms.other _ rfl rfl) rfl
  · exact everywhere_lift ofTerms (everywhere_core ofTerms terms inside)

theorem legible_layoutAlternative {p : Pattern} (h : p.Everywhere WrittenNode) :
    (layoutAlternative p).Legible := by
  rw [layoutAlternative]
  split
  · exact Layout.legible_nil
  · exact legible_layout (everywhere_unwrapped h) .seq

/-- An alternative of a rule is read back from its row. -/
theorem alternative_layoutAlternative {eof : Nat} {p : Pattern} (filled : p.Everywhere FilledNode)
    (guarded : p.Everywhere GuardedNode) :
    Row.Alternative eof p.layoutAlternative p.rereadAlternative := by
  by_cases hempty : p.unwrapped = empty
  · rw [layoutAlternative, rereadAlternative, hempty]
    exact Row.alternative_nil
  · rw [layoutAlternative_of_ne hempty, rereadAlternative_of_ne hempty]
    exact (rereads (everywhere_unwrapped filled) (everywhere_unwrapped guarded)).alternative

end Pattern

/-! ## The row of a text -/

namespace Layout

/-- A row on a line of its own: without the blanks at its end, and with a line break. -/
def line (row : Layout) : Layout := trimmed row ++ [.blank]

/-- A line has the tokens of its row. -/
theorem place_line (row rest : Layout) (pos : Nat) :
    (line row ++ rest).place pos = row.place pos ++ rest.place (pos + (line row).width) := by
  rw [place_append, line, place_append, place_trimmed, place_blank, place_nil, List.append_nil]

theorem place_blanks (n : Nat) (row : Layout) (pos : Nat) :
    Layout.place pos (List.replicate n Piece.blank ++ row) = row.place (pos + n) := by
  induction n generalizing pos with
  | zero => rfl
  | succ n ih =>
    rw [List.replicate_succ, List.cons_append, place_blank, ih]
    congr 1
    omega

/-- The tokens of a row stand where the row starts or later. -/
theorem le_lo_of_mem_place {row : Layout} {pos : Nat} {t : PlacedToken} (h : t ∈ row.place pos) :
    pos ≤ t.span.lo := by
  induction row generalizing pos with
  | nil => contradiction
  | cons x row ih =>
    cases x with
    | token u =>
      rw [place_token] at h
      rcases List.mem_cons.1 h with rfl | h
      · exact Nat.le_refl _
      · exact Nat.le_trans (Nat.le_add_right _ _) (ih h)
    | blank => exact Nat.le_trans (Nat.le_succ _) (ih h)

theorem spaced_append {a b : Layout} (ha : a.Spaced) (hb : b.Spaced)
    (blank : ∀ y ∈ b.head?, y = Piece.blank) : Spaced (a ++ b) := by
  induction a with
  | nil => exact hb
  | cons x a ih =>
    refine ⟨fun y hy => ?_, ih ha.2⟩
    cases a with
    | nil =>
      obtain rfl := blank y hy
      exact Piece.apart_blank_right x
    | cons z a => exact ha.1 y hy

/-- Lines one after the other can be scanned if each can. -/
theorem spaced_lines {rows : List Layout} (h : ∀ row ∈ rows, Spaced row) :
    Spaced (rows.flatMap line) := by
  induction rows with
  | nil => trivial
  | cons row rows ih =>
    have hrest := ih fun r hr => h r (.tail _ hr)
    have hend : Spaced (.blank :: rows.flatMap line) :=
      ⟨fun y _ => Piece.apart_blank_left y, hrest⟩
    rw [List.flatMap_cons, line, List.append_assoc]
    refine spaced_append (spaced_trimmed (h row (.head _))) hend fun y hy => ?_
    exact (Option.some.inj hy).symm

theorem writable_lines {rows : List Layout} (h : ∀ row ∈ rows, Writable row) :
    Writable (rows.flatMap line) := by
  intro t ht
  rw [tokens, List.filterMap_flatMap, List.mem_flatMap] at ht
  obtain ⟨row, hrow, ht⟩ := ht
  have hline : tokens (line row) = row.tokens := by
    rw [line, tokens_append, tokens_trimmed]
    exact List.append_nil _
  exact h row hrow t (hline ▸ ht)

/-- The text of lines writes them. -/
theorem writes_lines {rows : List Layout} (h : ∀ row ∈ rows, Writable row) :
    Writes (rows.flatMap line)
      (rows.flatMap fun row => (trimBlanksRight row.text ++ "\n").toList) := by
  induction rows with
  | nil => rfl
  | cons row rows ih =>
    rw [List.flatMap_cons, List.flatMap_cons]
    refine writes_append ?_ (ih fun r hr => h r (.tail _ hr))
    rw [String.toList_append, toList_trimBlanksRight (h row (.head _))]
    exact writes_append (writes_text _) ⟨'\n', [], rfl, by decide, rfl⟩

end Layout

open Layout

/-- What stands before the first alternative of a rule. -/
def ruleHead (name : String) : Layout := [.name name, .blank, .sym .equal, .blank]

/-- What stands before a further alternative of a rule. -/
def ruleIndent (name : String) : Layout :=
  List.replicate (name.utf8ByteSize + 1) .blank ++ [.sym .pipe, .blank]

theorem ruleLines_eq {name : String} {body p : Pattern} {ps : List Pattern}
    (h : body.alternatives = p :: ps) : ruleLines name body
      = (ruleHead name ++ p.layoutAlternative) ::
        ps.map fun q => ruleIndent name ++ q.layoutAlternative := by
  rw [ruleLines, h, List.map_cons]
  simp only [List.map_map]
  rfl

/-- The lines of rules. -/
def Bodies.lines (bodies : Bodies) : List Layout := bodies.flatMap fun b => ruleLines b.1 b.2

/-- What a rule must be for its text to be read back: what it says can be written, no choice or
sequence in it is without parts, and no expression runs on into a term. -/
structure LegibleRule (b : String × Pattern) : Prop where
  name : Token.Writable (.ident b.1)
  written : b.2.Everywhere Pattern.WrittenNode
  filled : b.2.Everywhere Pattern.FilledNode
  guarded : b.2.Everywhere Pattern.GuardedNode

namespace LegibleRule

variable {b : String × Pattern}

/-- A rule has an alternative. -/
theorem alternatives (h : LegibleRule b) : ∃ p ps, b.2.alternatives = p :: ps := by
  have filled := Pattern.everywhere_unwrapped h.filled
  rw [Pattern.alternatives]
  split
  · next alts hchoice =>
    rw [hchoice] at filled
    exact List.exists_cons_of_ne_nil (Pattern.everywhere_iff.1 filled).1
  · exact ⟨_, _, rfl⟩

/-- The lines of a rule can be scanned. -/
theorem lines (h : LegibleRule b) : ∀ row ∈ ruleLines b.1 b.2, row.Legible := by
  obtain ⟨p, ps, halts⟩ := h.alternatives
  have hrow : ∀ q ∈ p :: ps, q.layoutAlternative.Legible := fun q hq =>
    Pattern.legible_layoutAlternative
      (Pattern.everywhere_alternatives h.written q (halts ▸ hq))
  have hname : Layout.Legible [.name b.1] := legible_token h.name (by simp)
  rw [ruleLines_eq halts]
  intro row hmem
  rcases List.mem_cons.1 hmem with rfl | hmem
  · have hrest := ((hrow p (.head _)).blank_cons.sym_cons (s := .equal) (by decide)).blank_cons
    exact hname.append hrest (separate_blank _)
  · obtain ⟨q, hq, rfl⟩ := List.mem_map.1 hmem
    have hrest := (hrow q (.tail _ hq)).blank_cons.sym_cons (s := .pipe) (by decide)
    rw [ruleIndent, List.append_assoc]
    generalize b.1.utf8ByteSize + 1 = n
    induction n with
    | zero => exact hrest
    | succ n ih => exact ih.blank_cons

end LegibleRule

/-- The text of legible rules is scanned to the tokens of their lines. -/
theorem scan_pretty {bodies : Bodies} (h : ∀ b ∈ bodies, LegibleRule b) :
    (scan bodies.pretty).errors = [] ∧
      (scan bodies.pretty).placed = Layout.place 0 (bodies.lines.flatMap line) := by
  have legible : ∀ row ∈ bodies.lines, row.Legible := by
    intro row hrow
    obtain ⟨b, hb, hrow⟩ := List.mem_flatMap.1 hrow
    exact (h b hb).lines row hrow
  have writable : ∀ row ∈ bodies.lines, row.Writable := fun row hrow => (legible row hrow).writable
  have text : bodies.pretty.toList
      = bodies.lines.flatMap fun row => (trimBlanksRight row.text ++ "\n").toList := by
    simp only [Bodies.pretty, prettyRule, Bodies.lines, String.toList_join, List.flatMap_map,
      List.flatMap_assoc]
  have writes : Writes (bodies.lines.flatMap line) bodies.pretty.toList := by
    rw [text]
    exact writes_lines writable
  rw [scan, Scan.read_writes _ writes (spaced_lines fun row hrow => (legible row hrow).spaced_self)
    (writable_lines writable)]
  exact ⟨rfl, rfl⟩

/-! ## Parsing the lines -/

namespace Parse

variable (eof : Nat)

/-- A rule starts with a name and an `=` that does not stand right before a brace. -/
theorem atRuleStart_cons {name : String} {span eq : Span} {ts : List PlacedToken}
    (apart : ∀ brace rest, ts = ⟨.symbol .openBrace, brace⟩ :: rest → eq.hi ≠ brace.lo) :
    atRuleStart (⟨.ident name, span⟩ :: ⟨.symbol .equal, eq⟩ :: ts) = true := by
  rw [atRuleStart.eq_def]
  split
  · next hts =>
    simp only [List.cons.injEq, PlacedToken.mk.injEq, true_and] at hts
    obtain ⟨-, rfl, hts⟩ := hts
    rw [Bool.not_eq_true', ← Bool.not_eq_true, Span.abuts_iff]
    exact apart _ _ hts
  · rfl
  · next hno => exact absurd rfl (hno _ _ _ _)

/-- The lines of further alternatives are read. -/
theorem further_lines (name : String) {ps : List Pattern}
    (h : ∀ p ∈ ps, Row.Alternative eof p.layoutAlternative p.rereadAlternative) (pos : Nat) :
    Row.Further eof
      (Layout.place pos
        ((ps.map fun p => ruleIndent name ++ p.layoutAlternative).flatMap line))
      (ps.map Pattern.rereadAlternative) := by
  induction ps generalizing pos with
  | nil => exact .nil
  | cons p ps ih =>
    have hmore := ih fun q hq => h q (.tail _ hq)
    rw [List.map_cons, List.flatMap_cons, place_line, ruleIndent, List.append_assoc, place_blanks]
    exact (hmore _).cons (h p (.head _)) _ _

theorem place_ruleHead (name : String) (row : Layout) (pos : Nat) :
    ∃ span eq, Layout.place pos (ruleHead name ++ row)
      = ⟨.ident name, span⟩ :: ⟨.symbol .equal, eq⟩ :: row.place (eq.hi + 1) :=
  ⟨_, _, rfl⟩

/-- The lines of a rule are read up to where the alternative ends that follows. -/
theorem reads_rule {b : String × Pattern} (h : LegibleRule b) (pos : Nat) {ts : List PlacedToken}
    (ends : atAltEnd ts = true) (pipe : ∀ span rest, ts ≠ ⟨.symbol .pipe, span⟩ :: rest) :
    ∃ span eq us, Layout.place pos ((ruleLines b.1 b.2).flatMap line) ++ ts
        = ⟨.ident b.1, span⟩ :: ⟨.symbol .equal, eq⟩ :: us ∧
      Reads (choice eof us) b.2.rereadBody ts ∧
      ∀ brace rest, us = ⟨.symbol .openBrace, brace⟩ :: rest → eq.hi ≠ brace.lo := by
  obtain ⟨p, ps, halts⟩ := h.alternatives
  have halt : ∀ q ∈ p :: ps, Row.Alternative eof q.layoutAlternative q.rereadAlternative :=
    fun q hq => Pattern.alternative_layoutAlternative
      (Pattern.everywhere_alternatives h.filled q (halts ▸ hq))
      (Pattern.everywhere_alternatives h.guarded q (halts ▸ hq))
  have hfurther := further_lines eof b.1 fun q hq => halt q (.tail _ hq)
  obtain ⟨span, eq, hhead⟩ := place_ruleHead b.1 p.layoutAlternative pos
  rw [ruleLines_eq halts, List.flatMap_cons, place_line, hhead, Pattern.rereadBody, halts,
    List.map_cons, List.append_assoc]
  generalize pos + (line (ruleHead b.1 ++ p.layoutAlternative)).width = next
  refine ⟨span, eq, _, rfl, (halt p (.head _)).reads_choice (hfurther next) ends pipe _, ?_⟩
  intro brace rest hus
  rcases List.append_eq_cons_iff.1 hus with ⟨-, hlater⟩ | ⟨row, hrow, -⟩
  · -- No brace stands where the alternative ends.
    have hends := (hfurther next).ends ends
    rw [hlater] at hends
    contradiction
  · -- A blank stands between the `=` and the alternative.
    have hlo : eq.hi + 1 ≤ brace.lo := le_lo_of_mem_place (hrow ▸ List.mem_cons_self)
    omega

theorem place_lines_cons (b : String × Pattern) (bodies : Bodies) (pos : Nat) :
    ∃ next, Layout.place pos ((Bodies.lines (b :: bodies)).flatMap line)
      = Layout.place pos ((ruleLines b.1 b.2).flatMap line) ++
        Layout.place next (bodies.lines.flatMap line) := by
  rw [Bodies.lines, List.flatMap_cons, List.flatMap_append, place_append]
  exact ⟨_, rfl⟩

/-- Where rules start, or the text ends, no alternative goes on. -/
theorem ends_lines {bodies : Bodies} (h : ∀ b ∈ bodies, LegibleRule b) (pos : Nat) :
    atAltEnd (Layout.place pos (bodies.lines.flatMap line)) = true ∧
      (∀ s span rest, Layout.place pos (bodies.lines.flatMap line)
        ≠ ⟨.symbol s, span⟩ :: rest) := by
  induction bodies generalizing pos with
  | nil => exact ⟨rfl, nofun⟩
  | cons b bodies ih =>
    obtain ⟨next, hplace⟩ := place_lines_cons b bodies pos
    obtain ⟨ends, symbol⟩ := ih (fun c hc => h c (.tail _ hc)) next
    obtain ⟨span, eq, us, hrule, -, apart⟩ :=
      reads_rule 0 (h b (.head _)) pos ends (symbol .pipe)
    rw [hplace, hrule]
    exact ⟨atRuleStart_cons apart, nofun⟩

/-- The lines of legible rules are read as rules. -/
theorem rules_lines {bodies : Bodies} (h : ∀ b ∈ bodies, LegibleRule b) (pos : Nat) :
    ∃ rs, rules eof (Layout.place pos (bodies.lines.flatMap line)) = .ok rs ∧
      rs.map (fun r => (r.name, r.body)) = bodies.map fun b => (b.1, b.2.rereadBody) := by
  induction bodies generalizing pos with
  | nil =>
    refine ⟨[], ?_, rfl⟩
    rw [Bodies.lines, List.flatMap_nil, List.flatMap_nil, place_nil, rules]
  | cons b bodies ih =>
    obtain ⟨next, hplace⟩ := place_lines_cons b bodies pos
    have hrest : ∀ c ∈ bodies, LegibleRule c := fun c hc => h c (.tail _ hc)
    obtain ⟨ends, symbol⟩ := ends_lines hrest next
    obtain ⟨span, eq, us, hrule, ⟨shorter, hbody⟩, -⟩ :=
      reads_rule eof (h b (.head _)) pos ends (symbol .pipe)
    obtain ⟨rs, hrs, hmore⟩ := ih hrest next
    have hcomma : skipComma (Layout.place next ((Bodies.lines bodies).flatMap line))
        = Layout.place next ((Bodies.lines bodies).flatMap line) := by
      rw [skipComma.eq_def]
      split
      · next hts => exact absurd hts (symbol _ _ _)
      · rfl
    refine ⟨⟨b.1, b.2.rereadBody, span⟩ :: rs, ?_, ?_⟩
    · rw [hplace, hrule, rules, hbody]
      show (do
        let more ← rules eof (skipComma (Layout.place next ((Bodies.lines bodies).flatMap line)))
        return Rule.mk b.1 b.2.rereadBody span :: more : Attempt (List Rule)) = _
      rw [hcomma, hrs]
      rfl
    · rw [List.map_cons, List.map_cons, hmore]

end Parse

/-- The text of legible rules is parsed, and each body is read back. -/
theorem parseGrammar_pretty {bodies : Bodies} (h : ∀ b ∈ bodies, LegibleRule b) :
    ∃ rs, parseGrammar bodies.pretty = .ok rs ∧
      rs.definitions = bodies.map fun b => (b.1, b.2.rereadBody) := by
  obtain ⟨errors, placed⟩ := scan_pretty h
  obtain ⟨rs, hrules, hdefinitions⟩ :=
    Parse.rules_lines (scan bodies.pretty).stop h 0
  refine ⟨⟨rs⟩, ?_, hdefinitions⟩
  rw [parseGrammar]
  simp only [errors, placed, hrules]
  rfl

end Pegboard
