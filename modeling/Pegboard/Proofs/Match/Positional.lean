import Pegboard.Proofs.Grammar.Essence
import Pegboard.Proofs.Normalize.Source

/-!
# Positional variables

A positional variable denotes the term that it numbers.  A sequence with a term that a later one
refers to becomes a scope in which that term has a label, and whenever the scope comes to one of its
terms, the innermost frame binds the names of the earlier terms to the values that they had.

Inside the terms there may be sequences that use the same names.  They do not get in the way, for
what binds them has become a scope of its own, and a run leaves the innermost frame as it was but
for the names that its patterns expose.  So all depends on what a term exposes: labels of the author,
which are none of these names, and the label of its own position.

## Main Definitions

* `Pattern.Refers`: a later term of a sequence refers to an earlier one.
* `Pattern.numberedTerms`: the terms of the scope that becomes of a sequence.
* `Match.Advances`: the evaluation of some terms comes to those that are left.
* `RuleSet.Stage`: the grammars of a rule set in which positional labels are put in.

## Main Results

* `Match.Run.innermost`: a run binds in the innermost frame only what its patterns expose.
* `Match.Advances.binds`: a label of a term before keeps its binding.
* `positional_denotes`: what positional variables denote.
-/

namespace Pegboard

theorem positionalName_injective : Function.Injective positionalName := by
  intro i j h
  rw [positionalName, positionalName, String.append_right_inj, Nat.toString_eq_ofList_toDigits,
    Nat.toString_eq_ofList_toDigits, String.ofList_inj] at h
  rw [← Nat.ofDigitChars_ten_toDigits (n := i), h, Nat.ofDigitChars_ten_toDigits]

namespace Pattern

/-! ## What passes expose -/

theorem exposed_subset_of_part {p q : Pattern} (hq : q ∈ p.parts)
    (unscoped : ∀ rule ps, p ≠ .scope rule ps) : q.exposed ⊆ p.exposed := by
  intro name hname
  cases p with
  | choice ps | seq ps => exact mem_exposedAll.2 ⟨q, hq, hname⟩
  | scope rule ps => exact absurd rfl (unscoped rule ps)
  | label => exact .tail _ (List.mem_singleton.1 hq ▸ hname)
  | leftrec | memo | not | opt | star | plus | paren | capture =>
    exact List.mem_singleton.1 hq ▸ hname
  | _ => contradiction

/-- A name that a pattern exposes is that of a label of its own, or a part of it exposes it. -/
theorem exposed_cases {p : Pattern} {name : String} (h : name ∈ p.exposed) :
    (∃ q, p = .label q name) ∨ ∃ q ∈ p.parts, name ∈ q.exposed := by
  cases p with
  | choice ps | seq ps => exact .inr (mem_exposedAll.1 h)
  | label q _ =>
    rcases List.mem_cons.1 h with rfl | h
    · exact .inl ⟨q, rfl⟩
    · exact .inr ⟨q, .head _, h⟩
  | leftrec q _ | memo q _ => exact .inr ⟨q, .head _, h⟩
  | not q | opt q | star q | plus q | paren q | capture q => exact .inr ⟨q, .head _, h⟩
  | _ => contradiction

/-- Rebuilding exposes no more than before if the change of a node does not. -/
theorem exposed_rebuild {f : Pattern → Pattern} (change : ∀ q : Pattern, (f q).exposed ⊆ q.exposed)
    (p : Pattern) : (p.rebuild f).exposed ⊆ p.exposed := by
  induction p using induction_parts with
  | node p ih =>
    intro name hname
    rw [rebuild_eq] at hname
    rcases exposed_cases (change _ hname) with ⟨q, h⟩ | ⟨r, hr, hname⟩
    · cases p with
      | label => exact (Pattern.label.inj h).2 ▸ .head _
      | _ => contradiction
    · have unscoped : ∀ rule ps, p ≠ .scope rule ps := by
        rintro rule ps rfl
        exact absurd (change _ ‹_›) (by simp [mapParts, exposed])
      rw [parts_mapParts] at hr
      obtain ⟨q, hq, rfl⟩ := List.mem_map.1 hr
      exact exposed_subset_of_part hq unscoped (ih q hq hname)

/-- Only labels are exposed. -/
theorem exposed_subset_labels (p : Pattern) : p.exposed ⊆ p.labels := by
  induction p using induction_parts with
  | node p ih =>
    intro name hname
    rcases exposed_cases hname with ⟨q, rfl⟩ | ⟨q, hq, hname⟩
    · exact .head _
    · exact labels_subset_of_node (mem_nodes_of_part hq) (ih q hq hname)

theorem exposed_scopeAlternative (rule : String) (p : Pattern) :
    (scopeAlternative rule p).exposed ⊆ p.exposed := by
  unfold scopeAlternative
  split
  · exact List.Subset.refl _
  · exact List.Subset.refl _
  · split
    · exact List.nil_subset _
    · exact List.Subset.refl _

theorem exposed_scopeNode (rule : String) (p : Pattern) :
    (scopeNode rule p).exposed ⊆ p.exposed := by
  unfold scopeNode
  split
  · split
    · exact List.nil_subset _
    · exact List.Subset.refl _
  · intro name hname
    obtain ⟨_, himage, hname⟩ := mem_exposedAll.1 hname
    obtain ⟨alt, halt, rfl⟩ := List.mem_map.1 himage
    exact mem_exposedAll.2 ⟨alt, halt, exposed_scopeAlternative rule alt hname⟩
  · exact List.Subset.refl _

/-- The labels that are put in are exposed in scopes only. -/
theorem exposed_positionalNode (rule : String) (p : Pattern) :
    (positionalNode rule p).exposed ⊆ p.exposed := by
  unfold positionalNode
  split
  · split
    · exact List.nil_subset _
    · exact List.Subset.refl _
  · exact List.nil_subset _
  · exact List.Subset.refl _

theorem exposed_simplify (p : Pattern) : p.simplify.exposed ⊆ p.exposed :=
  exposed_rebuild (fun q => by rw [exposed_simplifyNode]; exact List.Subset.refl _) p

/-! ## Labels of terms -/

/-- A later term refers to the term at a position, which is counted from zero. -/
def Refers (ts : List Pattern) (i : Nat) : Prop :=
  ∃ p ∈ ts.drop (i + 1), positionalName (i + 1) ∈ p.variableNames

/-- A term with scopes and positional labels put in. -/
def numbered (rule : String) (p : Pattern) : Pattern :=
  (p.rebuild (scopeNode rule)).insertPositional rule

/-- The terms of the scope that becomes of a sequence. -/
def numberedTerms (rule : String) (ts : List Pattern) : List Pattern :=
  labelTerms 1 (ts.map (numbered rule))

theorem needsLabel_eq_true {position : Nat} {p : Pattern} {later : List Pattern} :
    needsLabel position p later = true ↔
      (∃ q ∈ later, positionalName position ∈ q.variableNames) ∧
        p.isLabelNamed (positionalName position) = false := by
  simp [needsLabel]

theorem getElem?_labelTerms (ps : List Pattern) (position i : Nat) :
    (labelTerms position ps)[i]? = ps[i]?.map fun p =>
      if needsLabel (position + i) p (ps.drop (i + 1)) then
        .label p (positionalName (position + i))
      else p := by
  induction ps generalizing position i with
  | nil => rfl
  | cons p ps ih =>
    cases i with
    | zero => simp [labelTerms]
    | succ i => simp [labelTerms, ih, Nat.add_right_comm position 1 i, Nat.add_assoc]

/-- Any of some terms needs a label if one of them does. -/
theorem anyNeedsLabel_eq_true {ps : List Pattern} {position : Nat} :
    anyNeedsLabel position ps = true ↔
      ∃ i p, ps[i]? = some p ∧ needsLabel (position + i) p (ps.drop (i + 1)) = true := by
  induction ps generalizing position with
  | nil => simp [anyNeedsLabel]
  | cons p ps ih =>
    rw [anyNeedsLabel, Bool.or_eq_true, ih]
    constructor
    · rintro (first | ⟨i, q, hq, needs⟩)
      · exact ⟨0, p, rfl, first⟩
      · exact ⟨i + 1, q, hq, by simpa [Nat.add_right_comm position 1 i, Nat.add_assoc] using needs⟩
    · rintro ⟨i, q, hq, needs⟩
      cases i with
      | zero => exact .inl (Option.some.inj hq ▸ needs)
      | succ i =>
        refine .inr ⟨i, q, hq, ?_⟩
        simpa [Nat.add_right_comm position 1 i, Nat.add_assoc] using needs

theorem isLabelNamed_rebuild {f : Pattern → Pattern} {name : String}
    (change : ∀ q : Pattern, (f q).isLabelNamed name = q.isLabelNamed name) (p : Pattern) :
    (p.rebuild f).isLabelNamed name = p.isLabelNamed name := by
  rw [rebuild_eq, change]
  cases p <;> rfl

theorem isLabelNamed_scopeNode (rule name : String) (p : Pattern) :
    (scopeNode rule p).isLabelNamed name = p.isLabelNamed name := by
  unfold scopeNode
  split
  · split <;> rfl
  · rfl
  · rfl

theorem isLabelNamed_positionalNode (rule name : String) (p : Pattern) :
    (positionalNode rule p).isLabelNamed name = p.isLabelNamed name := by
  unfold positionalNode
  split
  · split <;> rfl
  · rfl
  · rfl

theorem isLabelNamed_numbered (rule name : String) (p : Pattern) :
    (p.numbered rule).isLabelNamed name = p.isLabelNamed name :=
  (isLabelNamed_rebuild (isLabelNamed_positionalNode rule name) _).trans
    (isLabelNamed_rebuild (isLabelNamed_scopeNode rule name) p)

theorem variableNames_numbered (rule : String) (p : Pattern) :
    (p.numbered rule).variableNames = p.variableNames := by
  rw [numbered, variableNames_insertPositional, (noNeedier_scopes rule p).1]

theorem exposed_numbered (rule : String) (p : Pattern) : (p.numbered rule).exposed ⊆ p.exposed :=
  List.Subset.trans (exposed_rebuild (exposed_positionalNode rule) _)
    (exposed_rebuild (exposed_scopeNode rule) p)

section Sequence

variable (rule : String) {ts : List Pattern} {i : Nat}

/-- A term that a later one refers to needs a label, unless the author gave it that label. -/
theorem needsLabel_of_refers (refers : Refers ts i) {t : Pattern}
    (plain : positionalName (i + 1) ∉ t.labels) :
    needsLabel (1 + i) (t.numbered rule) ((ts.map (numbered rule)).drop (i + 1)) = true := by
  obtain ⟨p, hp, hname⟩ := refers
  rw [Nat.add_comm 1 i, needsLabel_eq_true]
  refine ⟨⟨p.numbered rule, ?_, by rwa [variableNames_numbered]⟩, ?_⟩
  · rw [← List.map_drop]
    exact List.mem_map_of_mem hp
  · rw [isLabelNamed_numbered, Bool.eq_false_iff]
    intro h
    cases t with
    | label q bound => exact plain (exposed_subset_labels _ (by simp_all [isLabelNamed, exposed]))
    | _ => contradiction

theorem lt_length_of_refers (refers : Refers ts i) : i < ts.length := by
  obtain ⟨p, hp, -⟩ := refers
  have := List.length_pos_of_mem hp
  rw [List.length_drop] at this
  omega

/-- In the scope that becomes of a sequence, a term that a later one refers to is labelled. -/
theorem getElem?_numberedTerms (refers : Refers ts i)
    (plain : ∀ t ∈ ts, positionalName (i + 1) ∉ t.labels) :
    ∃ q, (numberedTerms rule ts)[i]? = some (.label q (positionalName (1 + i))) := by
  have hi := lt_length_of_refers refers
  refine ⟨ts[i].numbered rule, ?_⟩
  rw [numberedTerms, getElem?_labelTerms, List.getElem?_map, List.getElem?_eq_getElem hi,
    Option.map_some, Option.map_some,
    if_pos (needsLabel_of_refers rule refers (plain _ (List.getElem_mem hi)))]

/-- A sequence with a term that a later one refers to becomes a scope. -/
theorem numbered_seq (refers : Refers ts i) (plain : ∀ t ∈ ts, positionalName (i + 1) ∉ t.labels) :
    (seq ts).numbered rule = .scope rule (numberedTerms rule ts) := by
  have hi := lt_length_of_refers refers
  have needs : anyNeedsLabel 1 (ts.map (numbered rule)) = true :=
    anyNeedsLabel_eq_true.2 ⟨i, ts[i].numbered rule, by simp [hi],
      needsLabel_of_refers rule refers (plain _ (List.getElem_mem hi))⟩
  have terms : (ts.map (rebuild (scopeNode rule))).map (rebuild (positionalNode rule))
      = ts.map (numbered rule) := by
    rw [List.map_map]
    rfl
  rw [numbered, insertPositional, rebuild, rebuildAll_eq_map, scopeNode]
  split
  · rw [rebuild, rebuildAll_eq_map, terms]
    rfl
  · rw [rebuild, rebuildAll_eq_map, terms, positionalNode, if_pos needs]
    rfl

end Sequence

/-! ## Where the scope stands -/

section Keep

variable {rule : String} {p r : Pattern}

theorem mem_nodes_scopeAlternative (rule : String) (p : Pattern) :
    p ∈ (scopeAlternative rule p).nodes := by
  unfold scopeAlternative
  split
  · exact mem_nodes_self _
  · exact mem_nodes_self _
  · split
    · exact mem_nodes_of_part (.head _)
    · exact mem_nodes_self _

theorem mem_nodes_scopeNode (h : r ∈ p.parts) : r ∈ (scopeNode rule p).nodes := by
  unfold scopeNode
  split
  · split <;> exact mem_nodes_of_part h
  · exact mem_nodes_trans (mem_nodes_of_part (List.mem_map_of_mem h))
      (mem_nodes_scopeAlternative rule r)
  · exact mem_nodes_of_part h

theorem mem_nodes_labelTerms {ps : List Pattern} (h : r ∈ ps) (position : Nat) :
    ∃ q ∈ labelTerms position ps, r ∈ q.nodes := by
  obtain ⟨i, hi⟩ := List.mem_iff_getElem?.1 h
  have image := getElem?_labelTerms ps position i
  rw [hi, Option.map_some] at image
  refine ⟨_, List.mem_of_getElem? image, ?_⟩
  split
  · exact mem_nodes_of_part (.head _)
  · exact mem_nodes_self r

theorem mem_nodes_positionalNode (h : r ∈ p.parts) : r ∈ (positionalNode rule p).nodes := by
  unfold positionalNode
  split
  · split
    · exact mem_nodes_iff.2 (.inr (mem_nodes_labelTerms h 1))
    · exact mem_nodes_of_part h
  · exact mem_nodes_iff.2 (.inr (mem_nodes_labelTerms h 1))
  · exact mem_nodes_of_part h

theorem mem_nodes_simplifyNode (h : r ∈ p.parts) : r ∈ (simplifyNode p).nodes := by
  unfold simplifyNode
  split
  · exact List.mem_singleton.1 h ▸ mem_nodes_self _
  · exact List.mem_singleton.1 h ▸ mem_nodes_self _
  · contradiction
  · exact List.mem_singleton.1 h ▸ mem_nodes_self _
  · exact mem_nodes_of_part h

end Keep

/-- What becomes of a node when scopes and positional labels are put in stands in the body, whether
that was wrapped for left recursion or not. -/
theorem mem_nodes_numbered {rule : String} {recursive : List String} {p q : Pattern}
    (h : q ∈ p.nodes) : q.numbered rule ∈ ((Bodies.wrapLeftRecursive recursive rule
      (p.insertScopes rule)).insertPositional rule).nodes := by
  have inScopes : q.rebuild (scopeNode rule) ∈ (p.insertScopes rule).nodes := by
    have rebuilt := mem_nodes_rebuild (f := scopeNode rule) (fun _ _ => mem_nodes_scopeNode) h
    unfold insertScopes
    split
    · next heq => exact heq ▸ rebuilt
    · exact mem_nodes_trans (mem_nodes_scopeAlternative rule _) rebuilt
  refine mem_nodes_rebuild (fun _ _ => mem_nodes_positionalNode) ?_
  unfold Bodies.wrapLeftRecursive
  split
  · exact mem_nodes_trans (mem_nodes_of_part (.head _)) inScopes
  · exact inScopes

end Pattern

/-! ## The innermost frame -/

namespace Match

open Pattern

variable {g : Grammar} {input : Array Char}

/-- The patterns of a list do not expose a name. -/
def Spare (name : String) (ps : List Pattern) : Prop := ∀ p ∈ ps, name ∉ p.exposed

section Spare

variable {name : String} {p : Pattern} {ps : List Pattern}

theorem Spare.head (h : Spare name (p :: ps)) : Spare name [p] := fun _ hq =>
  List.mem_singleton.1 hq ▸ h p (.head _)

theorem Spare.tail (h : Spare name (p :: ps)) : Spare name ps := fun q hq => h q (.tail _ hq)

theorem Spare.parts (h : Spare name [p]) (unscoped : ∀ rule ps, p ≠ .scope rule ps) :
    Spare name p.parts := fun _ hq hname =>
  h p (.head _) (exposed_subset_of_part hq unscoped hname)

theorem spare_body (closed : ∀ b ∈ g.bodies, b.2.Closed) {rule : String}
    (found : g.body? rule = some p) : Spare name [p] := fun _ hq => by
  rw [List.mem_singleton.1 hq, (exposed_eq_nil p).2 (closed _ (Bodies.mem_of_body? found))]
  exact List.not_mem_nil

end Spare

/-- A run binds in the innermost frame only what its patterns expose. -/
theorem Run.innermost (closed : ∀ b ∈ g.bodies, b.2.Closed) {task : Task} {s s' : MatchState}
    (h : Run g input task s s') {name : String} (spare : Spare name task.patterns) :
    s'.scopes.innermost.get? name = s.scopes.innermost.get? name := by
  induction h with
  | altsNil | termsNil | seed | hit => rfl
  | altsLast _ ih | altsTaken _ _ ih | termsStop _ _ ih => exact ih spare.head
  | altsNext _ _ _ ih ihRest => exact (ihRest spare.tail).trans (ih spare.head)
  | termsNext _ _ _ ih ihRest => exact (ihRest spare.tail).trans (ih spare.head)
  | repeatedStop _ _ ih | repeatedStill _ _ _ ih | growStop _ _ ih => exact ih spare
  | repeatedNext _ _ _ _ ih ihRest | growNext _ _ _ ih ihRest =>
    exact (ihRest spare).trans (ih spare)
  | atom h =>
    obtain ⟨outcome, failure, effect, -, -⟩ := atom?_effect h
    rw [effect _ rfl fun _ _ => rfl, Option.some.injEq] at h
    subst h
    rfl
  | choice _ ih | seq _ ih | once _ _ _ ih | grown _ _ _ ih | miss _ _ ih | star _ ih
  | plusStop _ _ ih | plusStill _ _ _ ih | paren _ ih =>
    exact ih (spare.parts (by simp))
  | plusNext _ _ _ _ ih ihRest =>
    exact (ihRest (spare.parts (by simp))).trans (ih (spare.parts (by simp)))
  | @scope rule ps s s' h _ =>
    have popped : s'.scopes.pop = s.scopes := (popped_frame (s := s) h.framed).2
    show s'.scopes.pop.innermost.get? name = _
    rw [popped]
  | @label inner bound s s' _ ih =>
    refine Eq.trans ?_ (ih (spare.parts (by simp)))
    have other : name ≠ bound := fun same => spare _ (.head _) (same ▸ .head _)
    unfold MatchState.labelled
    split
    · rfl
    · exact Frame.get?_insert_of_ne _ _ other
  | @rule name body s s' found _ ih =>
    rw [leaving_scopes, ih (spare_body closed found), MatchState.entering_scopes]
  | @not inner s s' _ ih =>
    obtain ⟨outcome, furthest, h⟩ := looked_eq s s'
    rw [h]
    exact ih (spare.parts (by simp))
  | @opt inner s s' _ ih =>
    obtain ⟨outcome, h⟩ := optional_eq s s'
    rw [h]
    exact ih (spare.parts (by simp))
  | @capture inner s s' _ ih =>
    obtain ⟨value, h⟩ := captured_eq input s s'
    rw [h]
    exact ih (spare.parts (by simp))

/-! ## Terms one after another -/

/-- The evaluation of some terms, one after another and each with success, comes to the terms that
are left.  It has the values of the terms before. -/
inductive Advances (g : Grammar) (input : Array Char) :
    List Pattern → MatchState → List Value → List Pattern → MatchState → Prop where
  | refl {ps s} : Advances g input ps s [] ps s
  | step {p ps s t values rest u} (h : Run g input (.whole p) s t) (ok : t.failed = false)
      (next : Advances g input ps t values rest u) :
      Advances g input (p :: ps) s (t.value :: values) rest u

variable {ps rest : List Pattern} {s u : MatchState} {values : List Value}

theorem Advances.reaches (h : Advances g input ps s values rest u) :
    Reaches g input (.terms ps) s (.terms rest) u := by
  induction h with
  | refl => exact .refl
  | step run ok _ ih => exact .step (.termsTail run ok) ih

/-- Whatever the evaluation of some terms ends with, it has come to the end of them, or to the term
that fails. -/
theorem Run.exists_advances {s' : MatchState} (h : Run g input (.terms ps) s s') :
    (∃ values, Advances g input ps s values [] s') ∨
      ∃ values p rest t, Advances g input ps s values (p :: rest) t ∧
        Run g input (.whole p) t s' ∧ s'.failed = true := by
  induction ps generalizing s with
  | nil =>
    cases h with
    | termsNil => exact .inl ⟨[], .refl⟩
  | cons p ps ih =>
    cases h with
    | termsStop run bad => exact .inr ⟨[], p, ps, s, .refl, run, bad⟩
    | termsNext run ok next =>
      rcases ih next with ⟨values, all⟩ | ⟨values, q, rest, t, before, stop⟩
      · exact .inl ⟨_, .step run ok all⟩
      · exact .inr ⟨_, q, rest, t, .step run ok before, stop⟩

/-- Terms from a position on, of which none exposes a positional name but that of its own
position. -/
def Separate : Nat → List Pattern → Prop
  | _, [] => True
  | position, p :: ps =>
    (∀ k, positionalName k ∈ p.exposed → k = position) ∧ Separate (position + 1) ps

theorem Separate.spare {position k : Nat} (h : Separate position ps) (before : k < position) :
    Spare (positionalName k) ps := by
  induction ps generalizing position with
  | nil => exact fun _ hp => by contradiction
  | cons p ps ih =>
    refine List.forall_mem_cons.2 ⟨fun exposed => ?_, ih h.2 (Nat.lt_succ_of_lt before)⟩
    exact absurd (h.1 k exposed) (Nat.ne_of_lt before)

theorem Advances.innermost (closed : ∀ b ∈ g.bodies, b.2.Closed)
    (h : Advances g input ps s values rest u) {name : String} (spare : Spare name ps) :
    u.scopes.innermost.get? name = s.scopes.innermost.get? name := by
  induction h with
  | refl => rfl
  | step run _ _ ih => exact (ih spare.tail).trans (run.innermost closed spare.head)

/-- A label that succeeds binds its value. -/
theorem Run.binds {p : Pattern} {name : String} {t : MatchState}
    (h : Run g input (.whole (.label p name)) s t) (ok : t.failed = false) :
    t.scopes.innermost.get? name = some t.value := by
  cases h with
  | atom h => contradiction
  | @label _ _ _ s' _ =>
    unfold MatchState.labelled at ok ⊢
    split
    · next bad => rw [if_pos bad, bad] at ok; contradiction
    · exact Frame.get?_insert_self _ _ _

/-- Once terms have been evaluated whose positional names are kept separate, the label of a term binds
the value that the term had. -/
theorem Advances.binds (closed : ∀ b ∈ g.bodies, b.2.Closed)
    (h : Advances g input ps s values rest u) {position i : Nat} (separate : Separate position ps)
    (hi : i < values.length) {p : Pattern}
    (label : ps[i]? = some (.label p (positionalName (position + i)))) :
    u.scopes.innermost.get? (positionalName (position + i)) = some values[i] := by
  induction h generalizing position i with
  | refl => contradiction
  | @step q qs s t values rest u run ok next ih =>
    cases i with
    | zero =>
      obtain rfl : q = .label p (positionalName position) := Option.some.inj label
      -- The later terms have other positions, so they leave the binding.
      exact (next.innermost closed (separate.2.spare (Nat.lt_succ_self position))).trans
        (run.binds ok)
    | succ i =>
      have shift : position + (i + 1) = position + 1 + i := by omega
      rw [shift] at label ⊢
      exact ih separate.2 (Nat.lt_of_succ_lt_succ hi) label

end Match

/-! ## Sequences from grammar texts -/

namespace Pattern

open Match

theorem separate_labelTerms {ps : List Pattern} (h : ∀ p ∈ ps, ∀ k, positionalName k ∉ p.exposed)
    (position : Nat) : Separate position (labelTerms position ps) := by
  induction ps generalizing position with
  | nil => trivial
  | cons p ps ih =>
    refine ⟨fun k exposed => ?_, ih (fun q hq => h q (.tail _ hq)) (position + 1)⟩
    split at exposed
    · rcases List.mem_cons.1 exposed with same | exposed
      · exact positionalName_injective same
      · exact absurd exposed (h p (.head _) k)
    · exact absurd exposed (h p (.head _) k)

theorem separate_map {f : Pattern → Pattern} (keep : ∀ p : Pattern, (f p).exposed ⊆ p.exposed)
    {position : Nat} {ps : List Pattern} (h : Separate position ps) :
    Separate position (ps.map f) := by
  induction ps generalizing position with
  | nil => trivial
  | cons p ps ih => exact ⟨fun k exposed => h.1 k (keep p exposed), ih h.2⟩

/-- The terms of a sequence in whose text no label is positional are kept separate once they are
labelled. -/
theorem separate_numberedTerms {rule : String} {ts : List Pattern}
    (plain : ∀ t ∈ ts, ∀ k, positionalName k ∉ t.labels) : Separate 1 (numberedTerms rule ts) := by
  refine separate_labelTerms (fun p hp k exposed => ?_) 1
  obtain ⟨t, ht, rfl⟩ := List.mem_map.1 hp
  exact plain t ht k (exposed_subset_labels t (exposed_numbered rule t exposed))

/-- A body is settled if in no sequence of it a later term refers to an earlier one. -/
theorem settled_of_not_refers {p : Pattern} (authored : p.Authored)
    (none : ∀ ts i, .seq ts ∈ p.nodes → ¬ Refers ts i) : p.Settled := by
  intro q hq ps hps
  cases q with
  | seq ts =>
    obtain rfl := Option.some.inj hps
    rw [Bool.eq_false_iff]
    intro any
    obtain ⟨i, t, -, needs⟩ := anyNeedsLabel_eq_true.1 any
    rw [Nat.add_comm 1 i] at needs
    obtain ⟨⟨later, hlater, hname⟩, -⟩ := needsLabel_eq_true.1 needs
    exact none ts i hq ⟨later, hlater, hname⟩
  | scope => exact (authored _ hq).elim
  | _ => contradiction

end Pattern

namespace RuleSet

open Pattern

/-- The bodies of rules with scopes and positional labels put in, those of left-recursive rules
wrapped. -/
def labelledBodies (rs : RuleSet) : Bodies :=
  rs.scopedBodies.mapBodies fun rule body =>
    (Bodies.wrapLeftRecursive rs.scopedBodies.leftRecursive rule body).insertPositional rule

/-- The grammars of a rule set in which positional labels are put in, with what has been done to the
patterns since. -/
inductive Stage (rs : RuleSet) : Grammar → (Pattern → Pattern) → Prop where
  /-- The bodies right after the labels were put in. -/
  | labelled {leftAssoc : List String} : rs.Stage ⟨rs.labelledBodies, leftAssoc⟩ id
  /-- What normalization makes of the rules, with or without memoization. -/
  | normalized {options : NormalizeOptions} {g : Grammar} (h : rs.normalize options = .ok g) :
      rs.Stage g Pattern.simplify

variable {rs : RuleSet} {g : Grammar} {finish : Pattern → Pattern}

theorem finished_eq (rs : RuleSet) :
    rs.finished = rs.labelledBodies.mapBodies fun _ => Pattern.simplify := by
  rw [finished, labelledBodies, Bodies.mapBodies, Bodies.mapBodies, Bodies.mapBodies, List.map_map]
  rfl

theorem mem_labelledBodies {r : Rule} (hr : r ∈ rs.rules) :
    (r.name, (Bodies.wrapLeftRecursive rs.scopedBodies.leftRecursive r.name
      (r.body.insertScopes r.name)).insertPositional r.name) ∈ rs.labelledBodies := by
  refine Bodies.mem_mapBodies.2 ⟨_, Bodies.mem_mapBodies.2 ⟨r.body, ?_, rfl⟩, rfl⟩
  exact List.mem_map.2 ⟨r, hr, rfl⟩

theorem Stage.closed (h : rs.Stage g finish) : ∀ b ∈ g.bodies, b.2.Closed := by
  cases h with
  | normalized h => exact closed_of_normalize h
  | labelled =>
    intro b hb
    change b ∈ rs.labelledBodies at hb
    obtain ⟨inScope, hscoped, hbody⟩ := Bodies.mem_mapBodies.1 hb
    obtain ⟨written, -, hscopes⟩ := Bodies.mem_mapBodies.1 hscoped
    obtain rfl : inScope = written.insertScopes b.1 := hscopes
    rw [hbody]
    refine closed_insertPositional ?_
    unfold Bodies.wrapLeftRecursive
    split <;> exact closed_insertScopes b.1 written

theorem Stage.exposed_subset (h : rs.Stage g finish) (p : Pattern) :
    (finish p).exposed ⊆ p.exposed := by
  cases h with
  | labelled => exact List.Subset.refl _
  | normalized => exact exposed_simplify p

theorem Stage.finish_label (h : rs.Stage g finish) (p : Pattern) (name : String) :
    finish (.label p name) = .label (finish p) name := by
  cases h <;> rfl

/-- A scope in the body of a rule stands in the grammar. -/
theorem Stage.mem_nodes (h : rs.Stage g finish) {r : Rule} (hr : r ∈ rs.rules) {rule : String}
    {ps : List Pattern}
    (hscope : Pattern.scope rule ps ∈ ((Bodies.wrapLeftRecursive rs.scopedBodies.leftRecursive r.name
      (r.body.insertScopes r.name)).insertPositional r.name).nodes) :
    ∃ body, (r.name, body) ∈ g.bodies ∧ Pattern.scope rule (ps.map finish) ∈ body.nodes := by
  cases h with
  | labelled => exact ⟨_, mem_labelledBodies hr, by rwa [List.map_id]⟩
  | @normalized options g h =>
    have simplified := mem_nodes_rebuild (fun _ _ => mem_nodes_simplifyNode) hscope
    rw [rebuild, rebuildAll_eq_map] at simplified
    have finished : (r.name, _) ∈ rs.finished :=
      finished_eq rs ▸ Bodies.mem_mapBodies.2 ⟨_, mem_labelledBodies hr, rfl⟩
    obtain ⟨-, -, rfl⟩ := normalize_eq_ok.1 h
    cases options.memoize with
    | false => exact ⟨_, finished, simplified⟩
    | true =>
      refine ⟨Bodies.wrapMemo _ r.name _, Bodies.mem_mapBodies.2 ⟨_, finished, rfl⟩, ?_⟩
      unfold Bodies.wrapMemo
      split
      · exact simplified
      · split
        · exact mem_nodes_trans (mem_nodes_of_part (.head _)) simplified
        · exact simplified

end RuleSet

open Pattern Match

/-- **Positional variables denote the terms that they number.**  Let no label of a rule of a grammar
text be a positional name.

A sequence of the rule in which later terms refer to earlier ones becomes a scope of the rule, and
the scope stands in the grammar, right after the labels are put in and in what normalization gives.
Whenever the evaluation of the scope comes to a term, or to the end, the innermost frame binds the
name of every earlier term that a later one refers to, to the value that the earlier term had in this
evaluation.

If there is no such sequence, the body is left as it is. -/
theorem positional_denotes {text : String} {rs : RuleSet} (parsed : parseGrammar text = .ok rs)
    {r : Rule} (hr : r ∈ rs.rules) (plain : ∀ k, positionalName k ∉ r.body.labels) :
    (∀ ts, .seq ts ∈ r.body.nodes → (∃ i, Refers ts i) →
      (seq ts).numbered r.name = .scope r.name (numberedTerms r.name ts) ∧
      ∀ g finish, rs.Stage g finish →
        (∃ body, (r.name, body) ∈ g.bodies ∧
          .scope r.name ((numberedTerms r.name ts).map finish) ∈ body.nodes) ∧
        ∀ input (s : MatchState) values rest u, Advances g input ((numberedTerms r.name ts).map finish)
            ({ s with scopes := s.scopes.push }.succeed .null) values rest u →
          ∀ i (before : i < values.length), Refers ts i →
            u.scopes.innermost.get? (positionalName (i + 1)) = some values[i]) ∧
    ((∀ ts i, .seq ts ∈ r.body.nodes → ¬ Refers ts i) →
      r.body.insertPositional r.name = r.body ∧
      ∀ recursive,
        (Bodies.wrapLeftRecursive recursive r.name (r.body.insertScopes r.name)).insertPositional
            r.name
          = Bodies.wrapLeftRecursive recursive r.name (r.body.insertScopes r.name)) := by
  refine ⟨fun ts hts ⟨i₀, refers₀⟩ => ?_, fun none => ?_⟩
  · have plainTerms : ∀ t ∈ ts, ∀ k, positionalName k ∉ t.labels := fun t ht k label =>
      plain k (labels_subset_of_node (mem_nodes_trans hts (mem_nodes_of_part ht)) label)
    have image := numbered_seq r.name refers₀ fun t ht => plainTerms t ht (i₀ + 1)
    refine ⟨image, fun g finish stage => ⟨?_, ?_⟩⟩
    · exact stage.mem_nodes hr (image ▸ mem_nodes_numbered hts)
    · intro input s values rest u advances i before refers
      obtain ⟨q, label⟩ := getElem?_numberedTerms r.name refers
        fun t ht => plainTerms t ht (i + 1)
      rw [Nat.add_comm i 1]
      refine advances.binds stage.closed
        (separate_map stage.exposed_subset (separate_numberedTerms plainTerms)) before
        (p := finish q) ?_
      rw [List.getElem?_map, label, Option.map_some, stage.finish_label]
  · have settled := settled_of_not_refers (authored_of_parseGrammar parsed r hr).2 none
    refine ⟨insertPositional_of_settled settled, fun recursive => insertPositional_of_settled ?_⟩
    exact Bodies.everywhere_wrapLeftRecursive (settledNode_of_none rfl)
      (settled_insertScopes settled)

/-! ## Two sequences that use one name -/

/-- The terms of a sequence with a group in which a positional variable has the name of one outside. -/
def digitsTerms : List Pattern :=
  [.apply "digit", .paren (.choice [.seq [.lit "+", .apply "digit", .action (.var "_2")]]),
    .action (.arr [.var "_1", .var "_2"])]

/-- A rule with that sequence. -/
def digitsRules : RuleSet := ⟨[⟨"a", .choice [.seq digitsTerms], ⟨0, 1⟩⟩]⟩

/-- Behind the group, the name is bound to the value of the group. -/
theorem digits_positional :
    numberedTerms "a" digitsTerms = [.label (.apply "digit") "_1",
      .label (.paren (.choice [.scope "a" [.lit "+", .label (.apply "digit") "_2",
        .action (.var "_2")]])) "_2", .action (.arr [.var "_1", .var "_2"])] ∧
    ∃ u, Advances ⟨digitsRules.labelledBodies, []⟩ #['1', '+', '2'] (numberedTerms "a" digitsTerms)
        ({ MatchState.initial with scopes := Scopes.base.push }.succeed .null)
        [.str "1", .str "2"] [.action (.arr [.var "_1", .var "_2"])] u ∧
      u.scopes.innermost.get? "_1" = some (.str "1") ∧
      u.scopes.innermost.get? "_2" = some (.str "2") := by
  have parsed : parseGrammar "a = digit ('+' digit -> _2) -> [_1, _2]" = .ok digitsRules := by cbv
  obtain ⟨t, u, run, ok, value, run', ok', value'⟩ : ∃ t u,
      eval ⟨digitsRules.labelledBodies, []⟩ #['1', '+', '2'] 9 (.label (.apply "digit") "_1")
        ({ MatchState.initial with scopes := Scopes.base.push }.succeed .null) = some t ∧
      t.failed = false ∧ t.value = .str "1" ∧
      eval ⟨digitsRules.labelledBodies, []⟩ #['1', '+', '2'] 9
        (.label (.paren (.choice [.scope "a" [.lit "+", .label (.apply "digit") "_2",
          .action (.var "_2")]])) "_2") t = some u ∧
      u.failed = false ∧ u.value = .str "2" :=
    ⟨_, _, rfl, rfl, rfl, rfl, rfl, rfl⟩
  have advances : Advances ⟨digitsRules.labelledBodies, []⟩ #['1', '+', '2']
      (numberedTerms "a" digitsTerms)
      ({ MatchState.initial with scopes := Scopes.base.push }.succeed .null)
      [.str "1", .str "2"] [.action (.arr [.var "_1", .var "_2"])] u :=
    value ▸ value' ▸ .step (run_of_eval run) ok (.step (run_of_eval run') ok' .refl)
  have refers : Refers digitsTerms 0 ∧ Refers digitsTerms 1 :=
    ⟨⟨_, .tail _ (.head _), by decide⟩, ⟨_, .head _, by decide⟩⟩
  obtain ⟨-, bound⟩ := ((positional_denotes parsed (.head _) fun _ => List.not_mem_nil).1 digitsTerms
    (.tail _ (.head _)) ⟨0, refers.1⟩).2 _ id .labelled
  rw [List.map_id] at bound
  exact ⟨rfl, u, advances, bound _ _ _ _ _ advances 0 (by decide) refers.1,
    bound _ _ _ _ _ advances 1 (by decide) refers.2⟩

end Pegboard
