import Pegboard.Proofs.Grammar.Parts
import Pegboard.Proofs.Normalize.Valid

/-!
# Faults of a rule set

Where normalization fails, it names one fault of the rules, and its diagnostic points at the rule to
blame.  Of several faults it is always the same one that is named: that there is no rule, before
everything else; then the first rule whose name was defined before it; then the first rule that
applies an undefined name, with the least such name; and at last the first of the names that are to
associate to the left without being left-recursive.

An error holds names only.  Its diagnostic looks up where these were defined, and so has to come upon
the rule that validation had stopped at.

## Main Definitions

* `RuleSet.Lacks`: a rule applies a name that is defined nowhere.
* `RuleSet.Sound`: there is nothing to blame.
* `RuleSet.Fault`: the fault that is to be named, with the places of its diagnostic.

## Main Results

* `firstRepeated?_eq_some`, `leastName?_eq_some`, `RuleSet.firstUnresolved?_eq_some`: what the searches
  of validation find.
* `normalize_verdict`: when normalization fails, and what it blames.
-/

namespace Pegboard

/-! ## What is found -/

/-- The first repeated name occurs before, behind names that are not repeated. -/
theorem firstRepeated?_eq_some {name : String} {names : List String} : ∀ {seen : List String},
    firstRepeated? seen names = some name ↔ ∃ before after, names = before ++ name :: after ∧
      firstRepeated? seen before = none ∧ (name ∈ seen ∨ name ∈ before) := by
  induction names with
  | nil => simp [firstRepeated?]
  | cons first rest ih =>
    intro seen
    by_cases hseen : first ∈ seen
    · have found : firstRepeated? seen (first :: rest) = some first := by
        rw [firstRepeated?, if_pos (List.contains_iff_mem.2 hseen)]
      rw [found, Option.some.injEq]
      constructor
      · rintro rfl
        exact ⟨[], rest, rfl, rfl, .inl hseen⟩
      · rintro ⟨before, after, heq, none, -⟩
        cases before with
        | nil => exact (List.cons.inj heq).1
        | cons other before =>
          obtain ⟨rfl, -⟩ := List.cons.inj heq
          rw [firstRepeated?, if_pos (List.contains_iff_mem.2 hseen)] at none
          contradiction
    · have skip (others : List String) :
          firstRepeated? seen (first :: others) = firstRepeated? (first :: seen) others := by
        rw [firstRepeated?, if_neg (mt List.contains_iff_mem.1 hseen)]
      rw [skip, ih]
      constructor
      · rintro ⟨before, after, rfl, none, earlier⟩
        refine ⟨first :: before, after, rfl, (skip before).trans none, ?_⟩
        rw [List.mem_cons] at earlier ⊢
        exact or_left_comm.1 (or_assoc.1 earlier)
      · rintro ⟨before, after, heq, none, earlier⟩
        cases before with
        | nil =>
          obtain ⟨rfl, -⟩ := List.cons.inj heq
          exact absurd (earlier.resolve_right List.not_mem_nil) hseen
        | cons other before =>
          obtain ⟨rfl, rfl⟩ := List.cons.inj heq
          refine ⟨before, after, rfl, (skip before).symm.trans none, ?_⟩
          rw [List.mem_cons] at earlier ⊢
          exact or_assoc.2 (or_left_comm.1 earlier)

/-- The least name is one of the names, and none of them is less. -/
theorem leastName?_eq_some {names : List String} : ∀ {name : String},
    leastName? names = some name ↔ name ∈ names ∧ ∀ other ∈ names, name ≤ other := by
  induction names with
  | nil => simp [leastName?]
  | cons first rest ih =>
    -- It is enough that what is found is a least name, for there are no two of them.
    suffices h : ∃ least, leastName? (first :: rest) = some least ∧ least ∈ first :: rest ∧
        ∀ other ∈ first :: rest, least ≤ other by
      intro name
      obtain ⟨least, found, mem, le⟩ := h
      rw [found, Option.some.injEq]
      constructor
      · rintro rfl
        exact ⟨mem, le⟩
      · rintro ⟨hname, hle⟩
        exact String.le_antisymm (le name hname) (hle least mem)
    cases hrest : leastName? rest with
    | none =>
      obtain rfl := leastName?_eq_none.1 hrest
      exact ⟨first, rfl, .head _, fun other hother =>
        List.mem_singleton.1 hother ▸ String.le_refl _⟩
    | some least =>
      obtain ⟨mem, le⟩ := ih.1 hrest
      refine ⟨if first ≤ least then first else least, by rw [leastName?, hrest], ?_⟩
      split
      · next hle =>
        refine ⟨.head _, List.forall_mem_cons.2 ⟨String.le_refl _, fun other hother => ?_⟩⟩
        exact String.le_trans hle (le other hother)
      · next hle =>
        have hless : least ≤ first := (String.le_total first least).resolve_left hle
        exact ⟨.tail _ mem, List.forall_mem_cons.2 ⟨hless, le⟩⟩

theorem BuiltinRule.isName_iff {name : String} :
    BuiltinRule.isName name = true ↔ ∃ b : BuiltinRule, b.name = name := by
  rw [BuiltinRule.isName, Option.isSome_iff_exists]
  constructor
  · rintro ⟨b, hb⟩
    exact ⟨b, by simpa using List.find?_some hb⟩
  · rintro ⟨b, rfl⟩
    exact ⟨b, ofName?_name b⟩

namespace RuleSet

/-! ## Faults -/

/-- A rule applies a name, at whatever depth of its body, that is neither the name of a rule nor that
of a builtin one. -/
def Lacks (rs : RuleSet) (r : Rule) (name : String) : Prop :=
  .apply name ∈ r.body.nodes ∧ name ∉ rs.names ∧ ∀ b : BuiltinRule, b.name ≠ name

/-- There are rules, their names are distinct, and no rule lacks another one. -/
structure Sound (rs : RuleSet) : Prop where
  nonempty : rs.rules ≠ []
  distinct : rs.names.Nodup
  complete : ∀ r ∈ rs.rules, ∀ name, ¬ rs.Lacks r name

/-- The fault of a rule set that is to be named, with the span of its diagnostic and those of the notes
that go with it. -/
inductive Fault (rs : RuleSet) (options : NormalizeOptions) :
    GrammarError → Span → List Span → Prop where
  /-- There is no rule. -/
  | empty (none : rs.rules = []) : Fault rs options .emptyGrammar .origin []
  /-- The names are distinct up to the rule `r`, which has the name of the earlier rule `first`. -/
  | duplicate {before first between r after}
      (rules : rs.rules = before ++ first :: between ++ r :: after)
      (distinct : ((before ++ first :: between).map (·.name)).Nodup) (same : first.name = r.name) :
      Fault rs options (.duplicateRule r.name) r.span [first.span]
  /-- All names are distinct, no rule before `r` lacks another one, and `name` is the least that `r`
  lacks. -/
  | unresolved {before r after name} (distinct : rs.names.Nodup)
      (rules : rs.rules = before ++ r :: after) (complete : ∀ q ∈ before, ∀ other, ¬ rs.Lacks q other)
      (lacks : rs.Lacks r name) (least : ∀ other, rs.Lacks r other → name ≤ other) :
      Fault rs options (.unresolvedRule r.name name) r.span []
  /-- The rules are sound, and `name` is the first that is to associate to the left without being
  left-recursive. -/
  | notLeftRecursive {before name after} (sound : rs.Sound)
      (names : options.leftAssoc = before ++ name :: after)
      (recursive : ∀ other ∈ before, other ∈ rs.scopedBodies.leftRecursive)
      (stray : name ∉ rs.scopedBodies.leftRecursive) :
      Fault rs options (.unknownLeftAssocRule name) .origin []

variable {rs : RuleSet} {options : NormalizeOptions}

theorem mem_unresolved_iff {r : Rule} {name : String} :
    name ∈ rs.unresolved r ↔ rs.Lacks r name := by
  rw [unresolved, List.mem_filter, Pattern.mem_applied_iff, Lacks, Bool.and_eq_true,
    Bool.not_eq_true', Bool.not_eq_true', ← Bool.not_eq_true, ← Bool.not_eq_true,
    List.contains_iff_mem, BuiltinRule.isName_iff, not_exists]

/-- The rules are valid exactly if they are sound. -/
theorem validate_eq_ok_iff_sound : rs.validate = .ok () ↔ rs.Sound := by
  have complete : (∀ r ∈ rs.rules, ∀ name ∈ r.body.applied,
      name ∈ rs.names ∨ BuiltinRule.isName name = true) ↔
        ∀ r ∈ rs.rules, ∀ name, ¬ rs.Lacks r name := by
    refine forall₂_congr fun r _ => forall_congr' fun name => ?_
    rw [Lacks, ← not_exists, ← BuiltinRule.isName_iff, Pattern.mem_applied_iff, not_and, not_and,
      Classical.not_not]
    exact imp_congr_right fun _ => Decidable.or_iff_not_imp_left
  rw [validate_eq_ok, complete]
  exact ⟨fun ⟨nonempty, distinct, complete⟩ => ⟨nonempty, distinct, complete⟩,
    fun h => ⟨h.nonempty, h.distinct, h.complete⟩⟩

/-- What is found of unresolved names is the first rule that lacks another one, and the least name
that it lacks. -/
theorem firstUnresolved?_eq_some {rule name : String} :
    rs.firstUnresolved? = some (rule, name) ↔ ∃ before r after, rs.rules = before ++ r :: after ∧
      (r.name = rule ∧ rs.Lacks r name ∧ ∀ other, rs.Lacks r other → name ≤ other) ∧
      ∀ q ∈ before, ∀ other, ¬ rs.Lacks q other := by
  have none (q : Rule) : (leastName? (rs.unresolved q)).map (q.name, ·) = none ↔
      ∀ other, ¬ rs.Lacks q other := by
    rw [Option.map_eq_none_iff, leastName?_eq_none, List.eq_nil_iff_forall_not_mem]
    exact forall_congr' fun other => not_congr mem_unresolved_iff
  have some (r : Rule) : (leastName? (rs.unresolved r)).map (r.name, ·) = some (rule, name) ↔
      r.name = rule ∧ rs.Lacks r name ∧ ∀ other, rs.Lacks r other → name ≤ other := by
    rw [Option.map_eq_some_iff]
    simp only [leastName?_eq_some, mem_unresolved_iff, Prod.mk.injEq]
    constructor
    · rintro ⟨_, h, hrule, rfl⟩
      exact ⟨hrule, h⟩
    · rintro ⟨hrule, h⟩
      exact ⟨name, h, hrule, rfl⟩
  rw [firstUnresolved?, List.findSome?_eq_some_iff]
  simp only [none, some]

/-! ## Errors -/

/-- Validation fails on what its searches find, each of them only if those before found nothing. -/
theorem validate_eq_error {e : GrammarError} : rs.validate = .error e ↔
    rs.rules = [] ∧ e = .emptyGrammar ∨
      (∃ name, firstRepeated? [] rs.names = some name ∧ e = .duplicateRule name) ∨
      firstRepeated? [] rs.names = none ∧ ∃ rule name,
        rs.firstUnresolved? = some (rule, name) ∧ e = .unresolvedRule rule name := by
  rw [validate]
  cases hrules : rs.rules with
  | nil =>
    simp [RuleSet.names, hrules, firstRepeated?, firstUnresolved?, throw, throwThe,
      MonadExceptOf.throw, eq_comm]
  | cons r rest =>
    simp only [List.isEmpty_cons, Bool.false_eq_true, if_false, reduceCtorEq, false_and, false_or]
    cases firstRepeated? [] rs.names with
    | some name => simp [throw, throwThe, MonadExceptOf.throw, eq_comm]
    | none =>
      cases rs.firstUnresolved? with
      | some found =>
        obtain ⟨rule, name⟩ := found
        simp [throw, throwThe, MonadExceptOf.throw, and_assoc, eq_comm]
      | none => simp [pure, Except.pure]

/-- Normalization fails where validation does, and else only on a name that is to associate to the
left. -/
theorem normalize_eq_error {e : GrammarError} : rs.normalize options = .error e ↔
    rs.validate = .error e ∨ rs.validate = .ok () ∧ ∃ name,
      (options.leftAssoc.find? fun name => !rs.scopedBodies.leftRecursive.contains name)
        = some name ∧ e = .unknownLeftAssocRule name := by
  rw [normalize]
  cases rs.validate with
  | error fault => simp [bind, Except.bind]
  | ok u =>
    simp only [bind, Except.bind, reduceCtorEq, false_or, true_and]
    cases options.leftAssoc.find? fun name => !rs.scopedBodies.leftRecursive.contains name with
    | some name => simp [throw, throwThe, MonadExceptOf.throw, eq_comm]
    | none => simp [pure, Except.pure]

/-! ## Faults and errors -/

theorem repeated_iff {name : String} : firstRepeated? [] rs.names = some name ↔
    ∃ before first between r after, rs.rules = before ++ first :: between ++ r :: after ∧
      ((before ++ first :: between).map (·.name)).Nodup ∧ first.name = r.name ∧ r.name = name := by
  have none (names : List String) : firstRepeated? [] names = none ↔ names.Nodup := by
    rw [firstRepeated?_eq_none]
    simp
  rw [firstRepeated?_eq_some, RuleSet.names]
  constructor
  · rintro ⟨before, after, heq, distinct, earlier⟩
    obtain ⟨earlierRules, rest, hrules, rfl, hrest⟩ := List.map_eq_append_iff.1 heq
    obtain ⟨r, later, rfl, rfl, -⟩ := List.map_eq_cons_iff.1 hrest
    obtain ⟨first, hfirst, same⟩ := List.mem_map.1 (earlier.resolve_left List.not_mem_nil)
    obtain ⟨before, between, rfl⟩ := List.append_of_mem hfirst
    exact ⟨before, first, between, r, later, hrules, (none _).1 distinct, same, rfl⟩
  · rintro ⟨before, first, between, r, after, hrules, distinct, same, rfl⟩
    refine ⟨_, after.map (·.name), ?_, (none _).2 distinct, .inr (List.mem_map.2 ⟨first, ?_, same⟩)⟩
    · rw [hrules, List.map_append, List.map_cons]
    · exact List.mem_append_right _ (.head _)

/-- Every failure comes from a fault. -/
theorem exists_fault {e : GrammarError} (h : rs.normalize options = .error e) :
    ∃ span notes, Fault rs options e span notes := by
  rcases normalize_eq_error.1 h with h | ⟨valid, name, found, rfl⟩
  · rcases validate_eq_error.1 h with ⟨hnil, rfl⟩ | ⟨name, found, rfl⟩ |
      ⟨hnone, rule, name, found, rfl⟩
    · exact ⟨_, _, .empty hnil⟩
    · obtain ⟨before, first, between, r, after, rules, distinct, same, rfl⟩ := repeated_iff.1 found
      exact ⟨_, _, .duplicate rules distinct same⟩
    · obtain ⟨before, r, after, rules, ⟨rfl, lacks, least⟩, complete⟩ :=
        firstUnresolved?_eq_some.1 found
      exact ⟨_, _, .unresolved (firstRepeated?_eq_none.1 hnone).1 rules complete lacks least⟩
  · obtain ⟨stray, before, after, names, recursive⟩ := List.find?_eq_some_iff_append.1 found
    refine ⟨_, _, .notLeftRecursive (validate_eq_ok_iff_sound.1 valid) names ?_ ?_⟩
    · intro other hother
      simpa using recursive other hother
    · simpa using stray

/-- Every fault makes normalization fail. -/
theorem Fault.normalize_eq {e : GrammarError} {span : Span} {notes : List Span}
    (fault : Fault rs options e span notes) : rs.normalize options = .error e := by
  rw [normalize_eq_error, validate_eq_error]
  cases fault with
  | empty none => exact .inl (.inl ⟨none, rfl⟩)
  | duplicate rules distinct same =>
    exact .inl (.inr (.inl ⟨_, repeated_iff.2 ⟨_, _, _, _, _, rules, distinct, same, rfl⟩, rfl⟩))
  | unresolved distinct rules complete lacks least =>
    have nodup : firstRepeated? [] rs.names = none := firstRepeated?_eq_none.2 ⟨distinct, by simp⟩
    exact .inl (.inr (.inr ⟨nodup, _, _, firstUnresolved?_eq_some.2
      ⟨_, _, _, rules, ⟨rfl, lacks, least⟩, complete⟩, rfl⟩))
  | @notLeftRecursive before name after sound names recursive stray =>
    refine .inr ⟨validate_eq_ok_iff_sound.2 sound, name, ?_, rfl⟩
    rw [List.find?_eq_some_iff_append]
    refine ⟨by simpa using stray, before, after, names, ?_⟩
    intro other hother
    simpa using recursive other hother

/-- The diagnostic of the error finds the rules to blame again by their names. -/
theorem Fault.places {e : GrammarError} {span : Span} {notes : List Span}
    (fault : Fault rs options e span notes) :
    (e.diagnostic rs).span = span ∧ (e.diagnostic rs).spanned.map (·.span) = notes := by
  cases fault with
  | empty => exact ⟨rfl, rfl⟩
  | @duplicate before first between r after rules distinct same =>
    rw [List.map_append, List.map_cons, List.nodup_append, List.nodup_cons] at distinct
    obtain ⟨-, ⟨hbetween, -⟩, hbefore⟩ := distinct
    have others {rules : List Rule} (h : r.name ∉ rules.map (·.name)) :
        rules.filter (·.name == r.name) = [] := by
      rw [List.filter_eq_nil_iff]
      intro q hq named
      exact h (List.mem_map.2 ⟨q, hq, eq_of_beq named⟩)
    have spans : ∃ more, rs.spansOf r.name = first.span :: r.span :: more := by
      refine ⟨(after.filter (·.name == r.name)).map (·.span), ?_⟩
      have fresh : r.name ∉ before.map (·.name) := by
        intro h
        exact hbefore _ h _ (.head _) same.symm
      rw [spansOf, rules, List.filter_append, List.filter_append, others fresh,
        List.filter_cons_of_pos (by simp [same]), others (same ▸ hbetween),
        List.filter_cons_of_pos (by simp)]
      rfl
    obtain ⟨more, spans⟩ := spans
    constructor
    · show ((rs.spansOf r.name)[1]?.getD _) = r.span
      rw [spans]
      rfl
    · show [((rs.spansOf r.name)[0]?.getD .origin)] = [first.span]
      rw [spans]
      rfl
  | @unresolved before r after name distinct rules =>
    refine ⟨?_, rfl⟩
    have fresh : before.filter (·.name == r.name) = [] := by
      rw [List.filter_eq_nil_iff]
      intro q hq named
      rw [RuleSet.names, rules, List.map_append, List.nodup_append] at distinct
      exact distinct.2.2 q.name (List.mem_map_of_mem hq) r.name (.head _) (eq_of_beq named)
    show ((rs.spansOf r.name)[0]?.getD _) = r.span
    rw [spansOf, rules, List.filter_append, fresh, List.nil_append,
      List.filter_cons_of_pos (by simp)]
    rfl
  | notLeftRecursive => exact ⟨rfl, rfl⟩

/-- **Normalization fails exactly when it should, and blames the right rule.**  It succeeds exactly if
there are rules, their names are distinct, every name that is applied at any depth is that of a rule or
of a builtin one, and every name that is to associate to the left is found to be left-recursive.  It
fails with an error exactly if that is the fault to be named, at the places where its diagnostic
points. -/
theorem normalize_verdict (rs : RuleSet) (options : NormalizeOptions) :
    ((∃ g, rs.normalize options = .ok g) ↔
      rs.Sound ∧ ∀ name ∈ options.leftAssoc, name ∈ rs.scopedBodies.leftRecursive) ∧
      ∀ e, rs.normalize options = .error e ↔
        Fault rs options e (e.diagnostic rs).span ((e.diagnostic rs).spanned.map (·.span)) := by
  refine ⟨?_, fun e => ⟨fun h => ?_, Fault.normalize_eq⟩⟩
  · simp only [normalize_eq_ok, validate_eq_ok_iff_sound, exists_and_left, exists_eq, and_true]
  · obtain ⟨span, notes, fault⟩ := exists_fault h
    obtain ⟨rfl, rfl⟩ := fault.places
    exact fault

end RuleSet

end Pegboard
