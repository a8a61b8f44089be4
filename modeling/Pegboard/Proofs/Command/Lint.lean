import Mathlib.Data.List.Permutation
import Pegboard.Command.Run

/-!
# Lints only observe

Linting does not change what a run does.  With lints and without, a run ends with the same exit code
and writes the same to standard output; on standard error the warnings come first, and then what is
written without them.

Two places of a run put something after what was reported before, one for diagnostics and one for
the message of a failed match.  They differ where the message is empty, which it never is.  No stage
looks at what was reported, so it may be added to the output of the stage instead.  That is all that
the two runs have to be compared by.  What a report looks like does not matter, so it is a parameter.

## Main Definitions

* `Output.precededBy`: an output with a report before what it writes to standard error.
* `Observes`: how the output of a run that lints is related to that of the run without lints.

## Main Results

* `runRules_reported`: what was reported only precedes what is written to standard error.
* `runWith_lint`: a run with lints observes the run without, and what a run writes agrees with its
  exit code.
-/

namespace Pegboard

/-! ## Messages -/

/-- The line that tells a failure has a colon. -/
theorem Match.report_ne_empty (source : String) (input : Array Char) (failure : Failure) :
    Match.report source input failure ≠ "" := by
  intro h
  have := congrArg String.toList h
  simp [Match.report] at this

/-- A match that fails has a message. -/
theorem Grammar.message_ne_empty {g : Grammar} {fuel : Nat} {source : String} {input : Array Char}
    {message : String} {pos : Nat} (h : g.run fuel source input = some (.rejected message pos)) :
    message ≠ "" := by
  obtain ⟨s, -, hs⟩ := Option.map_eq_some_iff.1 h
  rw [Match.finish] at hs
  split at hs
  · rw [MatchResult.rejected.injEq] at hs
    exact hs.1 ▸ Match.report_ne_empty _ _ _
  · contradiction

namespace Command

/-! ## Reports before other reports -/

@[simp] theorem joinReports_empty_left (text : String) : joinReports "" text = text := by
  simp [joinReports]

@[simp] theorem joinReports_empty_right (text : String) : joinReports text "" = text := by
  simp [joinReports]

/-- A message that is not empty is added as a further report is. -/
theorem addMessage_eq_joinReports {message : String} (h : message ≠ "") (reported : String) :
    addMessage reported message = joinReports reported message := by
  by_cases hr : reported = "" <;> simp [addMessage, joinReports, h, hr]

namespace Output

/-- An output with a report before what it writes to standard error. -/
def precededBy (reported : String) (out : Output) : Output :=
  { out with err := joinReports reported out.err }

theorem precededBy_success (reported text : String) :
    precededBy reported (success "" text) = success reported text := by
  simp [precededBy, success]

theorem precededBy_failure (reported err : String) :
    precededBy reported (failure err) = failure (joinReports reported err) := rfl

/-- What an output is like if `reported` was reported before: either it is that of a success, with
nothing else on standard error, or that of a failure, with nothing on standard output. -/
def Agrees (reported : String) (out : Output) : Prop :=
  out.exitCode = 0 ∧ out.err = reported ∨ out.exitCode = 1 ∧ out.out = ""

theorem agrees_success (reported text : String) : (success reported text).Agrees reported :=
  .inl ⟨rfl, rfl⟩

theorem agrees_failure (reported err : String) : (failure err).Agrees reported :=
  .inr ⟨rfl, rfl⟩

end Output

/-! ## The stages -/

section Stages

variable (fuel : Nat) (o : Options) (report : List Diagnostic → String) (reported : String)

theorem interpret_reported (g : Grammar) (input : String) :
    interpret fuel o reported g input
      = (interpret fuel o "" g input).map (Output.precededBy reported) := by
  rw [interpret, interpret, Option.map_map]
  refine Option.map_congr fun result hresult => ?_
  cases result with
  | accepted value pos => exact (Output.precededBy_success _ _).symm
  | rejected message pos =>
    have nonempty := Grammar.message_ne_empty hresult
    simp only [Function.comp_apply, addMessage_eq_joinReports nonempty, joinReports_empty_left,
      Output.precededBy_failure]

/-- What was reported before a stage precedes what the stage writes to standard error, and has no
other effect. -/
theorem runRules_reported (rs : RuleSet) (input : String) :
    runRules fuel o report reported rs input
      = (runRules fuel o report "" rs input).map (Output.precededBy reported) := by
  rw [runRules, runRules]
  split
  · rw [Option.map_some, Output.precededBy_success]
  · split
    · rw [Option.map_some, Output.precededBy_failure, joinReports_empty_left]
    · split
      · rw [Option.map_some, Output.precededBy_success]
      · exact interpret_reported fuel o reported _ input

theorem interpret_agrees {g : Grammar} {input : String} {out : Output}
    (h : interpret fuel o reported g input = some out) : out.Agrees reported := by
  obtain ⟨result, -, rfl⟩ := Option.map_eq_some_iff.1 h
  cases result with
  | accepted value pos => exact Output.agrees_success _ _
  | rejected message pos => exact Output.agrees_failure _ _

theorem runRules_agrees {rs : RuleSet} {input : String} {out : Output}
    (h : runRules fuel o report reported rs input = some out) : out.Agrees reported := by
  rw [runRules] at h
  split at h
  · exact Option.some.inj h ▸ Output.agrees_success _ _
  · split at h
    · exact Option.some.inj h ▸ Output.agrees_failure _ _
    · split at h
      · exact Option.some.inj h ▸ Output.agrees_success _ _
      · exact interpret_agrees fuel o reported h

end Stages

/-! ## Whole runs -/

/-- How the output of a run that lints is related to that of the run without lints. -/
structure Observes (report : List Diagnostic → String) (o : Options) (grammar : String)
    (linted plain : Output) : Prop where
  exitCode : linted.exitCode = plain.exitCode
  out : linted.out = plain.out
  paged : linted.paged = plain.paged
  /-- There is nothing to lint if a code is explained or the grammar does not parse. -/
  untouched : o.explain.isSome ∨ (∃ e, parseGrammar grammar = .error e) → linted.err = plain.err
  /-- The warnings come before all else. -/
  preceded : ∀ rs, o.explain = none → parseGrammar grammar = .ok rs →
    linted.err = joinReports (report rs.lint) plain.err

theorem Observes.refl {report : List Diagnostic → String} {o : Options} {grammar : String}
    (nothing : o.explain.isSome ∨ ∃ e, parseGrammar grammar = .error e) (out : Output) :
    Observes report o grammar out out where
  exitCode := rfl
  out := rfl
  paged := rfl
  untouched _ := rfl
  preceded rs unexplained parsed := by
    rcases nothing with explained | ⟨e, wrong⟩
    · simp [unexplained] at explained
    · rw [parsed] at wrong
      contradiction

theorem observes_precededBy {report : List Diagnostic → String} {o : Options} {grammar : String}
    {rs : RuleSet} (unexplained : o.explain = none) (parsed : parseGrammar grammar = .ok rs)
    (out : Output) : Observes report o grammar (out.precededBy (report rs.lint)) out where
  exitCode := rfl
  out := rfl
  paged := rfl
  untouched nothing := by
    rcases nothing with explained | ⟨e, wrong⟩
    · simp [unexplained] at explained
    · rw [parsed] at wrong
      contradiction
  preceded rs' _ parsed' := by
    obtain rfl : rs = rs' := Except.ok.inj (parsed.symm.trans parsed')
    rfl

section Runs

variable (report : List Diagnostic → String) (fuel : Nat) (o : Options) (grammar input : String)

theorem runWith_of_explain {code : String} (h : o.explain = some code) :
    runWith report fuel o grammar input = some (explain code) := by
  rw [runWith, h]

theorem runWith_of_error {e : SyntaxError} (unexplained : o.explain = none)
    (wrong : parseGrammar grammar = .error e) :
    runWith report fuel o grammar input = some (.failure (report [e.diagnostic])) := by
  simp only [runWith, unexplained, wrong]

theorem runWith_of_ok {rs : RuleSet} (unexplained : o.explain = none)
    (parsed : parseGrammar grammar = .ok rs) : runWith report fuel o grammar input
      = runRules fuel o report (if o.lint then report rs.lint else "") rs input := by
  simp only [runWith, unexplained, parsed]

/-- A run with lints observes the run without, at every stage where it may end. -/
theorem observes_runWith : Option.Rel (Observes report o grammar)
    (runWith report fuel { o with lint := true } grammar input)
    (runWith report fuel { o with lint := false } grammar input) := by
  rcases Option.eq_none_or_eq_some o.explain with unexplained | ⟨code, explained⟩
  · cases parsed : parseGrammar grammar with
    | error e =>
      rw [runWith_of_error _ _ { o with lint := true } _ _ unexplained parsed,
        runWith_of_error _ _ { o with lint := false } _ _ unexplained parsed]
      exact .some (.refl (.inr ⟨e, parsed⟩) _)
    | ok rs =>
      rw [runWith_of_ok _ _ { o with lint := true } _ _ unexplained parsed,
        runWith_of_ok _ _ { o with lint := false } _ _ unexplained parsed]
      show Option.Rel _ (runRules fuel { o with lint := true } report (report rs.lint) rs input)
        (runRules fuel { o with lint := false } report "" rs input)
      rw [runRules_reported]
      -- The stages behind the lints do not look at the option.
      show Option.Rel _ ((runRules fuel { o with lint := false } report "" rs input).map _) _
      cases runRules fuel { o with lint := false } report "" rs input with
      | none => exact .none
      | some out => exact .some (observes_precededBy unexplained parsed out)
  · rw [runWith_of_explain _ _ { o with lint := true } _ _ explained,
      runWith_of_explain _ _ { o with lint := false } _ _ explained]
    exact .some (.refl (.inl (by simp [explained])) _)

/-- A run that explains a code either succeeds or fails, too. -/
theorem agrees_explain (code : String) : (explain code).Agrees "" := by
  unfold explain
  split
  · exact .inl ⟨rfl, rfl⟩
  · exact Output.agrees_failure _ _

/-- What a run writes agrees with its exit code: there is nothing on standard error after a success,
apart from the warnings. -/
theorem agrees_runWith {out : Output} (h : runWith report fuel o grammar input = some out) :
    ∃ reported, out.Agrees reported ∧ (o.lint = false → reported = "") := by
  cases explained : o.explain with
  | some code =>
    rw [runWith_of_explain _ _ _ _ _ explained] at h
    exact ⟨"", Option.some.inj h ▸ agrees_explain code, fun _ => rfl⟩
  | none =>
    cases parsed : parseGrammar grammar with
    | error e =>
      rw [runWith_of_error _ _ _ _ _ explained parsed] at h
      exact ⟨"", Option.some.inj h ▸ Output.agrees_failure _ _, fun _ => rfl⟩
    | ok rs =>
      rw [runWith_of_ok _ _ _ _ _ explained parsed] at h
      exact ⟨_, runRules_agrees _ _ _ _ h, fun off => by simp [off]⟩

/-- **Lints only observe.**  With the same fuel, a run with lints has an output exactly if the run
without has one, and these are the same but for the warnings.  A run that fails writes nothing to
standard output, and one that succeeds without lints writes nothing to standard error. -/
theorem runWith_lint :
    Option.Rel (Observes report o grammar)
        (runWith report fuel { o with lint := true } grammar input)
        (runWith report fuel { o with lint := false } grammar input) ∧
      ∀ out, runWith report fuel o grammar input = some out →
        (out.exitCode = 0 ∨ out.exitCode = 1) ∧ (out.exitCode = 1 → out.out = "") ∧
          (out.exitCode = 0 → o.lint = false → out.err = "") := by
  refine ⟨observes_runWith report fuel o grammar input, fun out h => ?_⟩
  obtain ⟨reported, agrees, unreported⟩ := agrees_runWith report fuel o grammar input h
  rcases agrees with ⟨code, err⟩ | ⟨code, text⟩
  · exact ⟨.inl code, fun failed => by rw [code] at failed; contradiction,
      fun _ off => err.trans (unreported off)⟩
  · exact ⟨.inr code, fun _ => text, fun succeeded => by rw [code] at succeeded; contradiction⟩

end Runs

/-! ## A rule that is never applied -/

/-- A grammar with a rule that is never applied. -/
def unusedText : String := "a = 'x', b = 'y'"

/-- The rules of that grammar. -/
def unusedRules : RuleSet :=
  ⟨[⟨"a", .choice [.seq [.lit "x"]], ⟨0, 1⟩⟩, ⟨"b", .choice [.seq [.lit "y"]], ⟨9, 10⟩⟩]⟩

/-- The grammar that they are normalized to. -/
def unusedGrammar : Grammar := ⟨[("a", .lit "x"), ("b", .lit "y")], []⟩

/-- The options of a run that lints the grammar in the file `g`. -/
def lintOptions : Options where
  grammarFile := "g"
  inputFile := none
  outputForm := none
  printGrammar := false
  raw := false
  lint := true
  memoize := false
  leftAssoc := []
  sourceName := none
  explain := none

/-- A run on an input that does not match: the warning about the rule comes before the message. -/
theorem runWith_lint_unused : ∃ linted plain,
    run 20 lintOptions unusedText "y" = some linted ∧
      run 20 { lintOptions with lint := false } unusedText "y" = some plain ∧
      plain.err = Match.report "<stdin>" #['y'] ⟨0, none⟩ ∧
      linted.err = Report.text "g" unusedText.toList unusedRules.lint ++ "\n" ++ plain.err ∧
      linted.exitCode = 1 ∧ linted.out = "" := by
  have parsed : parseGrammar unusedText = .ok unusedRules := by cbv
  have normalized : unusedRules.normalize lintOptions.normalization = .ok unusedGrammar := by cbv
  have plain : run 20 { lintOptions with lint := false } unusedText "y"
      = some (.failure (Match.report "<stdin>" #['y'] ⟨0, none⟩)) := by
    rw [run, runWith_of_ok _ _ _ _ _ rfl parsed, runRules, if_neg (by decide)]
    change unusedRules.normalize (Options.normalization { lintOptions with lint := false })
      = .ok unusedGrammar at normalized
    rw [normalized]
    rfl
  have warned : Report.text "g" unusedText.toList unusedRules.lint ≠ "" :=
    fun h => absurd (Report.text_eq_empty_iff.1 h) (by decide)
  obtain ⟨observes, writes⟩ :=
    runWith_lint (Report.text "g" unusedText.toList) 20 lintOptions unusedText "y"
  change Option.Rel _ (run 20 lintOptions unusedText "y")
    (run 20 { lintOptions with lint := false } unusedText "y") at observes
  rw [plain] at observes
  cases hlinted : run 20 lintOptions unusedText "y" with
  | none =>
    rw [hlinted] at observes
    contradiction
  | some linted =>
    rw [hlinted] at observes
    cases observes with
    | some observed =>
      have failed : linted.exitCode = 1 := observed.exitCode
      refine ⟨linted, _, rfl, plain, rfl, ?_, failed, (writes linted hlinted).2.1 failed⟩
      have told := Match.report_ne_empty "<stdin>" #['y'] ⟨0, none⟩
      rw [observed.preceded unusedRules rfl parsed]
      simp [joinReports, warned, told, Output.failure]

end Command

end Pegboard
