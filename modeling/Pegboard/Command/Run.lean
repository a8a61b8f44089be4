import Pegboard.Command.Options
import Pegboard.Command.Report
import Pegboard.Grammar.Interchange
import Pegboard.Grammar.Outline
import Pegboard.Grammar.Parse
import Pegboard.Grammar.Print
import Pegboard.Lint
import Pegboard.Match.Result
import Pegboard.Normalize
import Pegboard.Value.Text

/-!
# A run of the command

A run reads a grammar, lints it if that is asked for, normalizes it, and either writes it or matches
an input with it.  What goes to standard output and to standard error, and the exit code, are the
fields of an `Output`; no file is read or written here.

Matching may not end, so a run has fuel, and no output if the fuel does not suffice.

## Main Definitions

* `Output`: what a run gives.
* `runWith`: a run on the text of a grammar and an input, whatever its reports look like.
* `run`: such a run with the reports of `Report.text`.
-/

namespace Pegboard.Command

/-- What a run gives. -/
structure Output where
  exitCode : Nat
  /-- What goes to standard output. -/
  out : String
  /-- What goes to standard error. -/
  err : String
  /-- Whether the output is long text, to be read page by page. -/
  paged : Bool
  deriving DecidableEq, Repr, Inhabited

namespace Output

/-- The output of a run that succeeded, with what was reported on the way. -/
def success (reported out : String) : Output := ⟨0, out, reported, false⟩

/-- The output of a run that failed. -/
def failure (err : String) : Output := ⟨1, "", err, false⟩

end Output

/-- Two reports for standard error, on lines of their own.  An empty one takes no line. -/
def joinReports (first second : String) : String :=
  if first.isEmpty || second.isEmpty then first ++ second else first ++ "\n" ++ second

/-- What was reported, and the message of a failed match on a line of its own. -/
def addMessage (reported message : String) : String :=
  if reported.isEmpty then message else reported ++ "\n" ++ message

/-! ## Writing results -/

/-- A value in an output form. -/
def writeValue (form : Option OutputForm) (v : Value) : String :=
  match form with
  | some .pretty => v.toJson.pretty
  | some .debug => v.outline.text
  | _ => v.toJson.compact

/-- Rules as they were read, in an output form. -/
def writeRules (form : Option OutputForm) (rs : RuleSet) : String :=
  match form with
  | some .sExpression | some .json => rs.encode.compact
  | some .debug => rs.outline.text
  | _ => rs.pretty

/-- A normalized grammar in an output form. -/
def writeGrammar (form : Option OutputForm) (g : Grammar) : String :=
  match form with
  | some .sExpression | some .json => g.toRuleSet.encode.compact
  | some .debug => g.outline.text
  | _ => g.pretty

/-! ## The stages -/

/-- Explains a diagnostic code. -/
def explain (code : String) : Output :=
  match Code.ofText? code with
  | some c => ⟨0, c.explanation, "", true⟩
  | none => .failure (code ++ " is not a diagnostic code")

namespace Options

/-- The name of an input that is not read from a file. -/
def standardInput : String := "<stdin>"

/-- The name of the input in failure messages. -/
def inputName (o : Options) : String := (o.sourceName <|> o.inputFile).getD standardInput

/-- What is asked of normalization. -/
def normalization (o : Options) : NormalizeOptions := ⟨o.memoize, o.leftAssoc⟩

end Options

/-- Matches an input.  `reported` has been reported before. -/
def interpret (fuel : Nat) (o : Options) (reported : String) (g : Grammar) (input : String) :
    Option Output :=
  (g.run fuel o.inputName input.toList.toArray).map fun
    | .accepted value _ => .success reported (writeValue o.outputForm value)
    | .rejected message _ => .failure (addMessage reported message)

/-- Writes rules, or normalizes them and goes on.  `reported` has been reported before, and `report`
reports further diagnostics. -/
def runRules (fuel : Nat) (o : Options) (report : List Diagnostic → String) (reported : String)
    (rs : RuleSet) (input : String) : Option Output :=
  if o.raw then some (.success reported (writeRules o.outputForm rs))
  else
    match rs.normalize o.normalization with
    | .error e => some (.failure (joinReports reported (report [e.diagnostic rs])))
    | .ok g =>
      if o.printGrammar then some (.success reported (writeGrammar o.outputForm g))
      else interpret fuel o reported g input

/-- Runs the command on the text of a grammar and an input, if `report` reports diagnostics. -/
def runWith (report : List Diagnostic → String) (fuel : Nat) (o : Options)
    (grammar input : String) : Option Output :=
  match o.explain with
  | some code => some (explain code)
  | none =>
    match parseGrammar grammar with
    | .error e => some (.failure (report [e.diagnostic]))
    | .ok rs => runRules fuel o report (if o.lint then report rs.lint else "") rs input

/-- Runs the command on the text of a grammar and an input. -/
def run (fuel : Nat) (o : Options) (grammar input : String) : Option Output :=
  runWith (Report.text o.grammarFile grammar.toList) fuel o grammar input

end Pegboard.Command
