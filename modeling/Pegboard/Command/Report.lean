import Pegboard.Diagnostic

/-!
# Reports

A report shows diagnostics to a person: each with its title, its places in the grammar's text and
the remarks on it as a whole, in the order of their places, and after them how many there are.

## Main Definitions

* `Report.lines`: the lines of one diagnostic.
* `Report.tally`: how many errors and warnings there are.
* `Report.text`: the report on a list of diagnostics, which is empty if and only if the list is.
-/

namespace Pegboard.Command.Report

/-- A line that shows a place and what is to be said there. -/
def placeLine (name : String) (text : List Char) (span : Span) (label : String) : String :=
  let place := LineCol.of text span.lo
  let said := if label.isEmpty then "" else ": " ++ label
  " --> " ++ name ++ ":" ++ toString place.line ++ ":" ++ toString place.col ++ said

/-- The lines of a diagnostic of the grammar `name` that was read from `text`. -/
def lines (name : String) (text : List Char) (d : Diagnostic) : List String :=
  (d.severity.name ++ "[" ++ d.code.text ++ "]: " ++ d.title)
    :: placeLine name text d.span (d.label.getD "")
    :: d.spanned.map (fun r => placeLine name text r.span (r.severity.name ++ ": " ++ r.text))
    ++ d.unspanned.map fun r => "  = " ++ r.severity.name ++ ": " ++ r.text

/-- Whether one diagnostic may stand before another: by where their spans start, then by where they
end. -/
def mayPrecede (a b : Diagnostic) : Bool :=
  a.span.lo < b.span.lo || (a.span.lo == b.span.lo && a.span.hi ≤ b.span.hi)

/-- Diagnostics in the order of their places.  Those of one place keep their order. -/
def inOrder (ds : List Diagnostic) : List Diagnostic := ds.mergeSort mayPrecede

/-- A number of things, in words. -/
def amount (n : Nat) (thing : String) : String :=
  toString n ++ " " ++ thing ++ (if n = 1 then "" else "s")

/-- How many diagnostics there are of a severity, in words, if there are any. -/
def amountOf (severity : Severity) (ds : List Diagnostic) : List String :=
  let n := ds.countP (·.severity == severity)
  if n = 0 then [] else [amount n severity.name]

/-- How many errors and warnings there are, in one line. -/
def tally (name : String) (ds : List Diagnostic) : String :=
  name ++ ": " ++ ", ".intercalate (amountOf .error ds ++ amountOf .warning ds)

/-- The report on the diagnostics of the grammar `name` that was read from `text`. -/
def text (name : String) (text : List Char) (ds : List Diagnostic) : String :=
  if ds.isEmpty then ""
  else
    let parts := (inOrder ds).map fun d => "\n".intercalate (lines name text d) ++ "\n"
    "\n".intercalate (parts ++ [tally name ds])

/-- A report on nothing is empty. -/
theorem text_nil (name : String) (source : List Char) : text name source [] = "" := rfl

/-- A report on something is not empty: its last line tells the tally. -/
theorem text_eq_empty_iff {name : String} {source : List Char} {ds : List Diagnostic} :
    text name source ds = "" ↔ ds = [] := by
  refine ⟨fun h => ?_, fun h => h ▸ text_nil name source⟩
  cases ds with
  | nil => rfl
  | cons d ds =>
    simp only [text, List.isEmpty_cons, Bool.false_eq_true, if_false] at h
    generalize (inOrder (d :: ds)).map _ = parts at h
    have colon : ':' ∈ ("\n".intercalate (parts ++ [tally name (d :: ds)])).toList := by
      cases parts with
      | nil => simp [tally]
      | cons part parts =>
        rw [String.intercalate_append_of_ne_nil (by simp) (by simp)]
        simp [tally]
    simp [h] at colon

end Pegboard.Command.Report
