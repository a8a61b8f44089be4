import Pegboard.Diagnostic.Code
import Pegboard.Text.Span

/-!
# Diagnostics

A diagnostic describes a problem with a grammar: an error, or a warning about what is legal but
unlikely to be meant.  It points at a span of the grammar's text, may point at further spans, and
may carry notes that point nowhere in particular.

That an input does not match a grammar is no diagnostic.
-/

namespace Pegboard

/-- How severe a diagnostic or a remark is. -/
inductive Severity where
  | error | warning | note | help
  deriving DecidableEq, Repr, Inhabited

/-- The name of a severity. -/
def Severity.name : Severity → String
  | .error => "error"
  | .warning => "warning"
  | .note => "note"
  | .help => "help"

/-- A remark that belongs to a diagnostic. -/
structure Remark where
  severity : Severity
  span : Span
  text : String
  deriving DecidableEq, Repr, Inhabited

/-- A problem with a grammar. -/
structure Diagnostic where
  severity : Severity
  span : Span
  title : String
  code : Code
  /-- What stands beside the span. -/
  label : Option String
  /-- Remarks at spans of their own. -/
  spanned : List Remark
  /-- Remarks on the diagnostic as a whole. -/
  unspanned : List Remark
  deriving DecidableEq, Repr, Inhabited

namespace Diagnostic

/-- An error at a span. -/
def error (span : Span) (title : String) (code : Code) (label : Option String) : Diagnostic :=
  ⟨.error, span, title, code, label, [], []⟩

/-- A warning at a span. -/
def warning (span : Span) (title : String) (code : Code) (label : Option String) : Diagnostic :=
  ⟨.warning, span, title, code, label, [], []⟩

/-- The diagnostic with a note on it as a whole. -/
def withNote (d : Diagnostic) (text : String) : Diagnostic :=
  { d with unspanned := d.unspanned ++ [⟨.note, d.span, text⟩] }

/-- The diagnostic with advice on what to do. -/
def withHelp (d : Diagnostic) (text : String) : Diagnostic :=
  { d with unspanned := d.unspanned ++ [⟨.help, d.span, text⟩] }

/-- The diagnostic with a note at another span. -/
def withSpannedNote (d : Diagnostic) (span : Span) (text : String) : Diagnostic :=
  { d with spanned := d.spanned ++ [⟨.note, span, text⟩] }

/-- Whether a diagnostic is an error. -/
def isError (d : Diagnostic) : Bool := d.severity == .error

end Diagnostic

end Pegboard
