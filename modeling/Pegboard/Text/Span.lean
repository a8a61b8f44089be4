/-!
# Places in a text

A place in a text is counted in characters.  A `Span` is a stretch between two offsets, and a
`LineCol` is the form in which a single offset is shown to a person.

## Main Definitions

* `Span`: the stretch from offset `lo` up to, but not including, offset `hi`.
* `LineCol.of`: the line and column of an offset, both counted from one.
-/

namespace Pegboard

/-- A stretch of a text: the characters from offset `lo` up to, but not including, `hi`. -/
structure Span where
  lo : Nat
  hi : Nat
  deriving DecidableEq, Repr, Inhabited

namespace Span

/-- The empty span at the start of a text, which marks what was not read from any text. -/
def origin : Span := ⟨0, 0⟩

/-- The span from the start of `a` to the end of `b`. -/
def through (a b : Span) : Span := ⟨a.lo, b.hi⟩

/-- Whether `b` starts exactly where `a` ends. -/
def abuts (a b : Span) : Bool := a.hi == b.lo

theorem abuts_iff {a b : Span} : a.abuts b = true ↔ a.hi = b.lo := by
  simp [abuts]

end Span

/-- A line and a column of a text, both counted from one. -/
structure LineCol where
  line : Nat
  col : Nat
  deriving DecidableEq, Repr, Inhabited

namespace LineCol

/-- The line and column of the offset `pos` in `text`.  The line counts the line breaks before the
offset, the column the characters since the last of them.  An offset past the end of the text
counts as its end. -/
def of (text : List Char) (pos : Nat) : LineCol :=
  let before := text.take pos
  { line := before.count '\n' + 1
    col := (before.reverse.takeWhile (· ≠ '\n')).length + 1 }

end LineCol

end Pegboard
