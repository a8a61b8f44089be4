import Mathlib.Algebra.GroupWithZero.Nat
import Mathlib.Order.Monotone.Basic
import Pegboard.Text.Span

/-!
# Lines and columns

The line of an offset is found by counting line breaks, and its column by going back to the last of
them.  Together they say where the offset is among the lines of the text: what stands before it is a
number of whole lines, each with its line break, and the beginning of one more.

## Main Definitions

* `LineCol.Precedes`: the order of places, by lines and then by columns.
* `LineCol.lines`, `LineCol.lineStart`: the lines of a text, and where they start.
* `LineCol.IsIn`: a place on a line of a text, or just behind its end.
* `LineCol.offset`: the offset of a place.

## Main Results

* `LineCol.exists_begun_line`: the lines before an offset, and the line that it is on.
* `LineCol.offset_lt_offset`: a place in a text has a smaller offset than those that it precedes.
* `LineCol.of_identifies`: the places of offsets are in the order of the offsets, and tell them.
* `LineCol.of_offset`: every place in a text is the place of its offset.
-/

namespace Pegboard.LineCol

variable {text : List Char}

/-- A place comes before another one if its line does, or its column on the same line. -/
def Precedes (a b : LineCol) : Prop := a.line < b.line ∨ a.line = b.line ∧ a.col < b.col

theorem precedes_trichotomy (a b : LineCol) : a.Precedes b ∨ a = b ∨ b.Precedes a := by
  rcases Nat.lt_trichotomy a.line b.line with less | line | more
  · exact .inl (.inl less)
  · rcases Nat.lt_trichotomy a.col b.col with less | col | more
    · exact .inl (.inr ⟨line, less⟩)
    · exact .inr (.inl (congrArg₂ LineCol.mk line col))
    · exact .inr (.inr (.inr ⟨line.symm, more⟩))
  · exact .inr (.inr (.inl more))

/-! ## The lines of a text -/

/-- The lines of a text, without their line breaks.  There is one more of them than line breaks. -/
def lines (text : List Char) : List (List Char) := text.splitOn '\n'

/-- The length of the first `n` lines of a text, each with its line break: where the next line
starts. -/
def lineStart (text : List Char) (n : Nat) : Nat :=
  (((lines text).take n).map fun line => line.length + 1).sum

/-- A text without line breaks is one line. -/
theorem lines_of_not_mem (h : '\n' ∉ text) : lines text = [text] := by
  refine List.splitOnP_eq_singleton fun c hc => ?_
  simpa using fun same : c = '\n' => h (same ▸ hc)

/-- A line break ends a line, and what stands behind it are further lines. -/
theorem lines_append_break (u v : List Char) : lines (u ++ '\n' :: v) = lines u ++ lines v :=
  List.splitOnP_append_cons u v (by rfl)

/-- Before the first line break stands a part of the first line. -/
theorem exists_lines_append {u : List Char} (h : '\n' ∉ u) (v : List Char) :
    ∃ line more, lines (u ++ v) = (u ++ line) :: more := by
  by_cases further : '\n' ∈ v
  · obtain ⟨line, rest, rfl, first⟩ := List.eq_append_cons_of_mem further
    refine ⟨line, lines rest, ?_⟩
    rw [← List.append_assoc, lines_append_break, lines_of_not_mem (by simp [h, first])]
    rfl
  · exact ⟨v, [], lines_of_not_mem (by simp [h, further])⟩

theorem length_lines (text : List Char) : (lines text).length = text.count '\n' + 1 := by
  induction text with
  | nil => rfl
  | cons c text ih =>
    rw [lines, List.splitOn_cons_eq_if_modifyHead, List.count_cons]
    split
    · rw [List.length_cons, ← lines, ih]
    · rw [List.length_modifyHead, ← lines, ih]

/-- The lines of a text, each with a line break, have the characters of the text and one break
more. -/
theorem sum_lines (text : List Char) :
    ((lines text).map fun line => line.length + 1).sum = text.length + 1 := by
  induction text with
  | nil => rfl
  | cons c text ih =>
    rw [lines, List.splitOn_cons_eq_if_modifyHead, List.length_cons, ← lines]
    split
    · rw [List.map_cons, List.sum_cons, ih]
      simp [Nat.add_comm]
    · obtain ⟨line, more, some⟩ := List.exists_cons_of_ne_nil (List.splitOn_ne_nil '\n' text)
      rw [← lines] at some
      rw [some, List.map_cons, List.sum_cons] at ih
      rw [some, List.modifyHead_cons, List.map_cons, List.sum_cons, List.length_cons]
      omega

theorem lineStart_succ {n : Nat} {line : List Char} (h : (lines text)[n]? = some line) :
    lineStart text (n + 1) = lineStart text n + (line.length + 1) := by
  simp [lineStart, List.take_add_one, h]

theorem monotone_lineStart (text : List Char) : Monotone (lineStart text) := by
  refine monotone_nat_of_le_succ fun n => ?_
  simp [lineStart, List.take_add_one]

theorem lineStart_le (text : List Char) (n : Nat) : lineStart text n ≤ text.length + 1 := by
  calc lineStart text n
    _ ≤ lineStart text (max n (lines text).length) := monotone_lineStart text (Nat.le_max_left _ _)
    _ = text.length + 1 := by
      rw [lineStart, List.take_of_length_le (Nat.le_max_right _ _), sum_lines]

/-! ## The place of an offset -/

/-- Going back from an offset, all that is behind the last line break is met. -/
theorem takeWhile_reverse_append {begun : List Char} (h : '\n' ∉ begun) (u : List Char) :
    (u ++ begun).reverse.takeWhile (fun c => decide (c ≠ '\n'))
      = begun.reverse ++ u.reverse.takeWhile fun c => decide (c ≠ '\n') := by
  rw [List.reverse_append]
  refine List.takeWhile_append_of_pos fun c hc => decide_eq_true fun same => h ?_
  exact same ▸ List.mem_reverse.1 hc

/-- Without line breaks, all that stands before an offset is in its column. -/
theorem of_of_not_mem {p : Nat} (h : '\n' ∉ text.take p) :
    of text p = ⟨1, (text.take p).length + 1⟩ := by
  have back := takeWhile_reverse_append h []
  rw [List.nil_append, List.reverse_nil, List.takeWhile_nil, List.append_nil] at back
  simp only [of, List.count_eq_zero_of_not_mem h, back, List.length_reverse]

/-- The last line break before an offset ends the lines that are counted, and what stands behind it
is in the column. -/
theorem of_of_break {p : Nat} {u begun : List Char} (before : text.take p = u ++ '\n' :: begun)
    (h : '\n' ∉ begun) : of text p = ⟨(lines u).length + 1, begun.length + 1⟩ := by
  have back := takeWhile_reverse_append h (u ++ ['\n'])
  have count : (u ++ '\n' :: begun).count '\n' = (lines u).length := by
    rw [List.count_append, List.count_cons_self, List.count_eq_zero_of_not_mem h, length_lines]
  rw [← List.append_cons, List.reverse_concat, List.takeWhile_cons_of_neg (by simp),
    List.append_nil] at back
  simp only [of, before, count, back, List.length_reverse]

/-- What stands before an offset is a number of whole lines and the beginning of one more.  The line
of the offset counts the first, and its column is the length of the second. -/
theorem exists_begun_line (text : List Char) (p : Nat) : ∃ done begun rest more,
    lines text = done ++ (begun ++ rest) :: more ∧
      of text p = ⟨done.length + 1, begun.length + 1⟩ ∧
      (done.map fun line => line.length + 1).sum + begun.length = min p text.length := by
  by_cases broken : '\n' ∈ text.take p
  · -- The line on which the offset is begins behind the last of the breaks.
    obtain ⟨v, w, reversed, last⟩ := List.eq_append_cons_of_mem (List.mem_reverse.2 broken)
    have before : text.take p = w.reverse ++ '\n' :: v.reverse := by
      rw [← List.reverse_reverse (text.take p), reversed]
      simp
    have fresh : '\n' ∉ v.reverse := fun mem => last (List.mem_reverse.1 mem)
    obtain ⟨rest, more, lines_eq⟩ := exists_lines_append fresh (text.drop p)
    refine ⟨lines w.reverse, v.reverse, rest, more, ?_, of_of_break before fresh, ?_⟩
    · rw [← lines_eq, ← lines_append_break, ← List.cons_append, ← List.append_assoc, ← before,
        List.take_append_drop]
    · rw [sum_lines, ← List.length_take, before, List.length_append, List.length_cons]
      omega
  · obtain ⟨rest, more, lines_eq⟩ := exists_lines_append broken (text.drop p)
    rw [List.take_append_drop] at lines_eq
    exact ⟨[], text.take p, rest, more, lines_eq, of_of_not_mem broken, by simp⟩

/-! ## The offset of a place -/

/-- Whether a place is on a line of the text.  The end of the line is a place on it, too. -/
def IsIn (text : List Char) (place : LineCol) : Prop :=
  1 ≤ place.line ∧ 1 ≤ place.col ∧
    ∃ line, (lines text)[place.line - 1]? = some line ∧ place.col - 1 ≤ line.length

/-- The offset of a place: the lines before its own, and the columns before its own. -/
def offset (text : List Char) (place : LineCol) : Nat :=
  lineStart text (place.line - 1) + (place.col - 1)

theorem isIn_of (text : List Char) (p : Nat) : (of text p).IsIn text := by
  obtain ⟨done, begun, rest, more, split, place, -⟩ := exists_begun_line text p
  refine place ▸ ⟨Nat.succ_pos _, Nat.succ_pos _, begun ++ rest, ?_, by simp⟩
  rw [split]
  exact List.getElem?_append_right (Nat.le_refl _) ▸ by simp

/-- The place of an offset is at that offset, where all offsets past the end are the end. -/
theorem offset_of (text : List Char) (p : Nat) : (of text p).offset text = min p text.length := by
  obtain ⟨done, begun, rest, more, split, place, sum⟩ := exists_begun_line text p
  rw [← sum, place, offset, lineStart, split]
  simp

/-- A place in a text has a smaller offset than those that it precedes. -/
theorem offset_lt_offset {a b : LineCol} (inText : a.IsIn text) (h : a.Precedes b) :
    a.offset text < b.offset text := by
  obtain ⟨hline, hcol, line, found, fits⟩ := inText
  rcases h with less | ⟨same, less⟩
  · -- The line of the first place has ended where that of the second starts.
    have ended : lineStart text (a.line - 1 + 1) ≤ lineStart text (b.line - 1) :=
      monotone_lineStart text (by omega)
    rw [lineStart_succ found] at ended
    rw [offset, offset]
    omega
  · rw [offset, offset, same]
    omega

theorem eq_of_offset_eq {a b : LineCol} (ha : a.IsIn text) (hb : b.IsIn text)
    (h : a.offset text = b.offset text) : a = b := by
  rcases precedes_trichotomy a b with less | same | more
  · exact absurd h (Nat.ne_of_lt (offset_lt_offset ha less))
  · exact same
  · exact absurd h (Nat.ne_of_gt (offset_lt_offset hb more))

theorem offset_le {place : LineCol} (h : place.IsIn text) : place.offset text ≤ text.length := by
  obtain ⟨-, -, line, found, fits⟩ := h
  have ended := lineStart_le text (place.line - 1 + 1)
  rw [lineStart_succ found] at ended
  rw [offset]
  omega

/-- Every place in a text is the place of its offset. -/
theorem of_offset {place : LineCol} (h : place.IsIn text) : of text (place.offset text) = place := by
  refine eq_of_offset_eq (isIn_of text _) h ?_
  rw [offset_of, Nat.min_eq_left (offset_le h)]

/-- Places come in the order of the offsets, where all offsets past the end of the text count as its
end.  A place is on a line of the text, and the lines before this one, each with its line break, and
the columns before its own take up as many characters as stand before the offset. -/
theorem of_identifies (text : List Char) :
    (∀ p q, (of text p).Precedes (of text q) ↔ min p text.length < min q text.length) ∧
      ∀ p, (of text p).IsIn text ∧ (of text p).offset text = min p text.length := by
  refine ⟨fun p q => ⟨fun h => ?_, fun h => ?_⟩, fun p => ⟨isIn_of text p, offset_of text p⟩⟩
  · rw [← offset_of, ← offset_of]
    exact offset_lt_offset (isIn_of text p) h
  · rw [← offset_of, ← offset_of] at h
    rcases precedes_trichotomy (of text p) (of text q) with less | same | more
    · exact less
    · exact absurd (same ▸ h) (Nat.lt_irrefl _)
    · exact absurd h (Nat.lt_asymm (offset_lt_offset (isIn_of text q) more))

end Pegboard.LineCol
