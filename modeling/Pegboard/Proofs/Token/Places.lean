import Pegboard.Token.Scan

/-!
# Where the tokens of a text stand

Scanning accounts for every character of a text, and for no more.  A lexeme takes no more characters
than there are, and what is wrong with it is said of characters that it has: an opening quote, the
two characters that open a comment, an escape as far as it goes.  So every place that scanning tells
is a place in the text, and the text ends where scanning stops.

## Main Definitions

* `Span.Within`: a stretch of a text of so many characters.
* `Diagnostic.Inside`: all places that a diagnostic tells are in the text.

## Main Results

* `Scan.read_inside`: the tokens of a text, and what is wrong with it, are inside of the text.
-/

namespace Pegboard

/-- A span is a stretch of a text of `n` characters. -/
structure Span.Within (n : Nat) (s : Span) : Prop where
  ordered : s.lo ≤ s.hi
  inside : s.hi ≤ n

theorem Span.within_origin (n : Nat) : Span.origin.Within n := ⟨Nat.le_refl _, Nat.zero_le _⟩

namespace Diagnostic

/-- The places that a diagnostic tells: its own, and those of its remarks. -/
def places (d : Diagnostic) : List Span := d.span :: (d.spanned ++ d.unspanned).map (·.span)

/-- All places that a diagnostic tells are in a text of `n` characters. -/
def Inside (n : Nat) (d : Diagnostic) : Prop := ∀ place ∈ d.places, place.Within n

variable {n : Nat} {place : Span} {title : String} {code : Code} {label : Option String}

theorem inside_error (h : place.Within n) : (error place title code label).Inside n := by
  intro other hother
  rw [List.mem_singleton.1 hother]
  exact h

theorem inside_warning (h : place.Within n) : (warning place title code label).Inside n := by
  intro other hother
  rw [List.mem_singleton.1 hother]
  exact h

theorem Inside.span {d : Diagnostic} (h : d.Inside n) : d.span.Within n := h _ (.head _)

theorem inside_iff {d : Diagnostic} : d.Inside n ↔
    d.span.Within n ∧ ∀ r ∈ d.spanned ++ d.unspanned, r.span.Within n := by
  rw [Inside, places, List.forall_mem_cons, List.forall_mem_map]

/-- A remark on a diagnostic as a whole stands where the diagnostic does. -/
theorem Inside.remarked {d : Diagnostic} (h : d.Inside n) (severity : Severity) (text : String) :
    Inside n { d with unspanned := d.unspanned ++ [⟨severity, d.span, text⟩] } := by
  obtain ⟨here, remarks⟩ := inside_iff.1 h
  refine inside_iff.2 ⟨here, fun r hr => ?_⟩
  rw [← List.append_assoc, List.mem_append, List.mem_singleton] at hr
  rcases hr with hr | rfl
  · exact remarks r hr
  · exact here

theorem Inside.withNote {d : Diagnostic} (h : d.Inside n) (text : String) :
    (d.withNote text).Inside n := h.remarked .note text

theorem Inside.withHelp {d : Diagnostic} (h : d.Inside n) (text : String) :
    (d.withHelp text).Inside n := h.remarked .help text

theorem Inside.withSpannedNote {d : Diagnostic} (h : d.Inside n) {other : Span}
    (hother : other.Within n) (text : String) : (d.withSpannedNote other text).Inside n := by
  obtain ⟨here, remarks⟩ := inside_iff.1 h
  refine inside_iff.2 ⟨here, fun r hr => ?_⟩
  simp only [Diagnostic.withSpannedNote, List.mem_append, List.mem_singleton] at hr
  rcases hr with (hr | rfl) | hr
  · exact remarks r (List.mem_append_left _ hr)
  · exact hother
  · exact remarks r (List.mem_append_right _ hr)

theorem Inside.mono {d : Diagnostic} {m : Nat} (h : d.Inside n) (hnm : n ≤ m) : d.Inside m :=
  fun place hplace => ⟨(h place hplace).ordered, Nat.le_trans (h place hplace).inside hnm⟩

end Diagnostic

/-- What is wrong in a text of `n` characters is told of places in it. -/
def SyntaxError.Inside (n : Nat) (e : SyntaxError) : Prop := e.diagnostic.Inside n

/-! ## Literals -/

/-- An escape takes no more characters than there are. -/
theorem Escape.length_le {rest : List Char} {escape : Escape} (h : read? rest = some escape) :
    escape.length ≤ rest.length := by
  have digits (count : Nat) (rest : List Char) :
      (codePoint count rest).length ≤ rest.length + 1 := by
    have taken : ((rest.take count).takeWhile Unicode.isAsciiHexDigit).length ≤ rest.length :=
      Nat.le_trans (List.takeWhile_prefix _).length_le (List.take_prefix _ _).length_le
    show 1 + ((rest.take count).takeWhile Unicode.isAsciiHexDigit).length ≤ rest.length + 1
    omega
  unfold read? at h
  split at h
  case h_1 => contradiction
  all_goals
    rw [Option.some.injEq] at h
    subst h
    first
      | exact digits _ _
      | exact Nat.le_add_left _ _

namespace LiteralBody

/-- The rest of a literal takes no more characters than there are, and what is wrong with it is wrong
with some of these. -/
theorem read_inside (quote : Char) (pos : Nat) (cs : List Char) :
    (read quote pos cs).length ≤ cs.length ∧
      ∀ e ∈ (read quote pos cs).errors, e.Inside (pos + cs.length) := by
  fun_induction read quote pos cs with
  | case1 => simp
  | case2 => simp
  | case3 => simp
  | case4 pos rest escape hescape length body e _ _ ih =>
    have taken := Escape.length_le hescape
    have hlength : body.length ≤ (rest.drop escape.length).length := ih.1
    rw [List.length_drop] at ih hlength
    refine ⟨?_, fun error herror => (ih.2 error herror).mono ?_⟩ <;>
      simp only [List.length_cons, length] <;> omega
  | case5 pos rest escape hescape length body _ written error _ ih =>
    have taken := Escape.length_le hescape
    have hlength : body.length ≤ (rest.drop escape.length).length := ih.1
    rw [List.length_drop] at ih hlength
    refine ⟨?_, fun other hother => ?_⟩
    · simp only [List.length_cons, length]
      omega
    · rcases List.mem_cons.1 hother with rfl | hother
      · refine Diagnostic.inside_error ⟨Nat.le_add_right _ _, ?_⟩
        simp only [List.length_cons, length]
        omega
      · refine (ih.2 other hother).mono ?_
        simp only [List.length_cons, length]
        omega
  | case6 pos c rest _ _ body ih =>
    have hlength : body.length ≤ rest.length := ih.1
    refine ⟨?_, fun error herror => (ih.2 error herror).mono ?_⟩ <;>
      simp only [List.length_cons] <;> omega

end LiteralBody

/-! ## Lexemes -/

/-- A block comment has no more characters than there are. -/
theorem blockCommentLength?_le {cs : List Char} {length : Nat}
    (h : blockCommentLength? cs = some length) : length ≤ cs.length := by
  fun_induction blockCommentLength? cs generalizing length with
  | case1 => contradiction
  | case2 =>
    obtain rfl := Option.some.inj h
    simp
  | case3 _ _ _ ih =>
    obtain ⟨rest, hrest, rfl⟩ := Option.map_eq_some_iff.1 h
    exact Nat.succ_le_succ (ih hrest)

namespace Lexeme

/-- A lexeme takes no more characters than there are, and what is wrong with it is wrong with some of
these. -/
structure Fits (pos : Nat) (rest : List Char) (x : Lexeme) : Prop where
  more : x.more ≤ rest.length
  errors : ∀ e ∈ x.errors, e.Inside (pos + 1 + rest.length)

theorem fits_of_errors_eq_nil {pos : Nat} {rest : List Char} {x : Lexeme}
    (more : x.more ≤ rest.length) (none : x.errors = []) : x.Fits pos rest :=
  ⟨more, fun e he => by rw [none] at he; contradiction⟩

theorem fits_blockComment {pos : Nat} {rest : List Char} (opened : rest.head? = some '*') :
    (blockComment pos rest).Fits pos rest := by
  obtain ⟨rest, rfl⟩ : ∃ tail, rest = '*' :: tail := by
    cases rest with
    | nil => contradiction
    | cons c tail => exact ⟨tail, by rw [Option.some.inj opened]⟩
  unfold blockComment
  split
  · next length hlength =>
    have hle : length ≤ rest.length := blockCommentLength?_le hlength
    refine fits_of_errors_eq_nil ?_ rfl
    simp only [List.length_cons]
    omega
  · refine ⟨Nat.le_refl _, fun e he => ?_⟩
    obtain rfl := List.mem_singleton.1 he
    refine Diagnostic.inside_error ⟨Nat.le_add_right _ _, ?_⟩
    simp only [List.length_cons]
    omega

theorem fits_literal (quote : Char) (pos : Nat) (rest : List Char) :
    (literal quote pos rest).Fits pos rest := by
  obtain ⟨hlength, errors⟩ := LiteralBody.read_inside quote (pos + 1) rest
  refine ⟨hlength, fun e he => ?_⟩
  rcases List.mem_append.1 he with he | he
  · exact errors e he
  · cases hclosed : (LiteralBody.read quote (pos + 1) rest).closed with
    | true => simp [hclosed] at he
    | false =>
      obtain rfl : e = .unterminatedLiteral ⟨pos, pos + 1⟩ := by simpa [hclosed] using he
      exact Diagnostic.inside_error ⟨Nat.le_add_right _ _, Nat.le_add_right _ _⟩

theorem fits_number (pos : Nat) (c : Char) (rest : List Char) : (number c rest).Fits pos rest := by
  have decimal : (rest.takeWhile Unicode.isAsciiDigit).length ≤ rest.length :=
    (List.takeWhile_prefix _).length_le
  unfold number
  split
  · next x d rest =>
    split
    · refine fits_of_errors_eq_nil ?_ rfl
      have digits : (rest.takeWhile Unicode.isAsciiHexDigit).length ≤ rest.length :=
        (List.takeWhile_prefix _).length_le
      simp only [List.length_cons]
      omega
    · exact fits_of_errors_eq_nil decimal rfl
  · exact fits_of_errors_eq_nil decimal rfl

theorem fits_symbol (pos : Nat) (c : Char) (rest : List Char) :
    (symbol pos c rest).Fits pos rest := by
  have second {d : Char} (h : rest.head? = some d) : 1 ≤ rest.length := by
    cases rest with
    | nil => contradiction
    | cons => exact Nat.le_add_left _ _
  unfold symbol
  split
  · next s more hread =>
    refine fits_of_errors_eq_nil ?_ rfl
    unfold Symbol.read? at hread
    split at hread
    case h_15 =>
      split at hread
      · next h =>
        cases hread
        exact second h
      · cases hread
        exact Nat.zero_le _
    case h_16 =>
      split at hread
      · next h =>
        cases hread
        exact second h
      · contradiction
    case h_17 => contradiction
    all_goals
      cases hread
      exact Nat.zero_le _
  · refine ⟨Nat.zero_le _, fun e he => ?_⟩
    obtain rfl := List.mem_singleton.1 he
    exact (Diagnostic.inside_error ⟨Nat.le_add_right _ _, Nat.le_add_right _ _⟩).withHelp _

/-- The lexeme at the front of a text fits into the text. -/
theorem fits_read (pos : Nat) (c : Char) (rest : List Char) : (read pos c rest).Fits pos rest := by
  have taken (p : Char → Bool) : (rest.takeWhile p).length ≤ rest.length :=
    (List.takeWhile_prefix _).length_le
  unfold read
  split
  · exact fits_of_errors_eq_nil (Nat.zero_le _) rfl
  split
  · exact fits_of_errors_eq_nil (taken _) rfl
  split
  · next h =>
    rw [Bool.and_eq_true, decide_eq_true_eq, decide_eq_true_eq] at h
    exact fits_blockComment h.2
  split
  · exact fits_literal c pos rest
  split
  · exact fits_number pos c rest
  split
  · exact fits_of_errors_eq_nil (taken _) rfl
  · exact fits_symbol pos c rest

end Lexeme

/-! ## Whole texts -/

namespace Scan

/-- The tokens of a text that starts at an offset stand in the text, in which what is wrong is wrong,
and scanning stops where the text ends. -/
theorem read_inside (pos : Nat) (cs : List Char) :
    (read pos cs).stop = pos + cs.length ∧
      (∀ t ∈ (read pos cs).placed, t.span.Within (pos + cs.length)) ∧
      ∀ e ∈ (read pos cs).errors, e.Inside (pos + cs.length) := by
  fun_induction read pos cs with
  | case1 pos => simp
  | case2 pos c rest lexeme stop following placed ih =>
    obtain ⟨more, wrong⟩ : lexeme.Fits pos rest := Lexeme.fits_read pos c rest
    obtain ⟨hstop, places, errors⟩ := ih
    -- What follows the lexeme ends where the whole text does.
    have last : stop + (rest.drop lexeme.more).length = pos + (c :: rest).length := by
      rw [List.length_drop, List.length_cons]
      show pos + (1 + lexeme.more) + _ = _
      omega
    rw [last] at hstop places errors
    refine ⟨hstop, fun t ht => ?_, fun e he => ?_⟩
    · have cases : t.span = ⟨pos, stop⟩ ∨ t ∈ following.placed := by
        cases htoken : lexeme.token? with
        | none =>
          have hplaced : placed = following.placed := by simp only [placed, htoken]
          exact .inr (hplaced ▸ ht)
        | some token =>
          have hplaced : placed = ⟨token, ⟨pos, stop⟩⟩ :: following.placed := by
            simp only [placed, htoken]
          rw [hplaced] at ht
          exact (List.mem_cons.1 ht).imp_left fun h => by rw [h]
      rcases cases with h | h
      · rw [h]
        exact ⟨Nat.le_add_right _ _, last ▸ Nat.le_add_right _ _⟩
      · exact places t h
    · rcases List.mem_append.1 he with he | he
      · exact (wrong e he).mono (by rw [List.length_cons]; omega)
      · exact errors e he

end Scan

end Pegboard
