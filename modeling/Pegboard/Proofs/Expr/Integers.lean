import Pegboard.Proofs.Expr.Printed
import Pegboard.Proofs.Text.Numeral

/-!
# Reading integers from text

An integer is read from a text by two builtin functions, and from the digits of the literals of an
expression.  Each of them answers with the integer that the text denotes, with an overflow if that
does not fit, or else with the error that the text denotes none; which of the two errors it is has
to be found out apart, for the reading itself says only that there is no integer.

Two kinds of text are told wrongly.  Digits behind more than one minus sign are taken for an integer
that does not fit, and an integer behind a plus sign that does not fit is taken for no integer.

## Main Definitions

* `Fits`: an integer has 64 signed bits.
* `Tells`: an answer tells the integer that a text denotes, and which error there is if it does not
  give one.
* `Trimmed`: a text without the blanks at its ends.

## Main Results

* `integers_classified`: what the two functions answer on every text, and that literals from grammar
  text are integers or overflow.
-/

namespace Pegboard

open Numeral Unicode

/-! ## Answers -/

/-- Whether an integer has 64 signed bits. -/
def Fits (i : Int) : Prop := -2 ^ 63 ≤ i ∧ i < 2 ^ 63

instance (i : Int) : Decidable (Fits i) := inferInstanceAs (Decidable (_ ∧ _))

theorem fits64_iff {i : Int} : fits64 i = true ↔ Fits i := by
  rw [fits64, Bool.and_eq_true, decide_eq_true_eq, decide_eq_true_eq, Fits]
  omega

/-- An answer tells what a text denotes: the integer if it fits, an overflow if it does not, and the
error `invalid` if the text denotes no integer. -/
structure Tells (answer : Evaluated Value) (denotes : Int → Prop) (invalid : EvalError) : Prop where
  int : ∀ i, answer = .ok (.int i) ↔ denotes i ∧ Fits i
  overflow : answer = .error .overflow ↔ ∃ i, denotes i ∧ ¬ Fits i
  invalid : answer = .error invalid ↔ ∀ i, ¬ denotes i

namespace Tells

variable {answer : Evaluated Value} {denotes : Int → Prop} {invalid : EvalError}

theorem of_fits {i : Int} (hi : denotes i) (fits : Fits i)
    (unique : ∀ i j, denotes i → denotes j → i = j) : Tells (.ok (.int i)) denotes invalid where
  int j := by
    rw [Except.ok.injEq, Value.int.injEq]
    constructor
    · rintro rfl
      exact ⟨hi, fits⟩
    · rintro ⟨hj, -⟩
      exact unique i j hi hj
  overflow := by
    simp only [reduceCtorEq, false_iff, not_exists, not_and, not_not]
    intro j hj
    exact unique i j hi hj ▸ fits
  invalid := by
    simp only [reduceCtorEq, false_iff, not_forall, not_not]
    exact ⟨i, hi⟩

theorem of_large {i : Int} (hi : denotes i) (large : ¬ Fits i)
    (unique : ∀ i j, denotes i → denotes j → i = j) (other : invalid ≠ .overflow) :
    Tells (.error .overflow) denotes invalid where
  int j := by
    simp only [reduceCtorEq, false_iff, not_and]
    intro hj
    exact unique i j hi hj ▸ large
  overflow := by
    simp only [true_iff]
    exact ⟨i, hi, large⟩
  invalid := by
    simp only [Except.error.injEq, other.symm, false_iff, not_forall, not_not]
    exact ⟨i, hi⟩

theorem of_none (none : ∀ i, ¬ denotes i) (other : invalid ≠ .overflow) :
    Tells (.error invalid) denotes invalid where
  int j := by simp [none j]
  overflow := by simp [other, none]
  invalid := by simp [none]

/-- An answer is made of a reading and, where nothing is read, of a test that tells which of the two
errors there is.  It tells what a text denotes if the test is right where it is made. -/
theorem of_read (read : Option Int) (test : Bool)
    (found : ∀ i, read = some i → answer = .ok (.int i))
    (missing : read = none → answer = if test then .error .overflow else .error invalid)
    (reads : ∀ i, read = some i ↔ denotes i ∧ Fits i)
    (unique : ∀ i j, denotes i → denotes j → i = j)
    (tested : read = none → (test = true ↔ ∃ i, denotes i)) (other : invalid ≠ .overflow) :
    Tells answer denotes invalid := by
  cases read with
  | some i =>
    obtain ⟨hi, fits⟩ := (reads i).1 rfl
    rw [found i rfl]
    exact .of_fits hi fits unique
  | none =>
    rw [missing rfl]
    by_cases some : ∃ i, denotes i
    · obtain ⟨i, hi⟩ := some
      have large : ¬ Fits i := fun fits => by
        have := (reads i).2 ⟨hi, fits⟩
        contradiction
      rw [if_pos ((tested rfl).2 ⟨i, hi⟩)]
      exact .of_large hi large unique other
    · rw [if_neg (mt (tested rfl).1 some)]
      exact .of_none (not_exists.1 some) other

end Tells

/-- What does not fit is not read. -/
theorem readInt?_of_not_fits {base : Nat} {cs : List Char} {i : Int}
    (h : DenotesInt base ['+', '-'] cs i) (large : ¬ Fits i) : readInt? base cs = none := by
  rw [Option.eq_none_iff_forall_ne_some]
  intro j hj
  obtain ⟨denotes, fits⟩ := readInt?_eq_some_iff.1 hj
  exact large (h.unique denotes ▸ fits64_iff.1 fits)

/-! ## Signs -/

/-- Digits of a base behind more than one minus sign. -/
def SignedTwice (base : Nat) (cs : List Char) : Prop :=
  ∃ (k : Nat) (digits : List Char) (n : Nat),
    cs = '-' :: '-' :: (List.replicate k '-' ++ digits) ∧ Denotes base digits n

/-- Decimal digits behind a plus sign, which denote an integer that does not fit. -/
def PlusTooLarge (cs : List Char) : Prop :=
  ∃ (digits : List Char) (n : Nat), cs = '+' :: digits ∧ Denotes 10 digits n ∧ ¬ Fits n

/-- No minus sign stands before digits that denote a number. -/
theorem dropWhile_of_denotes {base n : Nat} {cs : List Char} (h : Denotes base cs n) :
    cs.dropWhile (· = '-') = cs := by
  cases cs with
  | nil => rfl
  | cons c cs =>
    have hc : c ≠ '-' := by
      rintro rfl
      exact not_denotes_sign (by simp) base cs n h
    rw [List.dropWhile_cons_of_neg (by simpa using hc)]

/-- What is left of a text without the minus signs in front is a numeral if the text denotes an
integer or has too many of them. -/
theorem isNumeral_dropWhile_iff {base : Nat} {cs : List Char} :
    isNumeral base (cs.dropWhile (· = '-')) = true ↔
      (∃ i, DenotesInt base ['-'] cs i) ∨ SignedTwice base cs := by
  constructor
  · intro digits
    have signs : cs.takeWhile (· = '-') = List.replicate (cs.takeWhile (· = '-')).length '-' :=
      List.eq_replicate_of_mem fun c hc => by simpa using of_mem_takeWhile hc
    have whole : cs = List.replicate (cs.takeWhile (· = '-')).length '-' ++
        cs.dropWhile (· = '-') := by
      rw [← signs, List.takeWhile_append_dropWhile]
    have value := denotes_iff.2 ⟨digits, rfl⟩
    generalize (cs.takeWhile (· = '-')).length = k at whole
    generalize cs.dropWhile (· = '-') = rest at whole value
    subst whole
    match k with
    | 0 => exact .inl ⟨_, .unsigned value⟩
    | 1 => exact .inl ⟨_, .minus (by simp) value⟩
    | k + 2 => exact .inr ⟨k, rest, _, rfl, value⟩
  · have stripped {k n : Nat} {rest : List Char} (h : Denotes base rest n) :
        isNumeral base ((List.replicate k '-' ++ rest).dropWhile (· = '-')) = true := by
      rw [List.dropWhile_append_of_pos (by simp), dropWhile_of_denotes h]
      exact (denotes_iff.1 h).1
    rintro (⟨i, h | ⟨allowed, h⟩ | ⟨allowed, h⟩⟩ | ⟨k, rest, n, rfl, h⟩)
    · exact stripped (k := 0) h
    · simp at allowed
    · exact stripped (k := 1) h
    · exact stripped (k := k + 2) h

/-! ## The functions -/

section Atoi

variable {base : Nat} {text : String}

theorem readInt?_of_signedTwice {cs : List Char} (twice : SignedTwice base cs) :
    readInt? base cs = none := by
  obtain ⟨k, digits, n, rfl, -⟩ := twice
  rw [Option.eq_none_iff_forall_ne_some]
  intro i hi
  cases (readInt?_eq_some_iff.1 hi).1 with
  | unsigned h => exact not_denotes_sign (by simp) _ _ _ h
  | minus _ h => exact not_denotes_sign (by simp) _ _ _ h

/-- Digits behind several minus signs are taken for an integer that does not fit. -/
theorem integerOf_of_signedTwice (twice : SignedTwice base text.toList) :
    Builtin.integerOf text base = .error .overflow := by
  rw [Builtin.integerOf, if_pos (isNumeral_dropWhile_iff.2 (.inr twice)),
    readInt?_of_signedTwice twice]
  rfl

/-- Any other text is told right. -/
theorem integerOf_tells (once : ¬ SignedTwice base text.toList) :
    Tells (Builtin.integerOf text base) (DenotesInt base ['-'] text.toList)
      (.invalidLiteral .integer text) := by
  have test : isNumeral base (text.toList.dropWhile (· = '-')) = true ↔
      ∃ i, DenotesInt base ['-'] text.toList i := by
    rw [isNumeral_dropWhile_iff, or_iff_left once]
  refine .of_read
    (if isNumeral base (text.toList.dropWhile (· = '-')) then readInt? base text.toList else none)
    (isNumeral base (text.toList.dropWhile (· = '-'))) (fun i read => ?_) (fun read => ?_)
    (fun i => ?_) (fun i j hi hj => (hi.mono (by simp)).unique (hj.mono (by simp)))
    (fun _ => test) (by simp)
  · rw [Option.ite_none_right_eq_some] at read
    rw [Builtin.integerOf, if_pos read.1, read.2]
    rfl
  · rw [Builtin.integerOf]
    split at read
    · next digits => rw [if_pos digits, if_pos digits, read]; rfl
    · next digits => rw [if_neg digits, if_neg digits]; rfl
  · rw [Option.ite_none_right_eq_some, readInt?_eq_some_iff, fits64_iff, test]
    constructor
    · rintro ⟨⟨j, hj⟩, hi, fits⟩
      exact ⟨(hj.mono (by simp)).unique hi ▸ hj, fits⟩
    · rintro ⟨hi, fits⟩
      exact ⟨⟨i, hi⟩, hi.mono (by simp), fits⟩

end Atoi

/-! ## Blanks -/

/-- `core` is a text without the blanks at its ends. -/
structure Trimmed (cs core : List Char) : Prop where
  whole : ∃ lead trail, cs = lead ++ core ++ trail ∧ ∀ c ∈ lead ++ trail, isBlank c = true
  head : ∀ c ∈ core.head?, isBlank c = false
  last : ∀ c ∈ core.getLast?, isBlank c = false

/-- Characters of a class in front of what starts with none are left out. -/
theorem dropWhile_append_stop {p : Char → Bool} {cs rest : List Char}
    (taken : ∀ c ∈ cs, p c = true) (stop : ∀ c ∈ rest.head?, p c = false) :
    (cs ++ rest).dropWhile p = rest := by
  rw [List.dropWhile_append_of_pos taken]
  cases rest with
  | nil => rfl
  | cons c rest => rw [List.dropWhile_cons_of_neg (by simp [stop c rfl])]

theorem trimBlanks_of_trimmed {cs core : List Char} (h : Trimmed cs core) :
    trimBlanks cs = core := by
  obtain ⟨lead, trail, rfl, blank⟩ := h.whole
  cases core with
  | nil =>
    have none : (lead ++ trail ++ []).dropWhile isBlank = [] := dropWhile_append_stop blank nofun
    rw [List.append_nil] at none
    rw [trimBlanks, List.append_nil, none]
    rfl
  | cons c core =>
    rw [List.forall_mem_append] at blank
    have front : (lead ++ c :: core ++ trail).dropWhile isBlank = c :: core ++ trail := by
      rw [List.append_assoc]
      exact dropWhile_append_stop blank.1 h.head
    have back : (c :: core ++ trail).reverse.dropWhile isBlank = (c :: core).reverse := by
      rw [List.reverse_append]
      refine dropWhile_append_stop (fun d hd => blank.2 d (List.mem_reverse.1 hd)) ?_
      rw [List.head?_reverse]
      exact h.last
    rw [trimBlanks, front, back, List.reverse_reverse]

/-- Every text has a core, which is what trimming leaves of it. -/
theorem trimmed_iff {cs core : List Char} : Trimmed cs core ↔ trimBlanks cs = core := by
  refine ⟨trimBlanks_of_trimmed, ?_⟩
  obtain ⟨lead, rest, rfl, -, blankLead, headRest⟩ := exists_takeWhile isBlank cs
  obtain ⟨trail, core', hrest, -, blankTrail, head⟩ := exists_takeWhile isBlank rest.reverse
  have split : rest = core'.reverse ++ trail.reverse := by
    rw [← List.reverse_append, ← hrest, List.reverse_reverse]
  have trimmed : Trimmed (lead ++ rest) core'.reverse := by
    refine ⟨⟨lead, trail.reverse, by rw [split, List.append_assoc], ?_⟩, fun c hc => ?_, ?_⟩
    · rw [List.forall_mem_append]
      exact ⟨blankLead, fun c hc => blankTrail c (List.mem_reverse.1 hc)⟩
    · refine headRest c ?_
      rw [split, List.head?_append, Option.mem_def.1 hc]
      rfl
    · rw [List.getLast?_reverse]
      exact head
  rintro rfl
  exact trimBlanks_of_trimmed trimmed ▸ trimmed

/-- A text without the minus sign in front of it, if there is one. -/
def afterMinus : List Char → List Char
  | '-' :: rest => rest
  | cs => cs

theorem afterMinus_of_denotes {base n : Nat} {cs : List Char} (h : Denotes base cs n) :
    afterMinus cs = cs := by
  unfold afterMinus
  split
  · exact absurd h (not_denotes_sign (by simp) _ _ _)
  · rfl

section Number

variable {text : String} {core : List Char}

/-- A text without a point is read as an integer. -/
theorem numberOf_eq (trimmed : Trimmed text.toList core) (point : '.' ∉ core) :
    Builtin.numberOf (.str text) = match readInt? 10 core with
      | some i => .ok (.int i)
      | none => if isNumeral 10 (afterMinus core) then .error .overflow
        else .error (.invalidLiteral .number text) := by
  rw [Builtin.numberOf]
  · show (if (trimBlanks text.toList).contains '.' then _ else _) = _
    rw [trimmed_iff.1 trimmed, if_neg (by simpa using point)]
    rfl
  · nofun
  · nofun

/-- An integer that has a plus sign and does not fit is taken for no integer. -/
theorem numberOf_of_plusTooLarge (trimmed : Trimmed text.toList core) (point : '.' ∉ core)
    (large : PlusTooLarge core) :
    Builtin.numberOf (.str text) = .error (.invalidLiteral .number text) := by
  obtain ⟨digits, n, rfl, value, large⟩ := large
  have denotes : DenotesInt 10 ['+', '-'] ('+' :: digits) n := .plus (by simp) value
  have read : readInt? 10 ('+' :: digits) = none := readInt?_of_not_fits denotes large
  have test : isNumeral 10 (afterMinus ('+' :: digits)) = false := by
    simp [afterMinus, isNumeral, isDigit_sign]
  rw [numberOf_eq trimmed point, read]
  simp only [test, Bool.false_eq_true, if_false]

/-- Any other text without a point is told right. -/
theorem numberOf_tells (trimmed : Trimmed text.toList core) (point : '.' ∉ core)
    (small : ¬ PlusTooLarge core) :
    Tells (Builtin.numberOf (.str text)) (DenotesInt 10 ['+', '-'] core)
      (.invalidLiteral .number text) := by
  have whole := numberOf_eq trimmed point
  refine .of_read (readInt? 10 core) (isNumeral 10 (afterMinus core))
    (fun i read => by rw [whole, read]) (fun read => by rw [whole, read])
    (fun i => by rw [readInt?_eq_some_iff, fits64_iff]) (fun i j hi hj => hi.unique hj)
    (fun read => ⟨fun digits => ?_, ?_⟩) (by simp)
  · unfold afterMinus at digits
    split at digits
    · exact ⟨_, .minus (by simp) (denotes_iff.2 ⟨digits, rfl⟩)⟩
    · exact ⟨_, .unsigned (denotes_iff.2 ⟨digits, rfl⟩)⟩
  · rintro ⟨i, h | ⟨allowed, h⟩ | ⟨allowed, h⟩⟩
    · rw [afterMinus_of_denotes h]
      exact (denotes_iff.1 h).1
    · refine absurd ⟨_, _, rfl, h, fun fits => ?_⟩ small
      have found := readInt?_eq_some_iff.2
        ⟨DenotesInt.plus allowed h, fits64_iff.2 fits⟩
      rw [read] at found
      contradiction
    · exact (denotes_iff.1 h).1

end Number

/-! ## Literals -/

/-- A literal whose digits denote a number is that number, or an overflow. -/
theorem integerLiteral_eq {base n : Nat} {digits : String} (h : Denotes base digits.toList n)
    (kind : LiteralKind) : integerLiteral kind base digits =
      if n < 2 ^ 63 then .ok (.int n) else .error .overflow := by
  have denotes : DenotesInt base ['+', '-'] digits.toList n := .unsigned h
  have fits : Fits n ↔ n < 2 ^ 63 := by
    rw [Fits]
    omega
  split
  · next small =>
    rw [integerLiteral, readInt?_eq_some_iff.2 ⟨denotes, fits64_iff.2 (fits.2 small)⟩]
    rfl
  · next large =>
    rw [integerLiteral, readInt?_of_not_fits denotes (mt fits.1 large)]
    simp only [(denotes_iff.1 h).1, if_true]
    rfl

/-- Characters of a class of digits, of which there is one at least, denote a number. -/
theorem exists_denotes {base : Nat} {digits : String} {p : Char → Bool}
    (h : ∃ c cs, digits.toList = c :: cs ∧ ∀ d ∈ c :: cs, p d = true)
    (sub : ∀ d, p d = true → isDigit base d = true) : ∃ n, Denotes base digits.toList n := by
  obtain ⟨c, cs, hdigits, hp⟩ := h
  refine ⟨_, denotes_iff.2 ⟨?_, rfl⟩⟩
  rw [hdigits, isNumeral, List.all_eq_true.2 fun d hd => sub d (hp d hd)]
  rfl

theorem isDigit_of_isAsciiDigit {c : Char} (h : isAsciiDigit c = true) :
    isDigit 10 c = true := by
  rw [Lexeme.isAsciiDigit_iff] at h
  exact isDigit_iff.2 ⟨c.toNat - 48, digit_iff.2 (by omega), by omega⟩

theorem isDigit_of_isAsciiHexDigit {c : Char} (h : isAsciiHexDigit c = true) :
    isDigit 16 c = true := by
  rw [Lexeme.isAsciiHexDigit_iff] at h
  rw [isDigit_iff]
  rcases h with (h | h) | h
  · exact ⟨c.toNat - 48, digit_iff.2 (by omega), by omega⟩
  · exact ⟨c.toNat - 87, digit_iff.2 (by omega), by omega⟩
  · exact ⟨c.toNat - 55, digit_iff.2 (by omega), by omega⟩

/-! ## All texts -/

/-- **Texts are told apart by the integers that they denote.**  Reading a text in a base gives the
integer that it denotes, an overflow if that does not fit, and the error that it is no integer if it
denotes none; a minus sign may stand in front.  Reading a text as a number does so for the text
without the blanks at its ends, if there is no point in it; either sign may stand in front.  The two
exceptions are overflow in place of the other error for digits behind several minus signs, and the
other error in place of overflow for digits behind a plus sign that denote too large a number.

If the text is a grammar, then the literals of its expressions are the integers that their digits
denote, or overflow. -/
theorem integers_classified (text : String) :
    (∀ base : Nat, 2 ≤ base → base ≤ 36 →
      let answer := Builtin.call .atoi [.str text, .int base]
      (SignedTwice base text.toList → answer = .error .overflow) ∧
      (¬ SignedTwice base text.toList → Tells answer (DenotesInt base ['-'] text.toList)
        (.invalidLiteral .integer text))) ∧
    (∀ core : List Char, Trimmed text.toList core → '.' ∉ core →
      let answer := Builtin.call .number [.str text]
      (PlusTooLarge core → answer = .error (.invalidLiteral .number text)) ∧
      (¬ PlusTooLarge core → Tells answer (DenotesInt 10 ['+', '-'] core)
        (.invalidLiteral .number text))) ∧
    ∀ rs : RuleSet, parseGrammar text = .ok rs → ∀ (scopes : Scopes) (digits : String),
      (rs.Holds (.dec digits) → ∃ n, Denotes 10 digits.toList n ∧
        Expr.eval scopes (.dec digits) = if n < 2 ^ 63 then .ok (.int n) else .error .overflow) ∧
      (rs.Holds (.hex digits) → ∃ n, Denotes 16 digits.toList n ∧
        Expr.eval scopes (.hex digits)
          = if n < 2 ^ 63 then .ok (.int n) else .error .overflow) := by
  refine ⟨fun base lo hi => ?_, fun core trimmed point => ?_,
    fun rs parsed scopes digits => ⟨fun holds => ?_, fun holds => ?_⟩⟩
  · have call : Builtin.call .atoi [.str text, .int base] = Builtin.integerOf text base := by
      have bounds : (2 : Int) ≤ base ∧ (base : Int) ≤ 36 := by omega
      simp [Builtin.call, Builtin.asStr, Builtin.baseOf, bounds]
    rw [call]
    exact ⟨integerOf_of_signedTwice, integerOf_tells⟩
  · exact ⟨numberOf_of_plusTooLarge trimmed point, numberOf_tells trimmed point⟩
  · obtain ⟨n, value⟩ := exists_denotes (holds.written parsed) fun _ => isDigit_of_isAsciiDigit
    exact ⟨n, value, by rw [Expr.eval, integerLiteral_eq value]⟩
  · obtain ⟨n, value⟩ := exists_denotes (holds.written parsed) fun _ => isDigit_of_isAsciiHexDigit
    exact ⟨n, value, by rw [Expr.eval, integerLiteral_eq value]⟩

/-- Texts at the bounds: the least integer between blanks, the least one that is too large, behind a
plus sign and as a literal, digits of the largest base, and two minus signs. -/
theorem integers_classified_bounds :
    (SignedTwice 10 "--5".toList ∧ Builtin.call .atoi [.str "--5", .int 10] = .error .overflow) ∧
    (¬ SignedTwice 36 "-zZ".toList ∧ Builtin.call .atoi [.str "-zZ", .int 36] = .ok (.int (-1295)) ∧
      DenotesInt 36 ['-'] "-zZ".toList (-1295)) ∧
    (Trimmed " -9223372036854775808\n".toList "-9223372036854775808".toList ∧
      '.' ∉ "-9223372036854775808".toList ∧ ¬ PlusTooLarge "-9223372036854775808".toList ∧
      Builtin.call .number [.str " -9223372036854775808\n"] = .ok (.int (-2 ^ 63)) ∧
      DenotesInt 10 ['+', '-'] "-9223372036854775808".toList (-2 ^ 63)) ∧
    (PlusTooLarge "+9223372036854775808".toList ∧
      Builtin.call .number [.str "+9223372036854775808"]
        = .error (.invalidLiteral .number "+9223372036854775808")) ∧
    ∃ rs, parseGrammar "a = -> 0xfF + 9223372036854775808" = .ok rs ∧ rs.Holds (.hex "fF") ∧
      rs.Holds (.dec "9223372036854775808") ∧ ∃ n m, Denotes 16 "fF".toList n ∧
        Expr.eval .base (.hex "fF") = (if n < 2 ^ 63 then .ok (.int n) else .error .overflow) ∧
        Denotes 10 "9223372036854775808".toList m ∧ Expr.eval .base (.dec "9223372036854775808")
          = if m < 2 ^ 63 then .ok (.int m) else .error .overflow := by
  have atoi (text : String) := (integers_classified text).1
  have number (text : String) := (integers_classified text).2.1
  have literal := (integers_classified "a = -> 0xfF + 9223372036854775808").2.2
  have twice : SignedTwice 10 "--5".toList :=
    ⟨0, ['5'], 5, by decide, denotes_iff.2 (by decide)⟩
  have once : ¬ SignedTwice 36 "-zZ".toList := by
    rintro ⟨k, digits, n, h, -⟩
    simp at h
  have least : Trimmed " -9223372036854775808\n".toList "-9223372036854775808".toList :=
    trimmed_iff.2 (by decide)
  have bare : ¬ PlusTooLarge "-9223372036854775808".toList := by
    rintro ⟨digits, n, h, -⟩
    simp at h
  have large : PlusTooLarge "+9223372036854775808".toList :=
    ⟨"9223372036854775808".toList, 2 ^ 63, by decide, denotes_iff.2 (by decide), by decide⟩
  have largest : Builtin.call .atoi [.str "-zZ", .int 36] = .ok (.int (-1295)) := rfl
  have lowest : Builtin.call .number [.str " -9223372036854775808\n"] = .ok (.int (-2 ^ 63)) := rfl
  let sum : Expr := .plus (.hex "fF") (.dec "9223372036854775808")
  have parsed : parseGrammar "a = -> 0xfF + 9223372036854775808"
      = .ok ⟨[⟨"a", .choice [.seq [.action sum]], ⟨0, 1⟩⟩]⟩ := by cbv
  have holds (e : Expr) (he : e ∈ sum.nodes) :
      RuleSet.Holds ⟨[⟨"a", .choice [.seq [.action sum]], ⟨0, 1⟩⟩]⟩ e :=
    ⟨_, .head _, .action sum, by simp [Pattern.nodes, Pattern.nodesAll], sum, rfl, he⟩
  have hex := holds (.hex "fF") (by simp [sum, Expr.nodes])
  have dec := holds (.dec "9223372036854775808") (by simp [sum, Expr.nodes])
  obtain ⟨n, hn, small⟩ := (literal _ parsed .base _).2 hex
  obtain ⟨m, hm, toolarge⟩ := (literal _ parsed .base _).1 dec
  refine ⟨⟨twice, (atoi _ 10 (by decide) (by decide)).1 twice⟩, ⟨once, largest, ?_⟩,
    ⟨least, by decide, bare, lowest, ?_⟩,
    ⟨large, (number _ _ (trimmed_iff.2 (by decide)) (by decide)).1 large⟩,
    _, parsed, hex, dec, n, m, hn, small, hm, toolarge⟩
  · exact (((atoi _ 36 (by decide) (by decide)).2 once).int _).1 largest |>.1
  · exact (((number _ _ least (by decide)).2 bare).int _).1 lowest |>.1

end Pegboard
