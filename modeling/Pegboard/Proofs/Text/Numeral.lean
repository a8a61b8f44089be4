import Mathlib.Data.List.Forall2
import Mathlib.Data.Nat.Digits.Defs
import Pegboard.Expr.Builtin

/-!
# What numerals denote

A numeral is a row of digits, the highest first, with a sign in front of it where one is allowed.
The relations here say which number it denotes by the positional notation itself, without reading it
from left to right.  A sign is no digit of any base, so a text denotes at most one integer.

## Main Definitions

* `Digit`: a character and the number for which it stands as a digit.
* `Denotes`: a row of digits of a base, and the number that it denotes.
* `DenotesInt`: the same with a sign.

## Main Results

* `denotes_iff`: the rows that denote a number are those of `isNumeral`, and the number is
  `numeralValue`.
* `readInt?_eq_some_iff`: what is read is the integer that is denoted, if it has 64 bits.
-/

namespace Pegboard

namespace Numeral

/-! ## Digits -/

/-- A character and the number for which it stands as a digit: the digits from `0` to `9`, and then
the letters of either case. -/
inductive Digit (c : Char) : Nat → Prop where
  | decimal {d : Nat} (small : d < 10) (code : c.toNat = 48 + d) : Digit c d
  | lower {d : Nat} (small : d < 26) (code : c.toNat = 97 + d) : Digit c (10 + d)
  | upper {d : Nat} (small : d < 26) (code : c.toNat = 65 + d) : Digit c (10 + d)

theorem digit_iff {c : Char} {d : Nat} : Digit c d ↔
    48 ≤ c.toNat ∧ c.toNat ≤ 57 ∧ d = c.toNat - 48 ∨
    97 ≤ c.toNat ∧ c.toNat ≤ 122 ∧ d = c.toNat - 87 ∨
    65 ≤ c.toNat ∧ c.toNat ≤ 90 ∧ d = c.toNat - 55 := by
  constructor
  · rintro (⟨small, code⟩ | ⟨small, code⟩ | ⟨small, code⟩) <;> omega
  · rintro (⟨lo, hi, rfl⟩ | ⟨lo, hi, rfl⟩ | ⟨lo, hi, rfl⟩)
    · exact .decimal (by omega) (by omega)
    · obtain ⟨d, hd⟩ : ∃ d, c.toNat = 97 + d := ⟨c.toNat - 97, by omega⟩
      rw [show c.toNat - 87 = 10 + d by omega]
      exact .lower (by omega) hd
    · obtain ⟨d, hd⟩ : ∃ d, c.toNat = 65 + d := ⟨c.toNat - 65, by omega⟩
      rw [show c.toNat - 55 = 10 + d by omega]
      exact .upper (by omega) hd

theorem digitValue?_eq_some_iff {base d : Nat} {c : Char} :
    digitValue? base c = some d ↔ Digit c d ∧ d < base := by
  have class_iff (lo hi : Char) :
      (decide (lo ≤ c) && decide (c ≤ hi)) = true ↔ lo.toNat ≤ c.toNat ∧ c.toNat ≤ hi.toNat := by
    simp [Char.le_def, UInt32.le_iff_toNat_le]
  rw [digit_iff, digitValue?, Option.filter_eq_some_iff, decide_eq_true_eq]
  simp only [class_iff, Char.reduceToNat]
  split_ifs
  · rw [Option.some.injEq]
    omega
  · rw [Option.some.injEq]
    omega
  · rw [Option.some.injEq]
    omega
  · simp only [false_and, false_iff]
    omega

theorem isDigit_iff {base : Nat} {c : Char} :
    isDigit base c = true ↔ ∃ d, Digit c d ∧ d < base := by
  rw [isDigit, Option.isSome_iff_exists]
  exact exists_congr fun _ => digitValue?_eq_some_iff

/-- A sign is no digit. -/
theorem isDigit_sign {c : Char} (h : c ∈ ['+', '-']) (base : Nat) : isDigit base c = false := by
  rw [Bool.eq_false_iff, Ne, isDigit_iff]
  rintro ⟨d, digit, -⟩
  rw [digit_iff] at digit
  simp only [List.mem_cons, List.not_mem_nil, or_false] at h
  rcases h with rfl | rfl <;> simp only [Char.reduceToNat] at digit <;> omega

/-! ## Rows of digits -/

/-- The digits `cs` of a base, of which there is one at least, denote the number `n`. -/
def Denotes (base : Nat) (cs : List Char) (n : Nat) : Prop :=
  cs ≠ [] ∧ ∃ ds : List Nat, List.Forall₂ (fun c d => Digit c d ∧ d < base) cs ds ∧
    Nat.ofDigits base ds.reverse = n

theorem all_isDigit_iff {base : Nat} {cs : List Char} : cs.all (isDigit base) = true ↔
    ∃ ds, List.Forall₂ (fun c d => Digit c d ∧ d < base) cs ds := by
  induction cs with
  | nil => simp
  | cons c cs ih =>
    rw [List.all_cons, Bool.and_eq_true, isDigit_iff, ih]
    constructor
    · rintro ⟨⟨d, hd⟩, ds, hds⟩
      exact ⟨d :: ds, .cons hd hds⟩
    · rintro ⟨_, _ | ⟨hd, hds⟩⟩
      exact ⟨⟨_, hd⟩, _, hds⟩

theorem foldl_digits {base : Nat} {cs : List Char} {ds : List Nat}
    (h : List.Forall₂ (fun c d => Digit c d ∧ d < base) cs ds) (a : Nat) :
    cs.foldl (fun n c => n * base + (digitValue? base c).getD 0) a
      = ds.foldl (fun n d => n * base + d) a := by
  induction h generalizing a with
  | nil => rfl
  | cons h _ ih =>
    rw [List.foldl_cons, List.foldl_cons, digitValue?_eq_some_iff.2 h, Option.getD_some, ih]

/-- The value of a row of digits is that of the positional notation. -/
theorem numeralValue_eq {base : Nat} {cs : List Char} {ds : List Nat}
    (h : List.Forall₂ (fun c d => Digit c d ∧ d < base) cs ds) :
    numeralValue base cs = Nat.ofDigits base ds.reverse := by
  rw [numeralValue, foldl_digits h, Nat.ofDigits_eq_foldr, List.foldr_reverse]
  congr
  funext n d
  rw [Nat.cast_id, Nat.mul_comm, Nat.add_comm]

/-- A row denotes a number if it is a numeral, and the number is the value of the numeral. -/
theorem denotes_iff {base n : Nat} {cs : List Char} :
    Denotes base cs n ↔ isNumeral base cs = true ∧ numeralValue base cs = n := by
  rw [isNumeral, Bool.and_eq_true, Bool.not_eq_true', List.isEmpty_eq_false_iff, all_isDigit_iff]
  constructor
  · rintro ⟨some, ds, digits, rfl⟩
    exact ⟨⟨some, ds, digits⟩, numeralValue_eq digits⟩
  · rintro ⟨⟨some, ds, digits⟩, rfl⟩
    exact ⟨some, ds, digits, (numeralValue_eq digits).symm⟩

/-- What is no numeral denotes no number. -/
theorem not_denotes {base : Nat} {cs : List Char} (h : isNumeral base cs = false) (n : Nat) :
    ¬ Denotes base cs n := fun hn => Bool.eq_false_iff.1 h (denotes_iff.1 hn).1

theorem not_denotes_sign {c : Char} (h : c ∈ ['+', '-']) (base : Nat) (cs : List Char) (n : Nat) :
    ¬ Denotes base (c :: cs) n :=
  not_denotes (by simp [isNumeral, isDigit_sign h]) n

/-! ## Signs -/

/-- A text denotes an integer: digits of a base, behind one of the given signs or none. -/
inductive DenotesInt (base : Nat) (signs : List Char) : List Char → Int → Prop where
  | unsigned {cs : List Char} {n : Nat} (h : Denotes base cs n) : DenotesInt base signs cs n
  | plus {cs : List Char} {n : Nat} (allowed : '+' ∈ signs) (h : Denotes base cs n) :
    DenotesInt base signs ('+' :: cs) n
  | minus {cs : List Char} {n : Nat} (allowed : '-' ∈ signs) (h : Denotes base cs n) :
    DenotesInt base signs ('-' :: cs) (-n)

theorem DenotesInt.mono {base : Nat} {signs more : List Char} {cs : List Char} {i : Int}
    (h : DenotesInt base signs cs i) (sub : signs ⊆ more) : DenotesInt base more cs i := by
  cases h with
  | unsigned h => exact .unsigned h
  | plus allowed h => exact .plus (sub allowed) h
  | minus allowed h => exact .minus (sub allowed) h

theorem splitSign_of_denotes {base n : Nat} {cs : List Char} (h : Denotes base cs n) :
    Decimal.splitSign cs = (false, cs) := by
  unfold Decimal.splitSign
  split
  · exact absurd h (not_denotes_sign (by simp) _ _ _)
  · exact absurd h (not_denotes_sign (by simp) _ _ _)
  · rfl

/-- An integer is denoted by its sign and the digits behind the sign. -/
theorem denotesInt_iff {base : Nat} {cs : List Char} {i : Int} :
    DenotesInt base ['+', '-'] cs i ↔ isNumeral base (Decimal.splitSign cs).2 = true ∧
      i = if (Decimal.splitSign cs).1 then -(numeralValue base (Decimal.splitSign cs).2 : Int)
        else numeralValue base (Decimal.splitSign cs).2 := by
  constructor
  · rintro (h | ⟨-, h⟩ | ⟨-, h⟩)
    · rw [splitSign_of_denotes h]
      exact ⟨(denotes_iff.1 h).1, congrArg _ (denotes_iff.1 h).2.symm⟩
    · exact ⟨(denotes_iff.1 h).1, congrArg _ (denotes_iff.1 h).2.symm⟩
    · exact ⟨(denotes_iff.1 h).1, congrArg (fun n : Nat => -(n : Int)) (denotes_iff.1 h).2.symm⟩
  · unfold Decimal.splitSign
    split <;> rintro ⟨digits, rfl⟩
    · exact .minus (by simp) (denotes_iff.2 ⟨digits, rfl⟩)
    · exact .plus (by simp) (denotes_iff.2 ⟨digits, rfl⟩)
    · exact .unsigned (denotes_iff.2 ⟨digits, rfl⟩)

/-- A text denotes one integer at most. -/
theorem DenotesInt.unique {base : Nat} {cs : List Char} {i j : Int}
    (hi : DenotesInt base ['+', '-'] cs i) (hj : DenotesInt base ['+', '-'] cs j) : i = j :=
  (denotesInt_iff.1 hi).2.trans (denotesInt_iff.1 hj).2.symm

end Numeral

open Numeral

/-- What is read of a text is the integer that it denotes, if that has 64 bits. -/
theorem readInt?_eq_some_iff {base : Nat} {cs : List Char} {i : Int} :
    readInt? base cs = some i ↔ DenotesInt base ['+', '-'] cs i ∧ fits64 i = true := by
  rw [denotesInt_iff, readInt?]
  simp only
  split
  · next digits =>
    simp only [digits, true_and, Option.ite_none_right_eq_some, Option.some.injEq]
    constructor
    · rintro ⟨fits, rfl⟩
      exact ⟨rfl, fits⟩
    · rintro ⟨rfl, fits⟩
      exact ⟨fits, rfl⟩
  · next digits => simp [digits]

end Pegboard
