import Pegboard.Token.Scan

/-!
# Blanks and words

No blank may stand in a name.  Below U+0080 this is seen from the tables of the few characters.  The
other blanks lie in four stretches of code points, of which none holds a character of a word.  The
table of categories is looked up by bisection, but what is said here of all its runs needs only that
bisection ends at a run which holds the character.

## Main Results

* `lastRun_spec`: bisection finds a run that starts at or before a code point and does not end
  before it.
* `isNameChar_of_isBlank`: no blank may stand in a name.
-/

namespace Pegboard.Unicode

/-! ## Runs of one category -/

/-- Bisection finds a run that starts at or before `n` and does not end before it, if this is so of
the runs between which it starts. -/
theorem lastRun_spec (runs : Array (Nat × GeneralCategory)) (n lo hi : Nat) (hlt : lo < hi)
    (start : ∃ r, runs[lo]? = some r ∧ r.1 ≤ n) (stop : ∀ s, runs[hi]? = some s → n < s.1)
    (bound : hi ≤ runs.size) :
    ∃ r, runs[lastRun runs n lo hi]? = some r ∧ r.1 ≤ n ∧
      ∀ s, runs[lastRun runs n lo hi + 1]? = some s → n < s.1 := by
  rw [lastRun]
  split
  · next hgap =>
    obtain ⟨r, hr⟩ : ∃ r, runs[(lo + hi) / 2]? = some r :=
      ⟨_, Array.getElem?_eq_getElem (by omega)⟩
    simp only [hr, Option.map_some, Option.getD_some]
    split
    · next hle => exact lastRun_spec runs n _ hi (by omega) ⟨r, hr, hle⟩ stop bound
    · next hgt =>
      refine lastRun_spec runs n lo _ (by omega) start (fun s hs => ?_) (by omega)
      rw [hr, Option.some.injEq] at hs
      subst hs
      omega
  · next hgap =>
    obtain ⟨r, hr, hle⟩ := start
    have hnext : lo + 1 = hi := by omega
    exact ⟨r, hr, hle, fun s hs => stop s (hnext ▸ hs)⟩
termination_by hi - lo

/-- The general category of a character is that of a run which holds it. -/
theorem exists_run (c : Char) : ∃ i r, categoryRuns.toList[i]? = some r ∧ r.1 ≤ c.toNat ∧
    (∀ s, categoryRuns.toList[i + 1]? = some s → c.toNat < s.1) ∧ generalCategory c = r.2 := by
  have hsize : 0 < categoryRuns.size := by decide +kernel
  have hfirst : categoryRuns[0]? = some (0, .cc) := by decide +kernel
  obtain ⟨r, hr, hle, hnext⟩ := lastRun_spec categoryRuns c.toNat 0 categoryRuns.size hsize
    ⟨_, hfirst, Nat.zero_le _⟩ (by simp) (Nat.le_refl _)
  refine ⟨_, r, by rw [Array.getElem?_toList]; exact hr, hle,
    fun s hs => hnext s (by rw [Array.getElem?_toList] at hs; exact hs), ?_⟩
  rw [generalCategory, hr]
  rfl

/-! ## Characters of words -/

/-- Whether characters of a category write words or numbers. -/
def isWordCategory : GeneralCategory → Bool
  | .lu | .ll | .lt | .lm | .lo | .nl | .nd | .no => true
  | _ => false

/-- Stretches of code points that hold the blanks beyond U+0080. -/
def blankStretches : List (Nat × Nat) :=
  [(0x85, 0xa0), (0x1680, 0x1680), (0x2000, 0x205f), (0x3000, 0x3000)]

/-- Whether a stretch of code points has none in common with those of the blanks. -/
def avoidsBlanks (lo hi : Nat) : Bool := blankStretches.all fun b => hi < b.1 || b.2 < lo

/-- Whether all runs of a category of words avoid the blanks. -/
def wordsAvoidBlanks : List (Nat × GeneralCategory) → Bool
  | [] => true
  | [r] => !isWordCategory r.2
  | r :: s :: rest =>
    (!isWordCategory r.2 || avoidsBlanks r.1 (s.1 - 1)) && wordsAvoidBlanks (s :: rest)

theorem avoidsBlanks_of_run {runs : List (Nat × GeneralCategory)}
    (h : wordsAvoidBlanks runs = true) {i n : Nat} {r : Nat × GeneralCategory}
    (found : runs[i]? = some r) (start : r.1 ≤ n) (stop : ∀ s, runs[i + 1]? = some s → n < s.1)
    (word : isWordCategory r.2 = true) : avoidsBlanks n n = true := by
  induction runs generalizing i with
  | nil => simp at found
  | cons r' rest ih =>
    cases rest with
    | nil =>
      cases i with
      | zero =>
        obtain rfl : r' = r := by simpa using found
        rw [wordsAvoidBlanks, word] at h
        contradiction
      | succ i => simp at found
    | cons s rest =>
      rw [wordsAvoidBlanks, Bool.and_eq_true] at h
      cases i with
      | zero =>
        obtain rfl : r' = r := by simpa using found
        have hnext : n < s.1 := stop s rfl
        have havoid : avoidsBlanks r'.1 (s.1 - 1) = true := by simpa [word] using h.1
        rw [avoidsBlanks, List.all_eq_true] at havoid ⊢
        intro b hb
        have := havoid b hb
        simp only [Bool.or_eq_true, decide_eq_true_eq] at this ⊢
        omega
      | succ i => exact ih h.2 found stop

theorem avoidsBlanks_of_inRanges {ranges : List (Nat × Nat)} {n : Nat}
    (h : ranges.all (fun r => avoidsBlanks r.1 r.2) = true) (hn : inRanges ranges n = true) :
    avoidsBlanks n n = true := by
  obtain ⟨r, hr, hin⟩ := List.any_eq_true.1 hn
  have havoid := List.all_eq_true.1 h r hr
  rw [avoidsBlanks, List.all_eq_true] at havoid ⊢
  intro b hb
  have := havoid b hb
  simp only [Bool.or_eq_true, Bool.and_eq_true, decide_eq_true_eq] at this hin ⊢
  omega

/-- A character with a category of words is outside the stretches that hold blanks. -/
theorem avoidsBlanks_of_isWordCategory {c : Char}
    (h : isWordCategory (laterCategory c) = true) : avoidsBlanks c.toNat c.toNat = true := by
  rw [laterCategory] at h
  split at h
  · next r hfind =>
    have havoid : (laterRuns.map fun r => (r.1, r.2.1)).all
        (fun r => avoidsBlanks r.1 r.2) = true := by decide +kernel
    refine avoidsBlanks_of_inRanges havoid ?_
    have hin := List.find?_some hfind
    rw [inRanges, List.any_map]
    exact List.any_eq_true.2 ⟨r, List.mem_of_find?_eq_some hfind, hin⟩
  · obtain ⟨i, r, found, start, stop, hcategory⟩ := exists_run c
    rw [hcategory] at h
    exact avoidsBlanks_of_run (by decide +kernel) found start stop h

/-- A character of a name beyond U+0080 is outside the stretches that hold blanks. -/
theorem avoidsBlanks_of_isAlphanumeric {c : Char} (hc : ¬c.toNat < 0x80)
    (h : isAlphanumeric c = true) : avoidsBlanks c.toNat c.toNat = true := by
  rw [isAlphanumeric, Bool.or_eq_true, isAlphabetic, isNumeric, if_neg hc, if_neg hc] at h
  rcases h with h | h
  · split at h
    iterate 6 exact avoidsBlanks_of_isWordCategory (by simp [*, isWordCategory])
    exact avoidsBlanks_of_inRanges (by decide +kernel) h
  · split at h
    iterate 3 exact avoidsBlanks_of_isWordCategory (by simp [*, isWordCategory])
    contradiction

/-- No blank may stand in a name. -/
theorem isNameChar_of_isBlank {c : Char} (h : isBlank c = true) :
    Lexeme.isNameChar c = false := by
  have hn : (9 ≤ c.toNat ∧ c.toNat ≤ 13 ∨ c.toNat = 32) ∨
      0x80 ≤ c.toNat ∧ avoidsBlanks c.toNat c.toNat = false := by
    simp only [isBlank, inRanges, blankRanges, List.any_cons, List.any_nil, Bool.or_false,
      Bool.or_eq_true, Bool.and_eq_true, decide_eq_true_eq] at h
    simp only [avoidsBlanks, blankStretches, List.all_cons, List.all_nil, Bool.and_true,
      Bool.and_eq_false_iff, Bool.or_eq_false_iff, decide_eq_false_iff_not]
    omega
  have hunder : c ≠ '_' := by
    rintro rfl
    revert h
    decide
  cases halnum : isAlphanumeric c with
  | false => simp [Lexeme.isNameChar, halnum, hunder]
  | true =>
    rcases hn with hn | ⟨hn, havoid⟩
    · have hlt : c.toNat < 0x80 := by omega
      simp only [isAlphanumeric, isAlphabetic, isNumeric, hlt, if_true, isAsciiLetter,
        isAsciiDigit, Char.le_def, UInt32.le_iff_toNat_le, Bool.or_eq_true, Bool.and_eq_true,
        decide_eq_true_eq] at halnum
      have hval : c.val.toNat = c.toNat := rfl
      simp at halnum
      omega
    · rw [avoidsBlanks_of_isAlphanumeric (by omega) halnum] at havoid
      contradiction

end Pegboard.Unicode
