import Pegboard.Token.Scan

/-!
# What literals denote

Between its quotes a literal has characters that stand for themselves and escapes, each of which
stands for one character.  The relations here say so without going through the text from left to
right.  Reading the body of a literal succeeds on exactly those that denote a text, and gives that
text.

## Main Definitions

* `Escape.Denotes`: an escape and the character that it stands for.
* `LiteralBody.Denotes`: what stands between two quotes, and the text that it denotes.

## Main Results

* `LiteralBody.read_of_denotes`, `LiteralBody.denotes_of_read`: bodies that denote a text, and those
  that are read without errors, are the same.
* `Quoted.denotes_flatMap_literalChar`: a literal denotes the text that it was written for.
-/

namespace Pegboard

open Numeral Unicode

/-! ## Classes of characters -/

theorem of_mem_takeWhile {p : Char → Bool} {cs : List Char} {c : Char}
    (h : c ∈ cs.takeWhile p) : p c = true :=
  List.all_eq_true.1 List.all_takeWhile c h

/-- What a class of characters takes from a text that starts with some of them, and then with
none. -/
theorem takeWhile_append_stop {p : Char → Bool} {cs rest : List Char}
    (taken : ∀ c ∈ cs, p c = true) (stop : ∀ c ∈ rest.head?, p c = false) :
    (cs ++ rest).takeWhile p = cs := by
  rw [List.takeWhile_append_of_pos taken]
  cases rest with
  | nil => simp
  | cons c rest => simp [stop c rfl]

/-- Every text starts with some characters of a class, and then with none. -/
theorem exists_takeWhile (p : Char → Bool) (cs : List Char) :
    ∃ taken rest, cs = taken ++ rest ∧ cs.takeWhile p = taken ∧ (∀ c ∈ taken, p c = true) ∧
      ∀ c ∈ rest.head?, p c = false := by
  refine ⟨cs.takeWhile p, cs.dropWhile p, List.takeWhile_append_dropWhile.symm, rfl,
    fun c => of_mem_takeWhile, fun c hc => ?_⟩
  have stop := List.head?_dropWhile_not p cs
  rw [Option.mem_def.1 hc] at stop
  exact stop

/-! ## Escapes -/

theorem Numeral.charOfHex?_eq_some_iff {digits : List Char} {c : Char} :
    charOfHex? digits = some c ↔ c.toNat = numeralValue 16 digits := by
  rw [charOfHex?]
  constructor
  · intro h
    split at h
    · next valid =>
      obtain rfl := Option.some.inj h
      rw [Char.ofNat, dif_pos valid]
      rfl
    · contradiction
  · intro h
    have valid : c.toNat.isValidChar := c.valid
    rw [← h, if_pos valid, Char.ofNat_toNat]

namespace Escape

/-- What an escape has after its backslash, and the character that it stands for. -/
inductive Denotes : List Char → Char → Prop where
  | newline : Denotes ['n'] '\n'
  | carriageReturn : Denotes ['r'] '\r'
  | tab : Denotes ['t'] '\t'
  | itself {c : Char} (h : c ∈ ['\\', '\'', '"']) : Denotes [c] c
  /-- The code point of the character, by as many hexadecimal digits as the letter asks for. -/
  | codePoint {letter c : Char} {digits : List Char}
      (kind : (letter, digits.length) ∈ [('x', 2), ('u', 4), ('U', 8)])
      (hex : digits.all isAsciiHexDigit = true)
      (value : c.toNat = numeralValue 16 digits) : Denotes (letter :: digits) c

/-- An escape of hexadecimal digits denotes what they do, if there are as many as it takes. -/
theorem codePoint_append {digits : List Char} (h : digits.all isAsciiHexDigit = true)
    (rest : List Char) :
    codePoint digits.length (digits ++ rest) = ⟨charOfHex? digits, 1 + digits.length⟩ := by
  have htake : (digits ++ rest).take digits.length = digits := by simp
  have hwhile : digits.takeWhile isAsciiHexDigit = digits := by
    have happend : (digits ++ []).takeWhile isAsciiHexDigit = digits :=
      takeWhile_append_stop (List.all_eq_true.1 h) (by simp)
    simpa using happend
  simp only [codePoint, htake, hwhile, if_true]

/-- There are as many digits as an escape takes, if it denotes a character. -/
theorem digits_of_codePoint {count n : Nat} {rest : List Char} {c : Char}
    (h : codePoint count rest = ⟨some c, n⟩) :
    ∃ digits, rest.take digits.length = digits ∧ digits.length = count ∧ n = digits.length + 1 ∧
      digits.all isAsciiHexDigit = true ∧ c.toNat = numeralValue 16 digits := by
  have taken : (rest.take count).takeWhile isAsciiHexDigit <+: rest :=
    (List.takeWhile_prefix _).trans (List.take_prefix _ _)
  simp only [codePoint, Escape.mk.injEq] at h
  obtain ⟨hchar, rfl⟩ := h
  split at hchar
  · next hlength =>
    exact ⟨_, (List.prefix_iff_eq_take.1 taken).symm, hlength, Nat.add_comm _ _,
      List.all_takeWhile, charOfHex?_eq_some_iff.1 hchar⟩
  · contradiction

theorem denotes_of_read? {rest : List Char} {c : Char} {n : Nat}
    (h : read? rest = some ⟨some c, n⟩) : Denotes (rest.take n) c := by
  have code {letter : Char} {count : Nat} {rest : List Char}
      (kind : (letter, count) ∈ [('x', 2), ('u', 4), ('U', 8)])
      (h : some (codePoint count rest) = some ⟨some c, n⟩) :
      Denotes ((letter :: rest).take n) c := by
    obtain ⟨digits, hdigits, rfl, rfl, hex, value⟩ := digits_of_codePoint (Option.some.inj h)
    rw [List.take_succ_cons, hdigits]
    exact .codePoint kind hex value
  unfold read? at h
  split at h
  case h_1 => contradiction
  case h_8 | h_9 | h_10 => exact code (by simp) h
  case h_11 => simp at h
  all_goals
    simp only [Option.some.injEq, Escape.mk.injEq] at h
    obtain ⟨rfl, rfl⟩ := h
  · exact .newline
  · exact .carriageReturn
  · exact .tab
  all_goals exact .itself (by simp)

theorem read?_of_denotes {w : List Char} {c : Char} (h : Denotes w c) (rest : List Char) :
    read? (w ++ rest) = some ⟨some c, w.length⟩ := by
  cases h with
  | newline | carriageReturn | tab => rfl
  | itself h =>
    simp only [List.mem_cons, List.not_mem_nil, or_false] at h
    rcases h with rfl | rfl | rfl <;> rfl
  | @codePoint letter _ digits kind hex value =>
    have hread := codePoint_append hex rest
    rw [charOfHex?_eq_some_iff.2 value, Nat.add_comm] at hread
    simp only [List.mem_cons, List.not_mem_nil, or_false, Prod.mk.injEq] at kind
    rcases kind with ⟨rfl, hlength⟩ | ⟨rfl, hlength⟩ | ⟨rfl, hlength⟩ <;>
      rw [hlength] at hread <;>
      rw [List.cons_append, read?, hread, List.length_cons, hlength]

end Escape

/-! ## Literals -/

namespace LiteralBody

/-- What stands between two quotes, and the text that it denotes. -/
inductive Denotes (quote : Char) : List Char → List Char → Prop where
  | nil : Denotes quote [] []
  | plain {c : Char} {w s : List Char} (inside : c ≠ quote) (bare : c ≠ '\\')
      (later : Denotes quote w s) : Denotes quote (c :: w) (c :: s)
  | escape {e w s : List Char} {c : Char} (first : Escape.Denotes e c)
      (later : Denotes quote w s) : Denotes quote ('\\' :: e ++ w) (c :: s)

/-- What denotes a text is read to it, up to the quote behind it. -/
theorem read_of_denotes {quote : Char} (hquote : quote ≠ '\\') {w s : List Char}
    (h : Denotes quote w s) (pos : Nat) (rest : List Char) :
    read quote pos (w ++ quote :: rest) = ⟨s, w.length + 1, true, []⟩ := by
  induction h generalizing pos with
  | nil =>
    rw [List.nil_append, read, if_pos rfl]
    rfl
  | plain inside bare later ih =>
    rw [List.cons_append, read, if_neg inside, if_neg bare, ih]
    simp only [List.length_cons, LiteralBody.mk.injEq, and_true, true_and]
    omega
  | @escape e w s c first later ih =>
    rw [List.append_assoc, List.cons_append, read, if_neg hquote.symm, if_pos rfl,
      Escape.read?_of_denotes first]
    simp only [List.drop_left]
    rw [ih]
    simp only [List.length_append, List.length_cons, LiteralBody.mk.injEq, and_true, true_and]
    omega

/-- What is read up to a quote, and without errors, denotes the text that is read. -/
theorem denotes_of_read {quote : Char} {pos : Nat} {cs : List Char}
    (closed : (read quote pos cs).closed = true) (fine : (read quote pos cs).errors = []) :
    ∃ w, cs.take (read quote pos cs).length = w ++ [quote] ∧
      Denotes quote w (read quote pos cs).text := by
  fun_induction read quote pos cs with
  | case1 => contradiction
  | case2 pos rest => exact ⟨[], by simp, .nil⟩
  | case3 => contradiction
  | case4 pos rest escape hescape length body c hchar _ ih =>
    obtain ⟨w, htake, hw⟩ := ih closed fine
    have first : Escape.Denotes (rest.take escape.length) c :=
      Escape.denotes_of_read? (by rw [hescape, ← hchar])
    have whole : rest.take (escape.length + body.length)
        = rest.take escape.length ++ w ++ [quote] := by
      rw [List.take_add, htake, List.append_assoc]
    refine ⟨'\\' :: rest.take escape.length ++ w, ?_, .escape first hw⟩
    show ('\\' :: rest).take (1 + escape.length + body.length) = _
    rw [Nat.add_assoc, Nat.add_comm, List.take_succ_cons, whole]
    rfl
  | case5 => contradiction
  | case6 pos c rest inside bare body ih =>
    obtain ⟨w, htake, hw⟩ := ih closed fine
    refine ⟨c :: w, ?_, .plain inside bare hw⟩
    rw [Nat.add_comm, List.take_succ_cons, htake, List.cons_append]

end LiteralBody

/-! ## Quoting -/

namespace Quoted

/-- The escape of two digits that writes a code point below U+0080 denotes it. -/
theorem lowerHex_two (n : Fin 0x80) : (lowerHex 2 n).length = 2 ∧
    (lowerHex 2 n).all isAsciiHexDigit = true ∧ n = numeralValue 16 (lowerHex 2 n) := by
  revert n
  decide +kernel

/-- The escape of four digits that writes a code point below U+00A0 denotes it. -/
theorem lowerHex_four (n : Fin 0xa0) : (lowerHex 4 n).length = 4 ∧
    (lowerHex 4 n).all isAsciiHexDigit = true ∧ n = numeralValue 16 (lowerHex 4 n) := by
  revert n
  decide +kernel

/-- A literal writes a character by an escape that denotes it, or as it is. -/
theorem literalChar_cases (c : Char) :
    (∃ e, literalChar c = '\\' :: e ∧ Escape.Denotes e c) ∨
      (literalChar c = [c] ∧ c ≠ '\'' ∧ c ≠ '\\') := by
  unfold literalChar
  split
  · next h =>
    subst h
    exact .inl ⟨_, rfl, .itself (by simp)⟩
  split
  · next h =>
    subst h
    exact .inl ⟨_, rfl, .itself (by simp)⟩
  split
  · next h => exact .inl ⟨_, rfl, h ▸ .newline⟩
  split
  · next h => exact .inl ⟨_, rfl, h ▸ .carriageReturn⟩
  split
  · next h => exact .inl ⟨_, rfl, h ▸ .tab⟩
  split
  · next h =>
    have hlt : c.toNat < 0x80 := by
      simp only [Bool.or_eq_true, decide_eq_true_eq] at h
      omega
    obtain ⟨hlength, hex, value⟩ := lowerHex_two ⟨c.toNat, hlt⟩
    exact .inl ⟨_, rfl, .codePoint (by simp [hlength]) hex value⟩
  split
  · next h =>
    have hlt : c.toNat < 0xa0 := by
      simp only [isControl, Bool.or_eq_true, Bool.and_eq_true, decide_eq_true_eq] at h
      omega
    obtain ⟨hlength, hex, value⟩ := lowerHex_four ⟨c.toNat, hlt⟩
    exact .inl ⟨_, rfl, .codePoint (by simp [hlength]) hex value⟩
  · next bare inside _ _ _ _ _ => exact .inr ⟨rfl, inside, bare⟩

/-- What a literal writes between its quotes denotes the text that it is written for. -/
theorem denotes_flatMap_literalChar (cs : List Char) :
    LiteralBody.Denotes '\'' (cs.flatMap literalChar) cs := by
  induction cs with
  | nil => exact .nil
  | cons c cs ih =>
    rw [List.flatMap_cons]
    rcases literalChar_cases c with ⟨e, written, he⟩ | ⟨written, inside, bare⟩
    · rw [written]
      exact .escape he ih
    · rw [written]
      exact .plain inside bare ih

end Quoted

end Pegboard
