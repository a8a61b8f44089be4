import Pegboard.Proofs.Token.Literal
import Pegboard.Proofs.Unicode.Blank
import Pegboard.Token.Layout

/-!
# Tokens read from their displays

A token that is written out by its display is read back, if nothing that follows it is taken for
more of it.  Not every token has such a display: the text of a name must be a name, and that of a
number must be digits.  Those tokens are called writable, and scanning gives no others.

## Main Definitions

* `Token.Writable`: a token that is read from what displays it.
* `Token.EndsBefore`: what follows a token is not taken for more of it.

## Main Results

* `Lexeme.read_display`: a writable token is read from its display.
* `Scan.writable_of_read`: the tokens of a text in which nothing is wrong are writable.
-/

namespace Pegboard

open Numeral Unicode

/-! ## Characters -/

namespace Lexeme

theorem not_isBlank_of_isNameChar {c : Char} (h : isNameChar c = true) : isBlank c = false := by
  cases hb : isBlank c with
  | false => rfl
  | true => rw [isNameChar_of_isBlank hb] at h; contradiction

theorem isAsciiDigit_iff {c : Char} : isAsciiDigit c = true ↔ 48 ≤ c.toNat ∧ c.toNat ≤ 57 := by
  simp [isAsciiDigit, Char.le_def, UInt32.le_iff_toNat_le]

theorem isAsciiLetter_iff {c : Char} :
    isAsciiLetter c = true ↔ 97 ≤ c.toNat ∧ c.toNat ≤ 122 ∨ 65 ≤ c.toNat ∧ c.toNat ≤ 90 := by
  simp [isAsciiLetter, Char.le_def, UInt32.le_iff_toNat_le]

theorem isAsciiHexDigit_iff {c : Char} : isAsciiHexDigit c = true ↔
    (48 ≤ c.toNat ∧ c.toNat ≤ 57 ∨ 97 ≤ c.toNat ∧ c.toNat ≤ 102) ∨
      65 ≤ c.toNat ∧ c.toNat ≤ 70 := by
  simp [isAsciiHexDigit, isAsciiDigit, Char.le_def, UInt32.le_iff_toNat_le]

theorem isNameChar_of_isAsciiDigit {c : Char} (h : isAsciiDigit c = true) :
    isNameChar c = true := by
  have hlt : c.toNat < 0x80 := by
    have := isAsciiDigit_iff.1 h
    omega
  simp [isNameChar, isAlphanumeric, isNumeric, hlt, h]

theorem isNameChar_of_isAsciiHexDigit {c : Char} (h : isAsciiHexDigit c = true) :
    isNameChar c = true := by
  by_cases hd : isAsciiDigit c = true
  · exact isNameChar_of_isAsciiDigit hd
  · rw [isAsciiHexDigit_iff] at h
    rw [isAsciiDigit_iff] at hd
    have hlt : c.toNat < 0x80 := by omega
    have hletter : isAsciiLetter c = true := isAsciiLetter_iff.2 (by omega)
    simp [isNameChar, isAlphanumeric, isAlphabetic, hlt, hletter]

/-- Whether a character may start a name. -/
def startsName (c : Char) : Bool := isAlphabetic c || c = '_'

theorem isNameChar_of_startsName {c : Char} (h : startsName c = true) : isNameChar c = true := by
  simp only [startsName, Bool.or_eq_true, decide_eq_true_eq] at h
  rcases h with h | h <;> simp [isNameChar, isAlphanumeric, h]

/-- A name starts with no digit. -/
theorem not_isAsciiDigit_of_startsName {c : Char} (h : startsName c = true) :
    isAsciiDigit c = false := by
  cases hd : isAsciiDigit c with
  | false => rfl
  | true =>
    have hdigit := isAsciiDigit_iff.1 hd
    simp only [startsName, Bool.or_eq_true, decide_eq_true_eq] at h
    rcases h with h | rfl
    · have hlt : c.toNat < 0x80 := by omega
      rw [isAlphabetic, if_pos hlt, isAsciiLetter_iff] at h
      omega
    · contradiction

end Lexeme

/-! ## Tokens -/

namespace Token

/-- Whether scanning what displays a token gives the token: its text is a name, or digits. -/
def Writable : Token → Prop
  | .ident name => ∃ c cs, name.toList = c :: cs ∧ Lexeme.startsName c = true ∧
      ∀ d ∈ cs, Lexeme.isNameChar d = true
  | .dec digits => ∃ c cs, digits.toList = c :: cs ∧ ∀ d ∈ c :: cs, isAsciiDigit d = true
  | .hex digits => ∃ c cs, digits.toList = c :: cs ∧ ∀ d ∈ c :: cs, isAsciiHexDigit d = true
  | .str _ => True
  | .symbol _ => True
  | .invalid _ => False
  | .endOfFile => False

/-- Whether a token is a name or a number. -/
def isWord : Token → Bool
  | .ident _ => true
  | .dec _ => true
  | .hex _ => true
  | _ => false

/-- Whether a token is written before a text such that none of the text is taken for more of the
token. -/
def EndsBefore (rest : List Char) : Token → Prop
  | .ident _ => ∀ c ∈ rest.head?, Lexeme.isNameChar c = false
  | .dec _ => ∀ c ∈ rest.head?, Lexeme.isNameChar c = false
  | .hex _ => ∀ c ∈ rest.head?, Lexeme.isNameChar c = false
  | .symbol .dot => rest.head? ≠ some '.'
  | _ => True

end Token

namespace Lexeme

theorem ne_of_isNameChar {c d : Char} (h : isNameChar c = true) (hd : isNameChar d = false) :
    c ≠ d := by
  rintro rfl
  rw [h] at hd
  contradiction

/-- What starts with a character of a name is a number or a name. -/
theorem read_of_isNameChar {c : Char} (h : isNameChar c = true) (pos : Nat) (rest : List Char) :
    read pos c rest = if isAsciiDigit c then number c rest
      else if startsName c then name c rest else symbol pos c rest := by
  have hslash : c ≠ '/' := ne_of_isNameChar h (by decide)
  have hquote : c ≠ '\'' := ne_of_isNameChar h (by decide)
  have hdouble : c ≠ '"' := ne_of_isNameChar h (by decide)
  simp [read, not_isBlank_of_isNameChar h, hslash, hquote, hdouble, startsName]

theorem read_name {c : Char} {cs rest : List Char} (start : startsName c = true)
    (more : ∀ d ∈ cs, isNameChar d = true) (stop : ∀ d ∈ rest.head?, isNameChar d = false)
    (pos : Nat) :
    read pos c (cs ++ rest) = ⟨some (.ident (String.ofList (c :: cs))), cs.length, []⟩ := by
  rw [read_of_isNameChar (isNameChar_of_startsName start),
    not_isAsciiDigit_of_startsName start, if_neg Bool.false_ne_true, if_pos start, name,
    takeWhile_append_stop more stop]

theorem read_dec {c : Char} {cs rest : List Char} (digits : ∀ d ∈ c :: cs, isAsciiDigit d = true)
    (stop : ∀ d ∈ rest.head?, isNameChar d = false) (pos : Nat) :
    read pos c (cs ++ rest) = ⟨some (.dec (String.ofList (c :: cs))), cs.length, []⟩ := by
  have hc : isAsciiDigit c = true := digits c (.head _)
  have htake : (cs ++ rest).takeWhile isAsciiDigit = cs := by
    refine takeWhile_append_stop (fun d hd => digits d (.tail _ hd)) fun d hd => ?_
    cases hdigit : isAsciiDigit d with
    | false => rfl
    | true =>
      have hname := isNameChar_of_isAsciiDigit hdigit
      rw [stop d hd] at hname
      contradiction
  have hsecond : ∀ x more, cs ++ rest = x :: more → (x = 'x' || x = 'X') = false := by
    intro x more hx
    cases cs with
    | nil =>
      have hname : isNameChar x = false := stop x (by rw [List.nil_append] at hx; rw [hx]; rfl)
      simp only [Bool.or_eq_false_iff, decide_eq_false_iff_not]
      constructor <;> (rintro rfl; revert hname; decide)
    | cons d cs =>
      have hd : isAsciiDigit x = true := by
        rw [List.cons_append, List.cons.injEq] at hx
        exact hx.1 ▸ digits d (.tail _ (.head _))
      simp only [Bool.or_eq_false_iff, decide_eq_false_iff_not]
      constructor <;> (rintro rfl; revert hd; decide)
  rw [read_of_isNameChar (isNameChar_of_isAsciiDigit hc), if_pos hc, number.eq_def]
  split
  · next x d more hx =>
    simp only [hsecond x (d :: more) hx, Bool.false_and, Bool.false_eq_true, if_false, htake]
  · simp only [htake]

theorem read_hex {cs rest : List Char} {c : Char}
    (digits : ∀ d ∈ c :: cs, isAsciiHexDigit d = true)
    (stop : ∀ d ∈ rest.head?, isNameChar d = false) (pos : Nat) :
    read pos '0' ('x' :: c :: cs ++ rest)
      = ⟨some (.hex (String.ofList (c :: cs))), (c :: cs).length + 1, []⟩ := by
  have hc : isAsciiHexDigit c = true := digits c (.head _)
  have htake : (cs ++ rest).takeWhile isAsciiHexDigit = cs := by
    refine takeWhile_append_stop (fun d hd => digits d (.tail _ hd)) fun d hd => ?_
    cases hdigit : isAsciiHexDigit d with
    | false => rfl
    | true =>
      have hname := isNameChar_of_isAsciiHexDigit hdigit
      rw [stop d hd] at hname
      contradiction
  rw [read_of_isNameChar (by decide), if_pos (by decide), List.cons_append, List.cons_append,
    number]
  simp only [hc, htake, List.length_cons]
  simp [Nat.add_comm]

theorem read_literal (text : String) (pos : Nat) (rest : List Char) :
    read pos '\'' (text.toList.flatMap Quoted.literalChar ++ '\'' :: rest)
      = ⟨some (.str text), (text.toList.flatMap Quoted.literalChar).length + 1, []⟩ := by
  have hread : read pos '\'' (text.toList.flatMap Quoted.literalChar ++ '\'' :: rest)
      = literal '\'' pos (text.toList.flatMap Quoted.literalChar ++ '\'' :: rest) := rfl
  rw [hread, literal, LiteralBody.read_of_denotes (by decide)
    (Quoted.denotes_flatMap_literalChar text.toList)]
  simp

theorem read_symbol (s : Symbol) {c : Char} {more rest : List Char}
    (written : s.text.toList = c :: more) (stop : Token.EndsBefore rest (.symbol s)) (pos : Nat) :
    read pos c (more ++ rest) = ⟨some (.symbol s), more.length, []⟩ := by
  have hsymbol : ∀ (more' : Nat), Symbol.read? c (more ++ rest) = some (s, more') →
      read pos c (more ++ rest) = symbol pos c (more ++ rest) →
        read pos c (more ++ rest) = ⟨some (.symbol s), more', []⟩ := by
    intro more' hsome hread
    rw [hread, symbol, hsome]
  cases s with
  | dot =>
    obtain ⟨rfl, rfl⟩ : c = '.' ∧ more = [] := by simpa [Symbol.text, eq_comm] using written
    refine hsymbol 0 ?_ rfl
    rw [List.nil_append, Symbol.read?, if_neg stop]
  | _ =>
    simp [Symbol.text] at written
    obtain ⟨rfl, rfl⟩ := written
    rfl

/-- A writable token is read from its display, if what follows is not taken for more of it. -/
theorem read_display {t : Token} (writable : t.Writable) {c : Char} {more rest : List Char}
    (written : t.display.toList = c :: more) (stop : t.EndsBefore rest) (pos : Nat) :
    read pos c (more ++ rest) = ⟨some t, more.length, []⟩ := by
  cases t with
  | ident n =>
    obtain ⟨d, ds, hn, hstart, hmore⟩ := writable
    obtain ⟨rfl, rfl⟩ : d = c ∧ ds = more := by simpa [Token.display, hn] using written
    rw [read_name hstart hmore stop, ← hn, String.ofList_toList]
  | dec n =>
    obtain ⟨d, ds, hn, hdigits⟩ := writable
    obtain ⟨rfl, rfl⟩ : d = c ∧ ds = more := by simpa [Token.display, hn] using written
    rw [read_dec hdigits stop, ← hn, String.ofList_toList]
  | hex n =>
    obtain ⟨d, ds, hn, hdigits⟩ := writable
    obtain ⟨rfl, rfl⟩ : '0' = c ∧ 'x' :: d :: ds = more := by
      simpa [Token.display, hn] using written
    rw [read_hex hdigits stop, ← hn, String.ofList_toList, hn]
    rfl
  | str text =>
    obtain ⟨rfl, rfl⟩ : '\'' = c ∧ text.toList.flatMap Quoted.literalChar ++ ['\''] = more := by
      simpa [Token.display, Quoted.literal] using written
    rw [List.append_assoc, List.singleton_append, read_literal, List.length_append]
    rfl
  | symbol s => exact read_symbol s written stop pos
  | invalid c => exact writable.elim
  | endOfFile => exact writable.elim

end Lexeme

/-- A writable token has a display that starts with a character other than a blank. -/
theorem Token.display_eq_cons {t : Token} (writable : t.Writable) :
    ∃ c more, t.display.toList = c :: more ∧ isBlank c = false ∧
      (t.isWord = false → Lexeme.isNameChar c = false) ∧
      (t ≠ .symbol .dot → t ≠ .symbol .dotDot → c ≠ '.') := by
  cases t with
  | ident n =>
    obtain ⟨c, cs, hn, hstart, -⟩ := writable
    have hname := Lexeme.isNameChar_of_startsName hstart
    exact ⟨c, cs, hn, Lexeme.not_isBlank_of_isNameChar hname, nofun,
      fun _ _ => Lexeme.ne_of_isNameChar hname (by decide)⟩
  | dec n =>
    obtain ⟨c, cs, hn, hdigits⟩ := writable
    have hname := Lexeme.isNameChar_of_isAsciiDigit (hdigits c (.head _))
    exact ⟨c, cs, hn, Lexeme.not_isBlank_of_isNameChar hname, nofun,
      fun _ _ => Lexeme.ne_of_isNameChar hname (by decide)⟩
  | hex n =>
    exact ⟨'0', 'x' :: n.toList, by simp [Token.display], by decide, nofun,
      fun _ _ => by decide⟩
  | str text =>
    exact ⟨'\'', text.toList.flatMap Quoted.literalChar ++ ['\''],
      by simp [Token.display, Quoted.literal], by decide, fun _ => by decide, fun _ _ => by decide⟩
  | symbol s =>
    cases s <;> simp [Token.display, Symbol.text] <;> decide
  | invalid c => exact writable.elim
  | endOfFile => exact writable.elim

/-- The display of a writable token ends with a character other than a blank. -/
theorem Token.display_eq_concat {t : Token} (writable : t.Writable) :
    ∃ cs c, t.display.toList = cs ++ [c] ∧ isBlank c = false := by
  have hlast : ∀ {c : Char} {cs : List Char}, (∀ d ∈ c :: cs, Lexeme.isNameChar d = true) →
      ∃ ds d, c :: cs = ds ++ [d] ∧ isBlank d = false := by
    intro c cs h
    refine ⟨(c :: cs).dropLast, (c :: cs).getLast (by simp), ?_, ?_⟩
    · rw [List.dropLast_concat_getLast]
    · exact Lexeme.not_isBlank_of_isNameChar (h _ (List.getLast_mem _))
  cases t with
  | ident n =>
    obtain ⟨c, cs, hn, hstart, hmore⟩ := writable
    rw [Token.display, hn]
    exact hlast (List.forall_mem_cons.2 ⟨Lexeme.isNameChar_of_startsName hstart, hmore⟩)
  | dec n =>
    obtain ⟨c, cs, hn, hdigits⟩ := writable
    rw [Token.display, hn]
    exact hlast fun d hd => Lexeme.isNameChar_of_isAsciiDigit (hdigits d hd)
  | hex n =>
    obtain ⟨c, cs, hn, hdigits⟩ := writable
    obtain ⟨ds, d, heq, hd⟩ :=
      hlast fun d hd => Lexeme.isNameChar_of_isAsciiHexDigit (hdigits d hd)
    exact ⟨'0' :: 'x' :: ds, d, by simp [Token.display, hn, heq], hd⟩
  | str text =>
    exact ⟨'\'' :: text.toList.flatMap Quoted.literalChar, '\'',
      by simp [Token.display, Quoted.literal], by decide⟩
  | symbol s =>
    cases s with
    | dotDot => exact ⟨['.'], '.', rfl, by decide⟩
    | arrow => exact ⟨['-'], '>', rfl, by decide⟩
    | _ => exact ⟨[], _, rfl, by decide⟩
  | invalid c => exact writable.elim
  | endOfFile => exact writable.elim

/-! ## The tokens of a text -/

namespace Lexeme

theorem writable_of_number {c : Char} (hc : isAsciiDigit c = true) (rest : List Char)
    {t : Token} (h : (number c rest).token? = some t) : t.Writable := by
  have hdecimal : Token.Writable (.dec (String.ofList (c :: rest.takeWhile isAsciiDigit))) := by
    refine ⟨c, rest.takeWhile isAsciiDigit, by simp, fun d hd => ?_⟩
    rcases List.mem_cons.1 hd with rfl | hd
    · exact hc
    · exact of_mem_takeWhile hd
  rw [number.eq_def] at h
  split at h
  · split at h
    · next hhex =>
      rw [Option.some.injEq] at h
      subst h
      refine ⟨_, _, String.toList_ofList, fun e he => ?_⟩
      rcases List.mem_cons.1 he with rfl | he
      · exact (Bool.and_eq_true _ _ ▸ hhex).2
      · exact of_mem_takeWhile he
    · rw [Option.some.injEq] at h
      exact h ▸ hdecimal
  · rw [Option.some.injEq] at h
    exact h ▸ hdecimal

/-- The token of a lexeme with which nothing is wrong is writable. -/
theorem writable_of_read {pos : Nat} {c : Char} {rest : List Char}
    (h : (read pos c rest).errors = []) {t : Token} (ht : (read pos c rest).token? = some t) :
    t.Writable := by
  rw [read] at h ht
  split at ht
  · contradiction
  split at ht
  · contradiction
  split at ht
  · rw [blockComment] at ht
    split at ht <;> contradiction
  split at ht
  · rw [literal, Option.some.injEq] at ht
    subst ht
    trivial
  split at ht
  · next hdigit => exact writable_of_number hdigit rest ht
  split at ht
  · next hstart =>
    rw [name, Option.some.injEq] at ht
    subst ht
    refine ⟨_, _, String.toList_ofList, hstart, fun d hd => ?_⟩
    exact of_mem_takeWhile hd
  · rw [symbol] at h ht
    split at ht
    · rw [Option.some.injEq] at ht
      subst ht
      trivial
    · simp [*] at h

end Lexeme

/-- The tokens of a text in which nothing is wrong are writable. -/
theorem Scan.writable_of_read {pos : Nat} {cs : List Char}
    (h : (Scan.read pos cs).errors = []) : ∀ t ∈ (Scan.read pos cs).placed, t.token.Writable := by
  match cs with
  | [] =>
    rw [Scan.read]
    simp
  | c :: rest =>
    rw [Scan.read] at h ⊢
    simp only [List.append_eq_nil_iff] at h
    have hrest := writable_of_read h.2
    intro t ht
    cases htoken : (Lexeme.read pos c rest).token? with
    | none =>
      simp only [htoken] at ht
      exact hrest t ht
    | some token =>
      simp only [htoken, List.mem_cons] at ht
      rcases ht with rfl | ht
      · exact Lexeme.writable_of_read h.1 htoken
      · exact hrest t ht
termination_by cs.length
decreasing_by
  simp only [List.length_drop, List.length_cons]
  omega

end Pegboard
