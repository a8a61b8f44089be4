import Pegboard.Proofs.Token.Display

/-!
# Scanning what was laid out

A row of tokens that is written out is scanned to the same tokens at the places where they were
written, if no token runs on into the next one.  Names and numbers run on into each other, and so do
points; blanks keep them apart, and it does not matter which blanks.

## Main Definitions

* `Layout.place`: the tokens of a row with their places.
* `Layout.Spaced`: no token of a row runs on into the next one.
* `Layout.Writes`: a text writes a row, with any blank for a blank.
* `Layout.trimmed`: a row without the blanks at its end.
* `Layout.separated`: tokens in a row, with a blank between each two.
* `Scan.display`: the displays of the tokens that scanning gives.

## Main Results

* `Scan.read_writes`: scanning what writes a row gives the tokens of the row at their places.
* `Layout.writes_text`: the text of a row writes it.
* `Layout.toList_trimBlanksRight`: trimming the text of a row is trimming the row.
* `scan_display`: scanning the display of a scan gives the same tokens.
-/

namespace Pegboard

open Unicode

namespace Piece

/-- How many characters a piece takes. -/
def width (x : Piece) : Nat := x.text.toList.length

/-- Whether a piece does not run on into the next one. -/
def apart : Piece → Piece → Bool
  | .token a, .token b =>
    !(a.isWord && b.isWord) &&
      !(a = .symbol .dot && (b = .symbol .dot || b = .symbol .dotDot))
  | _, _ => true

@[simp] theorem apart_blank_left (x : Piece) : apart .blank x = true := rfl

@[simp] theorem apart_blank_right (x : Piece) : apart x .blank = true := by
  cases x <;> rfl

end Piece

namespace Layout

/-! ## Rows and what they write -/

/-- How many characters a row takes. -/
def width : Layout → Nat
  | [] => 0
  | x :: row => x.width + width row

@[simp] theorem width_nil : width [] = 0 := rfl

@[simp] theorem width_cons (x : Piece) (row : Layout) :
    width (x :: row) = x.width + width row := rfl

@[simp] theorem width_append (a b : Layout) : width (a ++ b) = width a + width b := by
  induction a with
  | nil => simp
  | cons x a ih => simp [ih, Nat.add_assoc]

/-- The tokens of a row that starts at the offset `pos`, with their places. -/
def place (pos : Nat) : Layout → List PlacedToken
  | [] => []
  | .token t :: row =>
    ⟨t, ⟨pos, pos + (Piece.token t).width⟩⟩ :: place (pos + (Piece.token t).width) row
  | .blank :: row => place (pos + 1) row

theorem place_append (a b : Layout) (pos : Nat) :
    place pos (a ++ b) = place pos a ++ place (pos + a.width) b := by
  induction a generalizing pos with
  | nil => rfl
  | cons x a ih =>
    cases x with
    | token t => simp [place, ih, Nat.add_assoc]
    | blank =>
      have hblank : Piece.width .blank = 1 := rfl
      simp [place, ih, hblank, Nat.add_assoc]

/-- Whether no token of a row runs on into the next one. -/
def Spaced : Layout → Prop
  | [] => True
  | x :: row => (∀ y ∈ row.head?, x.apart y = true) ∧ Spaced row

/-- Whether all tokens of a row are writable. -/
def Writable (row : Layout) : Prop := ∀ t ∈ row.tokens, t.Writable

/-- Whether a text writes a row, with any blank for a blank. -/
def Writes : Layout → List Char → Prop
  | [], cs => cs = []
  | .token t :: row, cs => ∃ rest, cs = t.display.toList ++ rest ∧ Writes row rest
  | .blank :: row, cs => ∃ c rest, cs = c :: rest ∧ isBlank c = true ∧ Writes row rest

theorem writes_append {a b : Layout} {cs ds : List Char} (ha : a.Writes cs) (hb : b.Writes ds) :
    Writes (a ++ b) (cs ++ ds) := by
  induction a generalizing cs with
  | nil =>
    rw [show cs = [] from ha]
    exact hb
  | cons x a ih =>
    cases x with
    | token t =>
      obtain ⟨rest, rfl, hrest⟩ := ha
      exact ⟨rest ++ ds, by simp, ih hrest⟩
    | blank =>
      obtain ⟨c, rest, rfl, hc, hrest⟩ := ha
      exact ⟨c, rest ++ ds, rfl, hc, ih hrest⟩

theorem toList_text (row : Layout) : row.text.toList = row.flatMap fun x => x.text.toList := by
  rw [text, String.toList_join, List.flatMap_map]

/-- The text of a row writes it. -/
theorem writes_text (row : Layout) : row.Writes row.text.toList := by
  rw [toList_text]
  induction row with
  | nil => rfl
  | cons x row ih =>
    cases x with
    | token t => exact ⟨_, rfl, ih⟩
    | blank => exact ⟨' ', _, rfl, by decide, ih⟩

/-- What follows a token in a spaced row is not taken for more of it. -/
theorem endsBefore_of_writes {t : Token} {row : Layout} {rest : List Char}
    (spaced : Spaced (.token t :: row)) (writable : row.Writable) (h : row.Writes rest) :
    t.EndsBefore rest := by
  have hnext : (t.isWord = true → ∀ c ∈ rest.head?, Lexeme.isNameChar c = false) ∧
      (t = .symbol .dot → rest.head? ≠ some '.') := by
    cases row with
    | nil =>
      rw [show rest = [] from h]
      simp
    | cons y row =>
      cases y with
      | blank =>
        obtain ⟨c, rest, rfl, hc, -⟩ := h
        have hname := isNameChar_of_isBlank hc
        refine ⟨by simpa using fun _ => hname, ?_⟩
        rintro -
        rintro ⟨⟩
        exact absurd hc (by decide)
      | token u =>
        have hapart : (Piece.token t).apart (.token u) = true := spaced.1 _ rfl
        obtain ⟨rest, rfl, -⟩ := h
        obtain ⟨c, more, hc, -, hword, hdot⟩ :=
          Token.display_eq_cons (writable u (by simp [tokens, Piece.token?]))
        rw [hc]
        simp only [Piece.apart, Bool.and_eq_true, Bool.not_eq_true', Bool.and_eq_false_iff,
          Bool.or_eq_false_iff, decide_eq_false_iff_not] at hapart
        refine ⟨fun ht => ?_, fun ht => ?_⟩
        · have hu : u.isWord = false := hapart.1.resolve_left (by simp [ht])
          simpa using hword hu
        · have hu := hapart.2.resolve_left (by simp [ht])
          simpa using hdot hu.1 hu.2
  cases t with
  | ident n => exact hnext.1 rfl
  | dec n => exact hnext.1 rfl
  | hex n => exact hnext.1 rfl
  | symbol s =>
    cases s with
    | dot => exact hnext.2 rfl
    | _ => trivial
  | _ => trivial

end Layout

/-- Scanning what writes a row gives the tokens of the row at their places. -/
theorem Scan.read_writes (row : Layout) {cs : List Char} (h : row.Writes cs)
    (spaced : row.Spaced) (writable : row.Writable) (pos : Nat) :
    Scan.read pos cs = ⟨row.place pos, [], pos + cs.length⟩ := by
  induction row generalizing pos cs with
  | nil =>
    rw [show cs = [] from h, Scan.read]
    rfl
  | cons x row ih =>
    cases x with
    | blank =>
      obtain ⟨c, rest, rfl, hc, hrest⟩ := h
      have hread : Lexeme.read pos c rest = ⟨none, 0, []⟩ := by rw [Lexeme.read, if_pos hc]
      rw [Scan.read, hread]
      simp only [List.drop_zero, Nat.add_zero]
      rw [ih hrest spaced.2 writable]
      simp [Layout.place, Nat.add_comm, Nat.add_left_comm]
    | token t =>
      have htail : Layout.Writable row := fun u hu => writable u (by
        simp only [Layout.tokens, List.filterMap_cons, Piece.token?, List.mem_cons]
        exact .inr hu)
      have hhead : t.Writable := writable t (by simp [Layout.tokens, Piece.token?])
      obtain ⟨rest, rfl, hrest⟩ := h
      obtain ⟨c, more, hc, -⟩ := Token.display_eq_cons hhead
      have hwidth : (Piece.token t).width = 1 + more.length := by
        rw [Piece.width, Piece.text, hc, List.length_cons, Nat.add_comm]
      rw [hc, List.cons_append, Scan.read,
        Lexeme.read_display hhead hc (Layout.endsBefore_of_writes spaced htail hrest)]
      simp only [List.drop_left]
      rw [ih hrest spaced.2 htail]
      simp only [Layout.place, hwidth, List.nil_append, List.length_cons, List.length_append,
        Scan.mk.injEq, true_and]
      omega

namespace Layout

/-! ## Trimming -/

/-- A row without the blanks at its end. -/
def trimmed : Layout → Layout
  | [] => []
  | .token t :: row => .token t :: trimmed row
  | .blank :: row => if (trimmed row).isEmpty then [] else .blank :: trimmed row

/-- The blanks at the end of a row hold no tokens. -/
theorem place_trimmed (row : Layout) (pos : Nat) : (trimmed row).place pos = row.place pos := by
  induction row generalizing pos with
  | nil => rfl
  | cons x row ih =>
    cases x with
    | token t => simp [trimmed, place, ih]
    | blank =>
      rw [trimmed]
      split
      · next hempty =>
        have htail := ih (pos + 1)
        rw [List.isEmpty_iff.1 hempty] at htail
        exact htail
      · rw [place, place, ih]

theorem spaced_trimmed {row : Layout} (h : row.Spaced) : (trimmed row).Spaced := by
  induction row with
  | nil => trivial
  | cons x row ih =>
    have hhead : ∀ y ∈ (trimmed row).head?, x.apart y = true := by
      intro y hy
      cases row with
      | nil => simp [trimmed] at hy
      | cons z row =>
        cases z with
        | token t =>
          obtain rfl : Piece.token t = y := by simpa [trimmed] using hy
          exact h.1 _ rfl
        | blank =>
          rw [trimmed] at hy
          split at hy
          · simp at hy
          · obtain rfl : Piece.blank = y := by simpa using hy
            simp
    cases x with
    | token t => exact ⟨hhead, ih h.2⟩
    | blank =>
      rw [trimmed]
      split
      · trivial
      · exact ⟨hhead, ih h.2⟩

theorem tokens_trimmed (row : Layout) : (trimmed row).tokens = row.tokens := by
  induction row with
  | nil => rfl
  | cons x row ih =>
    cases x with
    | token t => exact congrArg (t :: ·) ih
    | blank =>
      rw [trimmed]
      split
      · next hempty =>
        rw [List.isEmpty_iff.1 hempty] at ih
        exact ih
      · exact ih

/-- Trimming a text that goes on after a character other than a blank is trimming the rest. -/
theorem trim_append {as cs : List Char} {c : Char} (hc : isBlank c = false) :
    (((as ++ [c]) ++ cs).reverse.dropWhile isBlank).reverse
      = (as ++ [c]) ++ (cs.reverse.dropWhile isBlank).reverse := by
  rw [List.reverse_append, List.dropWhile_append]
  split
  · next hempty =>
    rw [List.isEmpty_iff.1 hempty]
    simp [hc]
  · simp

/-- A text that starts with a blank is trimmed to nothing if the rest is. -/
theorem trim_cons_blank {cs : List Char} {c : Char} (hc : isBlank c = true) :
    ((c :: cs).reverse.dropWhile isBlank).reverse
      = if (cs.reverse.dropWhile isBlank).isEmpty then []
        else c :: (cs.reverse.dropWhile isBlank).reverse := by
  rw [List.reverse_cons, List.dropWhile_append]
  split
  · simp [hc]
  · simp

/-- Trimming the text of a row is trimming the row. -/
theorem toList_trimBlanksRight {row : Layout} (writable : row.Writable) :
    (trimBlanksRight row.text).toList = (trimmed row).text.toList := by
  rw [trimBlanksRight, String.toList_ofList, toList_text, toList_text]
  induction row with
  | nil => rfl
  | cons x row ih =>
    have htail : Writable row := fun u hu => writable u (by
      simp only [tokens, List.filterMap_cons]
      cases x with
      | token t => exact .tail _ hu
      | blank => exact hu)
    cases x with
    | token t =>
      obtain ⟨as, c, hdisplay, hc⟩ :=
        Token.display_eq_concat (writable t (by simp [tokens, Piece.token?]))
      rw [trimmed, List.flatMap_cons, List.flatMap_cons, ← ih htail]
      simp only [Piece.text, hdisplay, trim_append hc]
    | blank =>
      have hblank : Piece.blank.text.toList = [' '] := rfl
      have hempty : ∀ row : Layout, (row.flatMap fun x => x.text.toList).isEmpty = true →
          row.Writable → row = [] := by
        intro row hrow hw
        cases row with
        | nil => rfl
        | cons x row =>
          cases x with
          | blank => simp [hblank] at hrow
          | token t =>
            obtain ⟨as, c, hdisplay, -⟩ :=
              Token.display_eq_concat (hw t (by simp [tokens, Piece.token?]))
            simp [Piece.text, hdisplay] at hrow
      have htrim := ih htail
      rw [List.flatMap_cons, hblank, List.singleton_append, trim_cons_blank (by decide), trimmed]
      have hiff : ((row.flatMap fun x => x.text.toList).reverse.dropWhile isBlank).isEmpty
          = (trimmed row).isEmpty := by
        rw [← List.isEmpty_reverse, htrim]
        cases htrimmed : trimmed row with
        | nil => rfl
        | cons y row' =>
          cases hflat : ((y :: row').flatMap fun x => x.text.toList).isEmpty with
          | false => rfl
          | true =>
            have hw : Writable (y :: row') := by
              rw [← htrimmed]
              exact fun u hu => htail u (by rwa [tokens_trimmed] at hu)
            exact absurd (hempty _ hflat hw) (by simp)
      rw [hiff]
      split
      · rfl
      · rw [htrim, List.flatMap_cons, hblank]
        rfl

/-! ## Tokens with a blank between each two -/

/-- Tokens in a row, with a blank between each two. -/
def separated : List Token → Layout
  | [] => []
  | [t] => [.token t]
  | t :: u :: us => .token t :: .blank :: separated (u :: us)

theorem tokens_separated (ts : List Token) : (separated ts).tokens = ts := by
  induction ts using separated.induct with
  | case1 => rfl
  | case2 t => rfl
  | case3 t u us ih => exact congrArg (t :: ·) ih

/-- Blanks keep all tokens apart. -/
theorem spaced_separated (ts : List Token) : (separated ts).Spaced := by
  induction ts using separated.induct with
  | case1 => trivial
  | case2 t => exact ⟨by simp, trivial⟩
  | case3 t u us ih => exact ⟨by simp, by simp, ih⟩

theorem text_separated (ts : List Token) :
    (separated ts).text = " ".intercalate (ts.map (·.display)) := by
  induction ts using separated.induct with
  | case1 => rfl
  | case2 t => simp [separated, text, Piece.text]
  | case3 t u us ih =>
    rw [List.map_cons, List.map_cons, String.intercalate_cons_cons, ← List.map_cons, ← ih]
    simp [separated, text, Piece.text, String.append_assoc]

theorem map_token_place (row : Layout) (pos : Nat) :
    (row.place pos).map (·.token) = row.tokens := by
  induction row generalizing pos with
  | nil => rfl
  | cons x row ih =>
    cases x with
    | token t => exact congrArg (t :: ·) (ih _)
    | blank => exact ih _

end Layout

/-! ## The display of a scan -/

/-- The displays of the tokens that scanning gives, the end excluded, with a blank between each
two. -/
def Scan.display (s : Scan) : String := " ".intercalate (s.placed.map (·.token.display))

namespace Scan

theorem display_eq_text (s : Scan) :
    s.display = (Layout.separated (s.placed.map (·.token))).text := by
  rw [Layout.text_separated, List.map_map]
  rfl

theorem diagnostics_eq_nil_iff (s : Scan) : s.diagnostics = [] ↔ s.errors = [] := by
  simp [diagnostics]

theorem map_token_tokens (s : Scan) :
    s.tokens.map (·.token) = s.placed.map (·.token) ++ [.endOfFile] := by
  simp [tokens]

end Scan

/-- Tokens that are written with a blank between each two are scanned to the same tokens. -/
theorem scan_separated {ts : List Token} (writable : ∀ t ∈ ts, t.Writable) :
    scan (Layout.separated ts).text = ⟨(Layout.separated ts).place 0, [],
      (Layout.separated ts).text.toList.length⟩ := by
  have h := Scan.read_writes (Layout.separated ts) (Layout.separated ts).writes_text
    (Layout.spaced_separated ts) (by rwa [Layout.Writable, Layout.tokens_separated]) 0
  rwa [Nat.zero_add] at h

/-- The displays of the tokens of a text, with a blank between each two, are scanned to the same
tokens if nothing is wrong with the text.  A quoted text is scanned to the one literal that denotes
it. -/
theorem scan_display :
    (∀ text, (scan text).diagnostics = [] →
      (scan (scan text).display).diagnostics = [] ∧
        (scan (scan text).display).tokens.map (·.token) = (scan text).tokens.map (·.token)) ∧
    ∀ s, (scan (Quoted.literal s)).diagnostics = [] ∧
      (scan (Quoted.literal s)).tokens.map (·.token) = [.str s, .endOfFile] := by
  refine ⟨fun text clean => ?_, fun s => ?_⟩
  · have writable : ∀ t ∈ (scan text).placed.map (·.token), t.Writable :=
      List.forall_mem_map.2 (Scan.writable_of_read ((Scan.diagnostics_eq_nil_iff _).1 clean))
    rw [Scan.display_eq_text, scan_separated writable]
    exact ⟨rfl, by simp only [Scan.map_token_tokens, Layout.map_token_place,
      Layout.tokens_separated]⟩
  · have hdisplay : Quoted.literal s = (Layout.separated [.str s]).text := by
      simp [Layout.text_separated, Token.display]
    rw [hdisplay, scan_separated (by simp [Token.Writable])]
    exact ⟨rfl, rfl⟩

/-- Hexadecimal digits in upper case, a literal in double quotes and a comment. -/
theorem scan_display_mixed :
    let text := "a= \"it's\" 0X1F..b // note\n.c"
    (scan text).display = "a = 'it\\'s' 0x1F .. b . c" ∧
      (scan (scan text).display).diagnostics = [] ∧
      (scan (scan text).display).tokens.map (·.token) = (scan text).tokens.map (·.token) :=
  ⟨by decide +kernel, scan_display.1 _ (by decide +kernel)⟩

end Pegboard
