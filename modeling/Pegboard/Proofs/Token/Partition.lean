import Pegboard.Proofs.Token.Literal
import Pegboard.Proofs.Token.Places

/-!
# How scanning divides a text

Scanning goes through a text from left to right and takes every character once: as a blank, or into
a comment, or into a token.  So a text is divided into stretches, of which the tokens are those that
are kept, and something is wrong with the text only if something is wrong with one of its stretches:
a token that is invalid, a literal that is not closed or has an escape that stands for nothing, a
comment without end.

What comments and tokens are is said of the characters of a stretch and of what follows it, with no
mention of how they are read.

## Main Definitions

* `ClosedComment`, `OpenComment`: the two kinds of comments.
* `Token.Spelled`: how a token stands in a text.
* `Token.Sound`: whether a token is in order.
* `Divides`: a text as tokens, comments and blanks in a row.
* `Scan.Partitions`: what it means for the places of tokens that scanning divides a text.

## Main Results

* `Lexeme.shaped_read`: every lexeme is a blank, a comment or a token.
* `Scan.accounts_read`: scanning divides a text, and tells what is wrong with it.
* `scan_partitions`: the same, by the places of tokens and comments.
-/

namespace Pegboard

open Numeral Unicode

/-! ## Stretches -/

namespace Span

/-- The characters of a stretch of the text `cs`. -/
def text (s : Span) (cs : List Char) : List Char := (cs.drop s.lo).take (s.hi - s.lo)

/-- Whether the character at an offset belongs to a stretch. -/
def Covers (s : Span) (i : Nat) : Prop := s.lo ≤ i ∧ i < s.hi

end Span

/-! ## Comments -/

/-- A comment and what follows it in the text.  A line comment goes up to the end of the line, a
block comment up to the first `*/` after its `/*`. -/
inductive ClosedComment : List Char → List Char → Prop where
  | line {body rest : List Char} (inLine : '\n' ∉ body) (ends : ∀ c ∈ rest.head?, c = '\n') :
      ClosedComment ('/' :: '/' :: body) rest
  | block {body rest : List Char} (first : ¬ ['*', '/'] <:+: body ++ ['*']) :
      ClosedComment ('/' :: '*' :: body ++ ['*', '/']) rest

/-- A block comment that has no end.  Nothing follows it. -/
inductive OpenComment : List Char → List Char → Prop where
  | block {body : List Char} (endless : ¬ ['*', '/'] <:+: body) :
      OpenComment ('/' :: '*' :: body) []

theorem OpenComment.rest_eq_nil {w rest : List Char} (h : OpenComment w rest) : rest = [] := by
  cases h
  rfl

theorem OpenComment.not_closed {w rest : List Char} (h : OpenComment w rest) :
    ¬ ClosedComment w rest := by
  cases h with
  | @block body endless =>
    intro closed
    generalize hw : '/' :: '*' :: body = w at closed
    cases closed with
    | line =>
      have second : '*' = '/' := (List.cons.inj (List.cons.inj hw).2).1
      exact absurd second (by decide)
    | @block inner first =>
      obtain rfl : body = inner ++ ['*', '/'] := by simpa using hw
      exact endless (List.suffix_append _ _).isInfix

theorem infix_cons_iff_of_ne {c : Char} {cs : List Char}
    (h : ∀ rest, c :: cs ≠ '*' :: '/' :: rest) :
    ['*', '/'] <:+: c :: cs ↔ ['*', '/'] <:+: cs := by
  rw [List.infix_cons_iff]
  exact or_iff_right fun ⟨rest, hrest⟩ => h rest hrest.symm

theorem not_infix_of_blockCommentLength? {cs : List Char} (h : blockCommentLength? cs = none) :
    ¬ ['*', '/'] <:+: cs := by
  fun_induction blockCommentLength? cs with
  | case1 => simp
  | case2 => contradiction
  | case3 c rest other ih =>
    have later := ih (Option.map_eq_none_iff.1 h)
    rwa [infix_cons_iff_of_ne]
    intro tail heq
    obtain ⟨hc, htail⟩ := List.cons.inj heq
    exact other tail hc htail

theorem take_of_blockCommentLength? {cs : List Char} {n : Nat}
    (h : blockCommentLength? cs = some n) :
    ∃ body, cs.take n = body ++ ['*', '/'] ∧ ¬ ['*', '/'] <:+: body ++ ['*'] := by
  fun_induction blockCommentLength? cs generalizing n with
  | case1 => contradiction
  | case2 rest =>
    obtain rfl := Option.some.inj h
    exact ⟨[], rfl, by decide⟩
  | case3 c rest other ih =>
    obtain ⟨m, hm, rfl⟩ := Option.map_eq_some_iff.1 h
    obtain ⟨body, htake, first⟩ := ih hm
    refine ⟨c :: body, by rw [List.take_succ_cons, htake, List.cons_append], ?_⟩
    rwa [List.cons_append, infix_cons_iff_of_ne]
    -- An end that starts at `c` would have been taken for the end.
    intro tail heq
    obtain ⟨hc, htail⟩ := List.cons.inj heq
    refine other (tail ++ '/' :: rest.drop m) hc ?_
    calc rest = rest.take m ++ rest.drop m := (List.take_append_drop m rest).symm
      _ = (body ++ ['*']) ++ '/' :: rest.drop m := by rw [htake]; simp
      _ = '/' :: (tail ++ '/' :: rest.drop m) := by rw [htail, List.cons_append]

/-! ## Tokens -/

namespace Token

/-- How a token is spelled in a text.  A name, a number or a symbol is spelled by what it holds, and
a literal starts with a quote.  The end of the text has no characters. -/
def Spelled (w : List Char) : Token → Prop
  | .ident name => w = name.toList
  | .str _ => ∃ quote rest, (quote = '\'' ∨ quote = '"') ∧ w = quote :: rest
  | .dec digits => w = digits.toList
  | .hex digits => ∃ x, (x = 'x' ∨ x = 'X') ∧ w = '0' :: x :: digits.toList
  | .symbol s => w = s.text.toList
  | .invalid c => w = [c]
  | .endOfFile => False

/-- Whether a token that is spelled so is in order.  It is not invalid; and if it is a literal, then
the quote that opens it closes it, and what stands between the two denotes its text, so that every
escape in it is well-formed. -/
def Sound (w : List Char) : Token → Prop
  | .invalid _ => False
  | .str text => ∃ quote body, (quote = '\'' ∨ quote = '"') ∧ w = quote :: (body ++ [quote]) ∧
      LiteralBody.Denotes quote body text.toList
  | _ => True

end Token

/-! ## Lexemes -/

namespace Lexeme

/-- What a lexeme is that takes the characters `w` before `rest`: a blank, a comment or a token.
There are errors if it is a comment without end, or a token that is not in order. -/
inductive Shape (x : Lexeme) (w rest : List Char) : Prop where
  | blank {c : Char} (is : x = ⟨none, 0, []⟩) (written : w = [c]) (h : isBlank c = true)
  | closed (none : x.token? = none) (fine : x.errors = []) (h : ClosedComment w rest)
  | «open» (none : x.token? = none) (wrong : x.errors ≠ []) (h : OpenComment w rest)
  | token {t : Token} (some : x.token? = some t) (spelled : t.Spelled w)
      (sound : x.errors = [] ↔ t.Sound w)

/-- Whether a lexeme that starts with the character `c` has a shape. -/
def Shaped (x : Lexeme) (c : Char) (rest : List Char) : Prop :=
  x.Shape (c :: rest.take x.more) (rest.drop x.more)

theorem shaped_lineComment {rest : List Char} (opened : rest.head? = some '/') :
    Shaped ⟨none, (rest.takeWhile (· ≠ '\n')).length, []⟩ '/' rest := by
  obtain ⟨rest, rfl⟩ := List.head?_eq_some_iff.1 opened
  obtain ⟨body, more, rfl, htake, inLine, ends⟩ := exists_takeWhile (· ≠ '\n') rest
  have hbody : ('/' :: (body ++ more)).takeWhile (· ≠ '\n') = '/' :: body := by
    rw [List.takeWhile_cons_of_pos (by decide), htake]
  rw [hbody]
  refine .closed rfl rfl ?_
  show ClosedComment ('/' :: ('/' :: body ++ more).take ('/' :: body).length)
    (('/' :: body ++ more).drop ('/' :: body).length)
  rw [List.take_left, List.drop_left]
  refine .line (fun h => ?_) fun c hc => ?_
  · simpa using inLine _ h
  · simpa using ends c hc

theorem shaped_blockComment (pos : Nat) {rest : List Char} (opened : rest.head? = some '*') :
    (blockComment pos rest).Shaped '/' rest := by
  obtain ⟨rest, rfl⟩ := List.head?_eq_some_iff.1 opened
  unfold blockComment
  split
  · next n hn =>
    obtain ⟨body, htake, first⟩ := take_of_blockCommentLength? hn
    refine .closed rfl rfl ?_
    show ClosedComment ('/' :: ('*' :: rest).take (1 + n)) _
    rw [Nat.add_comm, List.take_succ_cons, show rest.take n = _ from htake]
    exact .block first
  · next hnone =>
    refine .open rfl (by simp) ?_
    show OpenComment ('/' :: ('*' :: rest).take ('*' :: rest).length)
      (('*' :: rest).drop ('*' :: rest).length)
    rw [List.take_length, List.drop_length]
    exact .block (not_infix_of_blockCommentLength? hnone)

theorem shaped_literal {quote : Char} (hquote : quote = '\'' ∨ quote = '"') (pos : Nat)
    (rest : List Char) : (literal quote pos rest).Shaped quote rest := by
  refine .token rfl ⟨quote, _, hquote, rfl⟩ ⟨fun fine => ?_, fun sound => ?_⟩
  · simp only [literal, List.append_eq_nil_iff, ite_eq_left_iff, List.cons_ne_nil, imp_false,
      Bool.not_eq_true, Bool.not_eq_false] at fine
    obtain ⟨body, htake, denotes⟩ := LiteralBody.denotes_of_read fine.2 fine.1
    refine ⟨quote, body, hquote, congrArg (quote :: ·) htake, ?_⟩
    rw [String.toList_ofList]
    exact denotes
  · obtain ⟨_, body, -, htake, denotes⟩ := sound
    obtain ⟨rfl, htake⟩ := List.cons.inj htake
    have backslash : quote ≠ '\\' := by rcases hquote with rfl | rfl <;> decide
    have hread := LiteralBody.read_of_denotes backslash denotes (pos + 1)
      (rest.drop (literal quote pos rest).more)
    rw [List.append_cons, ← htake, List.take_append_drop] at hread
    rw [literal, hread]
    rfl

theorem shaped_dec (c : Char) (rest : List Char) :
    Shaped ⟨some (.dec (String.ofList (c :: rest.takeWhile isAsciiDigit))),
      (rest.takeWhile isAsciiDigit).length, []⟩ c rest := by
  obtain ⟨digits, more, rfl, htake, -⟩ := exists_takeWhile isAsciiDigit rest
  rw [htake]
  refine .token rfl ?_ (by simp [Token.Sound])
  simp [Token.Spelled]

theorem shaped_number (c : Char) (rest : List Char) : (number c rest).Shaped c rest := by
  unfold number
  split
  · next x d rest =>
    split
    · next h =>
      obtain ⟨digits, more, rfl, htake, -⟩ := exists_takeWhile isAsciiHexDigit rest
      rw [htake]
      refine .token rfl ⟨x, by simpa using (Bool.and_eq_true_iff.1 h).1, ?_⟩
        (by simp [Token.Sound])
      have hlength : 1 + (d :: digits).length = (x :: d :: digits).length := Nat.add_comm _ _
      show _ :: (x :: d :: digits ++ more).take (1 + (d :: digits).length) = _
      rw [hlength, List.take_left, String.toList_ofList]
    · exact shaped_dec _ _
  · exact shaped_dec _ _

theorem shaped_name (c : Char) (rest : List Char) : (name c rest).Shaped c rest := by
  obtain ⟨more, after, rfl, htake, -⟩ := exists_takeWhile isNameChar rest
  rw [name, htake]
  refine .token rfl ?_ (by simp [Token.Sound])
  simp [Token.Spelled]

/-- A symbol that is read takes the characters that it is written with. -/
theorem text_of_read? {c : Char} {rest : List Char} {s : Symbol} {more : Nat}
    (h : Symbol.read? c rest = some (s, more)) : c :: rest.take more = s.text.toList := by
  unfold Symbol.read? at h
  split at h
  case h_15 | h_16 =>
    split at h
    · next second =>
      obtain ⟨tail, rfl⟩ := List.head?_eq_some_iff.1 second
      cases h
      rfl
    · cases h <;> rfl
  case h_17 => contradiction
  all_goals
    cases h
    rfl

theorem shaped_symbol (pos : Nat) (c : Char) (rest : List Char) :
    (symbol pos c rest).Shaped c rest := by
  unfold symbol
  split
  · next s more hread => exact .token rfl (text_of_read? hread) (by simp [Token.Sound])
  · exact .token rfl rfl (by simp [Token.Sound])

/-- Every lexeme is a blank, a comment or a token. -/
theorem shaped_read (pos : Nat) (c : Char) (rest : List Char) :
    (read pos c rest).Shaped c rest := by
  unfold read
  split
  · next h => exact .blank rfl rfl h
  split
  · next h =>
    rw [Bool.and_eq_true, decide_eq_true_eq, decide_eq_true_eq] at h
    obtain ⟨rfl, opened⟩ := h
    exact shaped_lineComment opened
  split
  · next h =>
    rw [Bool.and_eq_true, decide_eq_true_eq, decide_eq_true_eq] at h
    obtain ⟨rfl, opened⟩ := h
    exact shaped_blockComment pos opened
  split
  · next h => exact shaped_literal (by simpa using h) pos rest
  split
  · exact shaped_number c rest
  split
  · exact shaped_name c rest
  · exact shaped_symbol pos c rest

end Lexeme

/-! ## Divided texts -/

/-- Whether a stretch of the text `cs` is a comment that has its end. -/
def Span.IsClosedComment (cs : List Char) (k : Span) : Prop :=
  ClosedComment (k.text cs) (cs.drop k.hi)

/-- Whether a stretch of the text `cs` is a comment without end. -/
def Span.IsOpenComment (cs : List Char) (k : Span) : Prop :=
  OpenComment (k.text cs) (cs.drop k.hi)

/-- The text `cs` from an offset on: tokens and comments in the order in which they stand, and
nothing between them but blanks. -/
inductive Divides (cs : List Char) : Nat → List PlacedToken → List Span → Prop where
  | done : Divides cs cs.length [] []
  | blank {pos : Nat} {c : Char} {placed : List PlacedToken} {comments : List Span}
      (here : cs[pos]? = some c) (h : isBlank c = true)
      (later : Divides cs (pos + 1) placed comments) : Divides cs pos placed comments
  | comment {k : Span} {placed : List PlacedToken} {comments : List Span} (some : k.lo < k.hi)
      (h : k.IsClosedComment cs ∨ k.IsOpenComment cs) (later : Divides cs k.hi placed comments) :
      Divides cs k.lo placed (k :: comments)
  | token {t : PlacedToken} {placed : List PlacedToken} {comments : List Span}
      (some : t.span.lo < t.span.hi) (spelled : t.token.Spelled (t.span.text cs))
      (later : Divides cs t.span.hi placed comments) : Divides cs t.span.lo (t :: placed) comments

namespace Divides

variable {cs : List Char} {pos : Nat} {placed : List PlacedToken} {comments : List Span}

theorem le_length (h : Divides cs pos placed comments) : pos ≤ cs.length := by
  induction h with
  | done => exact Nat.le_refl _
  | blank _ _ _ ih => exact Nat.le_of_succ_le ih
  | comment some _ _ ih | token some _ _ ih => exact Nat.le_trans (Nat.le_of_lt some) ih

theorem of_mem_placed (h : Divides cs pos placed comments) : ∀ t ∈ placed,
    pos ≤ t.span.lo ∧ t.span.lo < t.span.hi ∧ t.span.hi ≤ cs.length ∧
      t.token.Spelled (t.span.text cs) := by
  induction h with
  | done => simp
  | blank _ _ _ ih => exact fun t ht => ⟨Nat.le_of_succ_le (ih t ht).1, (ih t ht).2⟩
  | comment some _ _ ih =>
    exact fun t ht => ⟨Nat.le_trans (Nat.le_of_lt some) (ih t ht).1, (ih t ht).2⟩
  | token some spelled later ih =>
    refine List.forall_mem_cons.2 ⟨⟨Nat.le_refl _, some, later.le_length, spelled⟩, fun t ht => ?_⟩
    exact ⟨Nat.le_trans (Nat.le_of_lt some) (ih t ht).1, (ih t ht).2⟩

theorem of_mem_comments (h : Divides cs pos placed comments) : ∀ k ∈ comments,
    pos ≤ k.lo ∧ k.lo < k.hi ∧ k.hi ≤ cs.length ∧
      (k.IsClosedComment cs ∨ k.IsOpenComment cs) := by
  induction h with
  | done => simp
  | blank _ _ _ ih => exact fun k hk => ⟨Nat.le_of_succ_le (ih k hk).1, (ih k hk).2⟩
  | token some _ _ ih =>
    exact fun k hk => ⟨Nat.le_trans (Nat.le_of_lt some) (ih k hk).1, (ih k hk).2⟩
  | comment some h later ih =>
    refine List.forall_mem_cons.2 ⟨⟨Nat.le_refl _, some, later.le_length, h⟩, fun k hk => ?_⟩
    exact ⟨Nat.le_trans (Nat.le_of_lt some) (ih k hk).1, (ih k hk).2⟩

theorem placed_pairwise (h : Divides cs pos placed comments) :
    placed.Pairwise fun t u => t.span.hi ≤ u.span.lo := by
  induction h with
  | done => exact .nil
  | blank _ _ _ ih | comment _ _ _ ih => exact ih
  | token _ _ later ih => exact .cons (fun u hu => (later.of_mem_placed u hu).1) ih

theorem comments_pairwise (h : Divides cs pos placed comments) :
    comments.Pairwise fun k l => k.hi ≤ l.lo := by
  induction h with
  | done => exact .nil
  | blank _ _ _ ih | token _ _ _ ih => exact ih
  | comment _ _ later ih => exact .cons (fun l hl => (later.of_mem_comments l hl).1) ih

/-- A token and a comment do not overlap. -/
theorem apart (h : Divides cs pos placed comments) : ∀ t ∈ placed, ∀ k ∈ comments,
    t.span.hi ≤ k.lo ∨ k.hi ≤ t.span.lo := by
  induction h with
  | done => simp
  | blank _ _ _ ih => exact ih
  | comment _ _ later ih =>
    exact fun t ht => List.forall_mem_cons.2 ⟨.inr (later.of_mem_placed t ht).1, ih t ht⟩
  | token _ _ later ih =>
    exact List.forall_mem_cons.2 ⟨fun k hk => .inl (later.of_mem_comments k hk).1, ih⟩

/-- No character is left out. -/
theorem covered (h : Divides cs pos placed comments) {i : Nat} (hi : pos ≤ i)
    (inside : i < cs.length) : (∃ t ∈ placed, t.span.Covers i) ∨ (∃ k ∈ comments, k.Covers i) ∨
      ∃ c, cs[i]? = some c ∧ isBlank c = true := by
  induction h with
  | done => exact absurd inside (Nat.not_lt_of_le hi)
  | @blank pos c _ _ here blank later ih =>
    rcases Nat.eq_or_lt_of_le hi with rfl | hi
    · exact .inr (.inr ⟨c, here, blank⟩)
    · exact ih hi
  | @comment k _ _ some _ later ih =>
    rcases Nat.lt_or_ge i k.hi with hlt | hge
    · exact .inr (.inl ⟨k, .head _, hi, hlt⟩)
    · exact (ih hge).imp_right (.imp_left fun ⟨l, hl, covers⟩ => ⟨l, .tail _ hl, covers⟩)
  | @token t _ _ some _ later ih =>
    rcases Nat.lt_or_ge i t.span.hi with hlt | hge
    · exact .inl ⟨t, .head _, hi, hlt⟩
    · exact (ih hge).imp_left fun ⟨u, hu, covers⟩ => ⟨u, .tail _ hu, covers⟩

/-- Only the last comment may have no end, for nothing follows one without end. -/
theorem closed_of_mem_dropLast (h : Divides cs pos placed comments) :
    ∀ k ∈ comments.dropLast, k.IsClosedComment cs := by
  induction h with
  | done => simp
  | blank _ _ _ ih | token _ _ _ ih => exact ih
  | @comment k _ comments _ h later ih =>
    cases comments with
    | nil => simp
    | cons l comments =>
      rw [List.dropLast_cons_cons]
      refine List.forall_mem_cons.2 ⟨h.resolve_right fun hopen => ?_, ih⟩
      obtain ⟨first, proper, inside, -⟩ := later.of_mem_comments l (.head _)
      have last : cs.length ≤ k.hi := List.drop_eq_nil_iff.1 hopen.rest_eq_nil
      omega

end Divides

/-! ## Scanning -/

namespace Scan

/-- The text `cs` is divided from an offset on, and there are errors just if something is wrong with
one of its tokens or comments. -/
def Accounts (cs : List Char) (pos : Nat) (placed : List PlacedToken) (errors : List SyntaxError) :
    Prop :=
  ∃ comments, Divides cs pos placed comments ∧
    (errors = [] ↔ (∀ t ∈ placed, t.token.Sound (t.span.text cs)) ∧
      ∀ k ∈ comments, k.IsClosedComment cs)

namespace Accounts

variable {cs : List Char} {pos stop : Nat} {placed : List PlacedToken}
  {errors wrong : List SyntaxError}

theorem nil (cs : List Char) : Accounts cs cs.length [] [] := ⟨[], .done, by simp⟩

theorem blank (later : Accounts cs (pos + 1) placed errors) {c : Char} (here : cs[pos]? = some c)
    (h : isBlank c = true) : Accounts cs pos placed errors := by
  obtain ⟨comments, later, sound⟩ := later
  exact ⟨comments, .blank here h later, sound⟩

theorem closedComment (later : Accounts cs stop placed errors) (some : pos < stop)
    (h : Span.IsClosedComment cs ⟨pos, stop⟩) : Accounts cs pos placed errors := by
  obtain ⟨comments, later, sound⟩ := later
  refine ⟨⟨pos, stop⟩ :: comments, .comment (k := ⟨pos, stop⟩) some (.inl h) later, ?_⟩
  rw [sound, List.forall_mem_cons, and_iff_right h]

theorem openComment (later : Accounts cs stop placed errors) (some : pos < stop)
    (h : Span.IsOpenComment cs ⟨pos, stop⟩) (hwrong : wrong ≠ []) :
    Accounts cs pos placed (wrong ++ errors) := by
  obtain ⟨comments, later, -⟩ := later
  refine ⟨⟨pos, stop⟩ :: comments, .comment (k := ⟨pos, stop⟩) some (.inr h) later, ?_⟩
  refine iff_of_false (fun fine => hwrong (List.append_eq_nil_iff.1 fine).1) fun ⟨_, closed⟩ => ?_
  exact h.not_closed (closed _ (.head _))

theorem token (later : Accounts cs stop placed errors) (some : pos < stop) {t : Token}
    (spelled : t.Spelled (Span.text ⟨pos, stop⟩ cs))
    (sound : wrong = [] ↔ t.Sound (Span.text ⟨pos, stop⟩ cs)) :
    Accounts cs pos (⟨t, ⟨pos, stop⟩⟩ :: placed) (wrong ++ errors) := by
  obtain ⟨comments, later, laterSound⟩ := later
  refine ⟨comments, .token (t := ⟨t, ⟨pos, stop⟩⟩) some spelled later, ?_⟩
  rw [List.append_eq_nil_iff, sound, laterSound, List.forall_mem_cons, and_assoc]

end Accounts

/-- What is scanned from an offset on divides the text from there on. -/
theorem accounts_read {cs rest : List Char} {pos : Nat} (hpos : pos ≤ cs.length)
    (hrest : cs.drop pos = rest) :
    Accounts cs pos (read pos rest).placed (read pos rest).errors := by
  fun_induction read pos rest with
  | case1 pos =>
    obtain rfl : pos = cs.length := Nat.le_antisymm hpos (List.drop_eq_nil_iff.1 hrest)
    exact .nil cs
  | case2 pos c rest lexeme stop following placed ih =>
    have here : cs[pos]? = some c := by
      rw [← List.head?_drop, hrest, List.head?_cons]
    have after : cs.drop stop = rest.drop lexeme.more := by
      rw [← List.drop_drop, hrest, Nat.add_comm, List.drop_succ_cons]
    have text : Span.text ⟨pos, stop⟩ cs = c :: rest.take lexeme.more := by
      show (cs.drop pos).take (pos + (1 + lexeme.more) - pos) = _
      rw [hrest, Nat.add_sub_cancel_left, Nat.add_comm, List.take_succ_cons]
    have inside : stop ≤ cs.length := by
      have more : lexeme.more ≤ rest.length := (Lexeme.fits_read pos c rest).more
      have hlength := congrArg List.length hrest
      rw [List.length_drop, List.length_cons] at hlength
      show pos + (1 + lexeme.more) ≤ cs.length
      omega
    have some : pos < stop := by omega
    have later : Accounts cs stop following.placed following.errors := ih inside after
    have shape : lexeme.Shape (Span.text ⟨pos, stop⟩ cs) (cs.drop stop) := by
      rw [after, text]
      exact Lexeme.shaped_read pos c rest
    cases shape with
    | blank is written h =>
      have next : stop = pos + 1 := by simp only [stop, is]
      rw [text] at written
      obtain ⟨rfl, -⟩ := List.cons.inj written
      simp only [placed, is]
      exact (next ▸ later).blank here h
    | closed none fine h =>
      simp only [placed, none, fine]
      exact later.closedComment some h
    | «open» none wrong h =>
      simp only [placed, none]
      exact later.openComment some h wrong
    | token taken spelled sound =>
      simp only [placed, taken]
      exact later.token some spelled sound

/-- Scanning divides the text `cs` into tokens, the given comments, and blanks. -/
structure Partitions (cs : List Char) (comments : List Span) (s : Scan) : Prop where
  /-- The tokens are followed by the end of the text, which stands there, and is not among them. -/
  tokens : s.tokens = s.placed ++ [⟨.endOfFile, ⟨cs.length, cs.length⟩⟩] ∧
    ∀ t ∈ s.placed, t.token ≠ .endOfFile
  /-- Every token takes a stretch of the text that is not empty. -/
  proper : ∀ t ∈ s.placed, t.span.lo < t.span.hi ∧ t.span.hi ≤ cs.length
  ordered : s.placed.Pairwise fun t u => t.span.hi ≤ u.span.lo
  spelled : ∀ t ∈ s.placed, t.token.Spelled (t.span.text cs)
  /-- Every comment takes a stretch of the text that is not empty. -/
  comment : ∀ k ∈ comments, k.lo < k.hi ∧ k.hi ≤ cs.length ∧
    (k.IsClosedComment cs ∨ k.IsOpenComment cs)
  commentsOrdered : comments.Pairwise fun k l => k.hi ≤ l.lo
  /-- Only the last comment may have no end. -/
  closed : ∀ k ∈ comments.dropLast, k.IsClosedComment cs
  apart : ∀ t ∈ s.placed, ∀ k ∈ comments, t.span.hi ≤ k.lo ∨ k.hi ≤ t.span.lo
  /-- What is outside of all tokens is blank or in a comment. -/
  covered : ∀ i < cs.length, (∃ t ∈ s.placed, t.span.Covers i) ∨ (∃ k ∈ comments, k.Covers i) ∨
    ∃ c, cs[i]? = some c ∧ isBlank c = true
  /-- Nothing is wrong just if every token is in order and every comment has its end. -/
  sound : s.diagnostics = [] ↔ (∀ t ∈ s.placed, t.token.Sound (t.span.text cs)) ∧
    ∀ k ∈ comments, k.IsClosedComment cs

end Scan

/-- Scanning divides every text into tokens, comments and blanks. -/
theorem scan_partitions (text : String) :
    ∃ comments, (scan text).Partitions text.toList comments := by
  obtain ⟨comments, divides, sound⟩ := Scan.accounts_read (Nat.zero_le text.toList.length) rfl
  have spelled : ∀ t ∈ (scan text).placed, t.token.Spelled (t.span.text text.toList) :=
    fun t ht => (divides.of_mem_placed t ht).2.2.2
  refine ⟨comments, {
    tokens := ⟨?_, fun t ht hend => ?_⟩
    proper := fun t ht => ⟨(divides.of_mem_placed t ht).2.1, (divides.of_mem_placed t ht).2.2.1⟩
    ordered := divides.placed_pairwise
    spelled := spelled
    comment := fun k hk => (divides.of_mem_comments k hk).2
    commentsOrdered := divides.comments_pairwise
    closed := divides.closed_of_mem_dropLast
    apart := divides.apart
    covered := fun i hi => divides.covered (Nat.zero_le i) hi
    sound := ?_ }⟩
  · have stop : (scan text).stop = text.toList.length := by
      rw [scan, (Scan.read_inside 0 text.toList).1, Nat.zero_add]
    rw [Scan.tokens, stop]
  · have wrong := spelled t ht
    rw [hend] at wrong
    exact wrong
  · rw [Scan.diagnostics, List.map_eq_nil_iff]
    exact sound

end Pegboard
