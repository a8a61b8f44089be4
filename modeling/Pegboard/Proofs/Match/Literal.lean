import Pegboard.Match.Eval

/-!
# Literals and single characters

A literal matches where its text stands in the input, and a class of characters where one of its
characters does.  Whoever reasons about what a literal does goes by these lemmas, and not by its
characters one after the other.

## Main Definitions

* `Stands`: a text stands in the input at an offset.

## Main Results

* `literal_of_stands`, `literal_of_not_stands`: what a literal does.
* `character_of_accepted`, `character_of_refused`: what a class of characters does.
-/

namespace Pegboard.Match

variable {input : Array Char} {text : String} {accepts : Char → Bool} {s : MatchState}

/-- The text stands in the input at the offset `pos`. -/
def Stands (input : Array Char) (text : String) (pos : Nat) : Prop :=
  text.toList <+: input.toList.drop pos

instance (input : Array Char) (text : String) (pos : Nat) : Decidable (Stands input text pos) :=
  inferInstanceAs (Decidable (_ <+: _))

/-- The first character of what stands at an offset is the character there. -/
theorem cons_prefix_drop_iff {c : Char} {cs : List Char} {pos : Nat} :
    (c :: cs) <+: input.toList.drop pos ↔
      input[pos]? = some c ∧ cs <+: input.toList.drop (pos + 1) := by
  rw [← Array.getElem?_toList]
  by_cases h : pos < input.toList.length
  · rw [List.drop_eq_getElem_cons h, List.cons_prefix_cons, List.getElem?_eq_getElem h,
      Option.some.injEq, eq_comm]
  · rw [List.drop_eq_nil_of_le (Nat.le_of_not_lt h), List.getElem?_eq_none (Nat.le_of_not_lt h)]
    simp

theorem literalFrom_of_standing (text : String) {cs : List Char} {pos : Nat}
    (h : cs <+: input.toList.drop pos) (s : MatchState) :
    literalFrom input text pos cs s = { s with pos := pos + cs.length }.succeed (.str text) := by
  induction cs generalizing pos with
  | nil => rfl
  | cons c cs ih =>
    obtain ⟨hc, hcs⟩ := cons_prefix_drop_iff.1 h
    rw [literalFrom, if_pos hc, ih hcs, List.length_cons, Nat.add_assoc, Nat.add_comm 1]

theorem literalFrom_of_not_standing (text : String) {cs : List Char} {pos : Nat}
    (h : ¬ cs <+: input.toList.drop pos) :
    ∃ miss, ∀ s : MatchState, literalFrom input text pos cs s = s.failAt miss none := by
  induction cs generalizing pos with
  | nil => exact absurd List.nil_prefix h
  | cons c cs ih =>
    by_cases hc : input[pos]? = some c
    · obtain ⟨miss, hmiss⟩ := ih fun hcs => h (cons_prefix_drop_iff.2 ⟨hc, hcs⟩)
      exact ⟨miss, fun s => by rw [literalFrom, if_pos hc, hmiss]⟩
    · exact ⟨pos, fun s => by rw [literalFrom, if_neg hc]⟩

/-- A literal whose text stands at the current offset matches it. -/
theorem literal_of_stands (h : Stands input text s.pos) :
    literal input text s = { s with pos := s.pos + text.length }.succeed (.str text) := by
  rw [literal, literalFrom_of_standing text h, String.length_toList]

/-- A literal whose text does not stand at an offset fails there, at the first character that
differs. -/
theorem literal_of_not_stands {pos : Nat} (h : ¬ Stands input text pos) :
    ∃ miss, ∀ s : MatchState, s.pos = pos → literal input text s = s.failAt miss none := by
  obtain ⟨miss, hmiss⟩ := literalFrom_of_not_standing text h
  exact ⟨miss, fun s hs => by rw [literal, hs, hmiss]⟩

/-- A text that stands at an offset ends within the input. -/
theorem Stands.le_size {pos : Nat} (h : Stands input text pos) (hpos : pos ≤ input.size) :
    pos + text.length ≤ input.size := by
  have hlen : text.toList.length ≤ (input.toList.drop pos).length := List.IsPrefix.length_le h
  rw [String.length_toList, List.length_drop, Array.length_toList] at hlen
  omega

/-- A text that is not empty has a character. -/
theorem length_pos_of_ne (h : text ≠ "") : 0 < text.length := by
  refine Nat.pos_of_ne_zero fun hlen => h (String.toList_inj.1 ?_)
  rw [← String.length_toList] at hlen
  rw [List.length_eq_zero_iff.1 hlen]
  rfl

theorem character_of_accepted {c : Char} (hc : input[s.pos]? = some c) (ok : accepts c = true) :
    character input accepts s = { s with pos := s.pos + 1 }.succeed (.ofChar c) := by
  simp only [character, hc, if_pos ok]

theorem character_of_refused (h : ∀ c, input[s.pos]? = some c → accepts c = false) :
    character input accepts s = s.fail none := by
  unfold character
  split
  · next c hc => rw [if_neg (ne_true_of_eq_false (h c hc))]
  · rfl

end Pegboard.Match
