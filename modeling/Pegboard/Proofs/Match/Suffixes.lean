import Mathlib.Data.List.Permutation
import Pegboard.Proofs.Match.Essence
import Pegboard.Proofs.Match.Growth
import Pegboard.Proofs.Match.Literal

/-!
# A chain of suffixes by indirect left recursion

Two rules apply each other at the same offset, and each adds a suffix of its own:

    start = P:p -> p
    P = P:p x -> p + x | L
    L = P:p y -> p + y | base

Both are left-recursive, so both grow, and `L` grows afresh inside every round of `P`, with the seed
of `P` in place.  One round of `P` adds one suffix: `x` if it stands behind the seed, and otherwise
`y`, which `L` adds to the seed of `P`, for its own seed is never looked at.  So `P` takes the whole
chain of suffixes, in whatever order the two kinds come.

## Main Definitions

* `suffixRules`: the rules, for any three texts.
* `Suffixes`: the greedy chain.

## Main Results

* `run_suffixes`: what these rules match, and the value that they give.
-/

namespace Pegboard.Match

variable {base x y : String} {input : Array Char}

/-! ## The rules -/

/-- The alternative `P:p text -> p + text`. -/
def extension (text : String) : List Pattern :=
  [.label (.apply "P") "p", .lit text, .action (.plus (.var "p") (.str text))]

/-- The rules `start = P:p -> p`, `P = P:p x -> p + x | L` and `L = P:p y -> p + y | base`. -/
def suffixRules (base x y : String) : RuleSet :=
  .ofDefinitions [("start", .choice [.seq [.label (.apply "P") "p", .action (.var "p")]]),
    ("P", .choice [.seq (extension x), .seq [.apply "L"]]),
    ("L", .choice [.seq (extension y), .seq [.lit base]])]

/-- Two alternatives of a rule: one that extends what `P` matched, and another. -/
def extending (rule text : String) (other : Pattern) : Pattern :=
  .choice [.scope rule (extension text), other]

/-- The grammar of these rules. -/
def suffixGrammar (base x y : String) : Grammar :=
  ⟨[("start", .scope "start" [.label (.apply "P") "p", .action (.var "p")]),
    ("P", .leftrec (extending "P" x (.apply "L")) "P"),
    ("L", .leftrec (extending "L" y (.lit base)) "L")], []⟩

theorem suffixRules_normalize (base x y : String) :
    (suffixRules base x y).normalize .default = .ok (suffixGrammar base x y) := by
  cbv

/-! ## The text that was matched -/

/-- The input up to an offset. -/
def consumed (input : Array Char) (pos : Nat) : String :=
  String.ofList (input.extract 0 pos).toList

/-- The input up to the end of a text is the input before it, and the text. -/
theorem consumed_of_stands {text : String} {pos : Nat} (h : Stands input text pos) :
    consumed input (pos + text.length) = consumed input pos ++ text := by
  have htext : text.toList = (input.toList.drop pos).take text.length := by
    rw [← String.length_toList]
    exact List.prefix_iff_eq_take.1 h
  have take (last : Nat) : (input.extract 0 last).toList = input.toList.take last := by simp
  rw [consumed, consumed, take, take, List.take_add, ← htext, String.ofList_append,
    String.ofList_toList]

/-! ## The chain -/

/-- The greedy chain of suffixes from an offset to its end: at each step `x` if it stands there, and
otherwise `y`. -/
inductive Suffixes (input : Array Char) (x y : String) : Nat → Nat → Prop where
  | stop {pos} (notX : ¬ Stands input x pos) (notY : ¬ Stands input y pos) :
      Suffixes input x y pos pos
  | addX {pos last} (h : Stands input x pos) (rest : Suffixes input x y (pos + x.length) last) :
      Suffixes input x y pos last
  | addY {pos last} (notX : ¬ Stands input x pos) (h : Stands input y pos)
      (rest : Suffixes input x y (pos + y.length) last) : Suffixes input x y pos last

/-- A chain has one end. -/
theorem Suffixes.unique {pos last last' : Nat} (h : Suffixes input x y pos last)
    (h' : Suffixes input x y pos last') : last = last' := by
  induction h with
  | stop notX notY =>
    cases h' with
    | stop => rfl
    | addX h => exact absurd h notX
    | addY _ h => exact absurd h notY
  | addX h _ ih =>
    cases h' with
    | stop notX => exact absurd h notX
    | addX _ rest => exact ih rest
    | addY notX => exact absurd h notX
  | addY notX h _ ih =>
    cases h' with
    | stop _ notY => exact absurd h notY
    | addX h => exact absurd h notX
    | addY _ _ rest => exact ih rest

/-- From every offset of the input there is a chain, for every suffix takes some of it. -/
theorem exists_suffixes (hx : x ≠ "") (hy : y ≠ "") {pos : Nat} (hpos : pos ≤ input.size) :
    ∃ last, Suffixes input x y pos last := by
  have hx := length_pos_of_ne hx
  have hy := length_pos_of_ne hy
  induction hn : input.size - pos using Nat.strongRecOn generalizing pos with
  | ind n ih =>
    by_cases h : Stands input x pos
    · have hle := h.le_size hpos
      obtain ⟨last, rest⟩ := ih _ (by omega) hle rfl
      exact ⟨last, .addX h rest⟩
    · by_cases h' : Stands input y pos
      · have hle := h'.le_size hpos
        obtain ⟨last, rest⟩ := ih _ (by omega) hle rfl
        exact ⟨last, .addY h h' rest⟩
      · exact ⟨pos, .stop h h'⟩

/-! ## Rounds -/

/-- Values count as the texts that they are. -/
def textView : View String := ⟨fun b v => v = .str b, False⟩

/-- What `P:p text -> p + text` comes to, by the seed of `P`. -/
def extended (input : Array Char) (text : String) : Option (String × Nat) → Option (String × Nat)
  | none => none
  | some (front, pos) =>
    if Stands input text pos then some (front ++ text, pos + text.length) else none

/-- What the text `base` comes to at the start of the input. -/
def based (input : Array Char) (base : String) : Option (String × Nat) :=
  if Stands input base 0 then some (base, base.length) else none

variable {g : Grammar} {inner : Pattern} {u : MatchState} {o : Outcome} {c : Nat}
variable {seed a : Option (String × Nat)}

/-- While `P` grows, the alternative that adds a text to it does so. -/
theorem extension_comes (found : g.body? "P" = some (.leftrec inner "P"))
    (hseed : u.seeds.get? ("P", u.pos) = some o) (shows : textView.Shows o seed)
    (unblocked : u.blocked = []) (rule text : String) :
    Comes textView g input (.whole (.scope rule (extension text))) u
      (extended input text seed) c := by
  have head : Run g input (.whole (.label (.apply "P") "p"))
      ({ u with scopes := u.scopes.push }.succeed .null)
      ((({ u with scopes := u.scopes.push }.succeed .null).adopt o).labelled "p") :=
    .label (apply_of_seed found hseed (by rw [show MatchState.blocked _ = [] from unblocked]; rfl))
  obtain ⟨value, failed, pos⟩ := o
  cases seed with
  | none =>
    obtain rfl : failed = true := shows
    exact ⟨_, .scope (.termsStop head rfl), rfl, False.elim⟩
  | some b =>
    obtain ⟨front, q⟩ := b
    obtain ⟨rfl, rfl, rfl⟩ : failed = false ∧ pos = q ∧ value = .str front := shows
    by_cases h : Stands input text pos
    · have lit := literal_of_stands (s := (({ u with scopes := u.scopes.push }.succeed
        .null).adopt ⟨.str front, false, pos⟩).labelled "p") h
      have lookup : (u.scopes.push.bind "p" (.str front)).lookup? "p" = some (.str front) :=
        Scopes.lookup?_bind_self _ _ _
      have act (t : MatchState) (ht : t.scopes = u.scopes.push.bind "p" (.str front)) :
          action (.plus (.var "p") (.str text)) t = t.succeed (.str (front ++ text)) := by
        simp [action, evaluated, Expr.eval, Scopes.variable, ht, lookup, Value.add, pure,
          Except.pure, bind, Except.bind]
      refine ⟨_, .scope (.termsNext head rfl (.termsNext (.atom (congrArg some lit)) rfl
        (.termsNext (.atom (congrArg some (act _ rfl))) rfl .termsNil))), ?_, False.elim⟩
      rw [extended, if_pos h]
      exact ⟨rfl, rfl, rfl⟩
    · obtain ⟨miss, hmiss⟩ := literal_of_not_stands h
      refine ⟨_, .scope (.termsNext head rfl
        (.termsStop (.atom (congrArg some (hmiss _ rfl))) rfl)), ?_, False.elim⟩
      rw [extended, if_neg h]
      rfl

/-- Of two alternatives the first that has an answer gives it. -/
theorem extending_comes (found : g.body? "P" = some (.leftrec inner "P"))
    (hseed : u.seeds.get? ("P", u.pos) = some o) (shows : textView.Shows o seed)
    (unblocked : u.blocked = []) (rule text : String) {other : Pattern}
    (second : ∀ v : MatchState, v.seeds = u.seeds → v.blocked = u.blocked → v.pos = u.pos →
      Comes textView g input (.whole other) v a c) :
    Comes textView g input (.whole (extending rule text other)) u
      ((extended input text seed).or a) c := by
  have first : Comes textView g input (.whole (.scope rule (extension text))) u
      (extended input text seed) c := extension_comes found hseed shows unblocked rule text
  obtain ⟨w, run, hw, -⟩ := first
  cases hfirst : extended input text seed with
  | some b =>
    rw [hfirst] at hw
    exact ⟨w, .choice (.altsTaken run hw.1), hw, False.elim⟩
  | none =>
    rw [hfirst] at hw
    obtain ⟨w', run', hw', -⟩ := second { w with pos := u.pos } run.seeds_eq
      run.blocked_eq rfl
    exact ⟨w', .choice (.altsNext run hw (.altsLast run')), hw', False.elim⟩

/-- The rounds of growth from a seed to the last, if `round` gives what each comes to. -/
abbrev Climbs (round : Option (String × Nat) → Option (String × Nat))
    (seed last : Option (String × Nat)) : Prop :=
  Climb (fun seed a (_ : Nat) => a = round seed) seed last 0

theorem Climbs.next {round : Option (String × Nat) → Option (String × Nat)}
    {seed last : Option (String × Nat)} (further : Further seed (round seed))
    (rest : Climbs round (round seed) last) : Climbs round seed last :=
  have step : Climb (fun seed a (_ : Nat) => a = round seed) seed last (max 0 0) :=
    .next rfl further rest
  step

/-- A rule whose rounds all come to the same has it after the first. -/
theorem climbs_const (a : Option (String × Nat)) : Climbs (fun _ => a) none a := by
  cases a with
  | none => exact .stop rfl id
  | some a => exact .next trivial (.stop rfl (Nat.lt_irrefl _))

/-! ## The two rules that grow -/

section Grow

variable (base x y : String)

theorem suffixGrammar_closed : ∀ b ∈ (suffixGrammar base x y).bodies, b.2.Closed := by
  simp [suffixGrammar, extending, Pattern.Closed, Pattern.ClosedAll]

theorem suffixGrammar_memoless :
    ∀ b ∈ (suffixGrammar base x y).bodies, b.2.Everywhere Pattern.NotMemo := by
  simp [suffixGrammar, extending, extension, Pattern.Everywhere, Pattern.nodes, Pattern.nodesAll,
    Pattern.NotMemo]

/-- What a round of `P` comes to at the start of the input: it adds `x` to the seed, or else it is
what `L` comes to. -/
def suffixed (input : Array Char) (seed : Option (String × Nat)) : Option (String × Nat) :=
  (extended input x seed).or ((extended input y seed).or (based input base))

variable {base x y}

theorem lit_comes (hpos : u.pos = 0) :
    Comes textView g input (.whole (.lit base)) u (based input base) c := by
  by_cases h : Stands input base 0
  · rw [based, if_pos h]
    rw [← hpos] at h
    refine ⟨_, .atom (congrArg some (literal_of_stands h)), ⟨rfl, ?_, rfl⟩, False.elim⟩
    show u.pos + base.length = base.length
    omega
  · rw [based, if_neg h]
    obtain ⟨miss, hmiss⟩ := literal_of_not_stands h
    exact ⟨_, .atom (congrArg some (hmiss u hpos)), rfl, False.elim⟩

/-- While `P` grows, `L` adds `y` to it, or else it is the base. -/
theorem apply_L_comes (hpos : u.pos = 0) (hseed : u.seeds.get? ("P", 0) = some o)
    (shows : textView.Shows o seed) (unblocked : u.blocked = [])
    (unseeded : u.seeds.get? ("L", 0) = none) :
    Comes textView (suffixGrammar base x y) input (.whole (.apply "L")) u
      ((extended input y seed).or (based input base)) 0 := by
  have rounds {seed' b : Option (String × Nat)} {c : Nat} {o' : Outcome} {v : MatchState}
      (hb : b = (extended input y seed).or (based input base)) (_ : textView.Shows o' seed')
      (growing : Growing "L" (rounding (suffixGrammar base x y) "L" u) o' v)
      (hv : v.pos = u.pos) :
      Comes textView (suffixGrammar base x y) input (.whole (extending "L" y (.lit base))) v
        b c := by
    have hv0 : v.pos = 0 := hv.trans hpos
    -- The seed of `L` is another one than the seed of `P`, which is looked up.
    have hseed' : v.seeds.get? ("P", v.pos) = some o := by
      rw [hv0, growing.seeds, Table.get?_insert_of_ne _ _ (by simp)]
      exact hseed
    rw [hb]
    exact extending_comes rfl hseed' shows growing.blocked "L" y fun t _ _ ht =>
      lit_comes (ht.trans hv0)
  obtain ⟨w, run, hw, gains, -⟩ := apply_of_climb rfl (suffixGrammar_closed base x y)
    (suffixGrammar_memoless base x y) unblocked (hpos ▸ unseeded) rounds (climbs_const _)
  exact ⟨w, run, hw, gains⟩

/-- From its seed, `P` grows to the end of the chain. -/
theorem climb_of_suffixes (hx : x ≠ "") (hy : y ≠ "") {pos last : Nat}
    (chain : Suffixes input x y pos last) (hle : base.length ≤ pos) :
    Climbs (suffixed base x y input) (some (consumed input pos, pos))
      (some (consumed input last, last)) := by
  have hx := length_pos_of_ne hx
  have hy := length_pos_of_ne hy
  -- A round for each suffix, and one that adds none and comes to the base, behind the seed.
  induction chain with
  | @stop pos notX notY =>
    refine .stop rfl ?_
    rw [suffixed, extended, if_neg notX, extended, if_neg notY, Option.none_or, Option.none_or,
      based]
    split
    · exact Nat.not_lt.2 hle
    · exact id
  | @addX pos last h _ ih =>
    refine .next ?_ ?_
    all_goals rw [suffixed, extended, if_pos h, Option.some_or, ← consumed_of_stands h]
    · show pos < pos + x.length
      omega
    · exact ih (by omega)
  | @addY pos last notX h _ ih =>
    refine .next ?_ ?_
    all_goals
      rw [suffixed, extended, if_neg notX, extended, if_pos h, Option.none_or, Option.some_or,
        ← consumed_of_stands h]
    · show pos < pos + y.length
      omega
    · exact ih (by omega)

/-- What `P` comes to in the end is what the whole climb comes to. -/
theorem apply_P_comes (hpos : u.pos = 0) (unblocked : u.blocked = []) (unseeded : u.seeds = [])
    (climb : Climbs (suffixed base x y input) none a) :
    Comes textView (suffixGrammar base x y) input (.whole (.apply "P")) u a 0 := by
  have rounds {seed b : Option (String × Nat)} {c : Nat} {o : Outcome} {v : MatchState}
      (hb : b = suffixed base x y input seed) (shows : textView.Shows o seed)
      (growing : Growing "P" (rounding (suffixGrammar base x y) "P" u) o v)
      (hv : v.pos = u.pos) :
      Comes textView (suffixGrammar base x y) input (.whole (extending "P" x (.apply "L"))) v
        b c := by
    have hv0 : v.pos = 0 := hv.trans hpos
    have hseeds : v.seeds = Table.insert [] ("P", 0) o := by
      rw [growing.seeds]
      show Table.insert u.seeds ("P", u.pos) o = _
      rw [unseeded, hpos]
    have hseed : v.seeds.get? ("P", 0) = some o := by rw [hseeds, Table.get?_insert_self]
    -- `L` has given up its seed after the last round, so it grows afresh in this one.
    have fresh : v.seeds.get? ("L", 0) = none := by
      rw [hseeds, Table.get?_insert_of_ne _ _ (by simp)]
      rfl
    rw [hb]
    refine extending_comes rfl (hv0 ▸ hseed) shows growing.blocked "P" x
      fun t hseeds' hblocked ht => ?_
    obtain ⟨w, run, hw, -⟩ := apply_L_comes (ht.trans hv0) (by rw [hseeds', hseed]) shows
      (hblocked.trans growing.blocked) (by rw [hseeds', fresh])
    exact ⟨w, run, hw, False.elim⟩
  obtain ⟨w, run, hw, gains, -⟩ := apply_of_climb rfl (suffixGrammar_closed base x y)
    (suffixGrammar_memoless base x y) unblocked (by rw [unseeded]; rfl) rounds climb
  exact ⟨w, run, hw, gains⟩

end Grow

/-! ## Whole matches -/

/-- The starting rule gives what `P` gives. -/
theorem exists_run_of_climb
    (climb : Climbs (suffixed base x y input) none a) :
    ∃ fuel s, final? (suffixGrammar base x y) input fuel = some s ∧
      textView.Shows s.outcome a := by
  obtain ⟨w, run, hw, -⟩ := apply_P_comes
    (u := { MatchState.initial with scopes := MatchState.initial.scopes.push }.succeed .null)
    rfl rfl rfl climb
  suffices h : ∃ s, Run (suffixGrammar base x y) input
      (.whole (.scope "start" [.label (.apply "P") "p", .action (.var "p")])) .initial s ∧
      textView.Shows s.outcome a by
    obtain ⟨s, run, hs⟩ := h
    obtain ⟨fuel, hfuel⟩ := exists_final?_of_run (g := suffixGrammar base x y) rfl run
    exact ⟨fuel, s, hfuel, hs⟩
  cases a with
  | none =>
    have bad : w.failed = true := hw
    have labelled : (w.labelled "p") = w := if_pos bad
    exact ⟨_, .scope (.termsStop (.label run) (by rw [labelled, bad])), by rw [labelled]; exact bad⟩
  | some b =>
    obtain ⟨front, pos⟩ := b
    obtain ⟨good, hpos, hvalue⟩ := hw
    have good : w.failed = false := good
    have hvalue : w.value = .str front := hvalue
    have labelled : w.labelled "p" = { w with scopes := w.scopes.bind "p" w.value } :=
      if_neg (ne_true_of_eq_false good)
    have act : action (.var "p") (w.labelled "p") = (w.labelled "p").succeed (.str front) := by
      simp [labelled, action, evaluated, Expr.eval, Scopes.variable, Scopes.lookup?_bind_self, pure,
        Except.pure, hvalue]
    refine ⟨_, .scope (.termsNext (.label run) (by rw [labelled]; exact good)
      (.termsNext (.atom (congrArg some act)) rfl .termsNil)), rfl, ?_, rfl⟩
    rw [labelled]
    exact hpos

/-- **Indirect left recursion takes the whole chain of suffixes.**  The rules normalize, and on
every input the match fails exactly if the input does not start with the base; otherwise it consumes
the base and the greedy chain of suffixes behind it, and gives the text that it consumed. -/
theorem run_suffixes (base : String) (hx : x ≠ "") (hy : y ≠ "") (source : String)
    (input : Array Char) : ∃ g, (suffixRules base x y).normalize .default = .ok g ∧
      ((∃ fuel message pos, g.run fuel source input = some (.rejected message pos)) ↔
        ¬ Stands input base 0) ∧
      (Stands input base 0 → ∃ last, Suffixes input x y base.length last ∧
        ∃ fuel, g.run fuel source input = some (.accepted (.str (consumed input last)) last)) := by
  have first : suffixed base x y input none = based input base := rfl
  have accepts (h : Stands input base 0) : ∃ last, Suffixes input x y base.length last ∧
      ∃ fuel, (suffixGrammar base x y).run fuel source input
        = some (.accepted (.str (consumed input last)) last) := by
    have hle : base.length ≤ input.size := by simpa using h.le_size (Nat.zero_le _)
    obtain ⟨last, chain⟩ := exists_suffixes hx hy hle
    have h' : based input base = some (base, base.length) := if_pos h
    have hbase : consumed input base.length = base := by
      rw [← Nat.zero_add base.length, consumed_of_stands h]
      simp [consumed]
    have rest := climb_of_suffixes hx hy chain (Nat.le_refl base.length)
    rw [hbase, ← h', ← first] at rest
    have climb : Climbs (suffixed base x y input) none (some (consumed input last, last)) := by
      refine .next ?_ rest
      rw [first, h']
      trivial
    obtain ⟨fuel, s, hs, good, hpos, hvalue⟩ := exists_run_of_climb climb
    have good : s.failed = false := good
    have hpos : s.pos = last := hpos
    have hvalue : s.value = .str (consumed input last) := hvalue
    refine ⟨last, chain, fuel, ?_⟩
    rw [Grammar.run, hs, Option.map_some, finish, if_neg (ne_true_of_eq_false good), hvalue, hpos]
  refine ⟨suffixGrammar base x y, suffixRules_normalize base x y, ⟨?_, fun h => ?_⟩, accepts⟩
  · rintro ⟨fuel, message, pos, h⟩ stands
    obtain ⟨last, -, fuel', h'⟩ := accepts stands
    obtain ⟨s, hs, hrejected⟩ := Option.map_eq_some_iff.1 h
    obtain ⟨t, ht, haccepted⟩ := Option.map_eq_some_iff.1 h'
    rw [final?_unique hs ht, haccepted] at hrejected
    contradiction
  · have climb : Climbs (suffixed base x y input) none none := by
      refine .stop rfl ?_
      rw [first, based, if_neg h]
      exact id
    obtain ⟨fuel, s, hs, bad⟩ := exists_run_of_climb climb
    have bad : s.failed = true := bad
    have rejected := congrArg (Option.map (finish source input)) hs
    rw [Option.map_some, finish, if_pos bad] at rejected
    exact ⟨fuel, _, _, rejected⟩

/-- The suffixes of `bxyyxz`, which are of both kinds, are all taken. -/
theorem run_suffixes_both : "x" ≠ "" ∧ "y" ≠ "" ∧
    ∃ g, (suffixRules "b" "x" "y").normalize .default = .ok g ∧
      ∃ fuel, g.run fuel "input" #['b', 'x', 'y', 'y', 'x', 'z']
        = some (.accepted (.str "bxyyx") 5) := by
  have hx : "x" ≠ "" := by decide
  have hy : "y" ≠ "" := by decide
  obtain ⟨g, normalized, -, accepts⟩ :=
    run_suffixes "b" hx hy "input" #['b', 'x', 'y', 'y', 'x', 'z']
  obtain ⟨last, chain, fuel, h⟩ := accepts (by decide)
  have chain' : Suffixes #['b', 'x', 'y', 'y', 'x', 'z'] "x" "y" 1 5 :=
    .addX (by decide) (.addY (by decide) (by decide) (.addY (by decide) (by decide)
      (.addX (by decide) (.stop (by decide) (by decide)))))
  rw [chain.unique chain'] at h
  exact ⟨hx, hy, g, normalized, fuel, h⟩

end Pegboard.Match
