import Pegboard.Proofs.Grammar.Essence
import Pegboard.Proofs.Match.Simplification

/-!
# Matching depends on the essence only

A run of a grammar has an image in the grammar of the essences of its bodies: it comes to the same
outcome, with the same failures on the way, and to a state that agrees on the names that are looked
up.  So two grammars with the same essence give the same results.

## Main Definitions

* `Pattern.SeenNode`: an expression looks up only the names that are seen, and its change has its
  value.
* `Grammar.essence`: a grammar with the essences of its bodies.

## Main Results

* `Run.essence`: the image of a run.
* `run_eq_of_essence`: grammars with the same essence give the same results.
-/

namespace Pegboard

namespace Pattern

/-- The expression of a node, if there is one, looks up only names that are seen, and has the value
of what it is changed to. -/
def SeenNode (seen : String → Bool) (f : Expr → Expr) (p : Pattern) : Prop :=
  ∀ e, p.expr? = some e →
    (∀ name ∈ e.reads, seen name = true) ∧ ∀ scopes, (f e).eval scopes = e.eval scopes

end Pattern

namespace Grammar

/-- A grammar with the essences of its bodies. -/
def essence (seen : String → Bool) (f : Expr → Expr) (g : Grammar) : Grammar :=
  ⟨g.bodies.mapBodies fun _ => Pattern.essence seen f, g.leftAssoc⟩

theorem body?_essence (seen : String → Bool) (f : Expr → Expr) (g : Grammar) (name : String) :
    (g.essence seen f).body? name = (g.body? name).map (Pattern.essence seen f) :=
  Bodies.body?_mapBodies (fun _ => Pattern.essence seen f) g.bodies name

theorem start_essence (seen : String → Bool) (f : Expr → Expr) (g : Grammar) :
    (g.essence seen f).start = g.start :=
  Bodies.start_mapBodies _ _ _ _

/-- Bodies that are changed without a change of their essence give a grammar of the same essence. -/
theorem essence_mapBodies {seen : String → Bool} {f f' : Expr → Expr} {g : Grammar}
    {change : String → Pattern → Pattern}
    (h : ∀ b ∈ g.bodies, (change b.1 b.2).essence seen f' = b.2.essence seen f) :
    Grammar.essence seen f' ⟨g.bodies.mapBodies change, g.leftAssoc⟩ = g.essence seen f := by
  refine congrArg (fun bodies => Grammar.mk bodies g.leftAssoc) ?_
  rw [Bodies.mapBodies, Bodies.mapBodies, List.map_map]
  exact List.map_congr_left fun b hb => congrArg (Prod.mk b.1) (h b hb)

end Grammar

namespace Match

variable {g : Grammar} {input : Array Char} {seen : String → Bool} {f : Expr → Expr}

/-- A sequence of one term runs like the term, and one of none like the empty pattern. -/
theorem Mirrored.simplified_seq {known : String → Prop} {ps : List Pattern} {s s' u v : MatchState}
    (run : Run g input (.terms ps) (u.succeed .null) v)
    (mirror : Mirrored (fun _ => True) known (fun _ => False) s s' (u.succeed .null) v) :
    ∃ u', Run g input (.whole (Pattern.simplifyNode (.seq ps))) u u' ∧
      Mirrored (fun _ => True) known (fun _ => False) s s' u u' :=
  ⟨v, run.simplified_seq, mirror.alike, mirror.value, mirror.failed, mirror.bound, mirror.late⟩

/-! ## The image of a run -/

/-- A pattern without parts does the same as its essence. -/
theorem atom?_essence {p : Pattern} {s s' : MatchState} (h : atom? g input p s = some s')
    (face : p.SeenNode seen f) (t : MatchState) :
    atom? (g.essence seen f) input (p.essence seen f) t = atom? g input p t := by
  cases p with
  | apply name =>
    cases hb : g.body? name with
    | some body => simp [atom?, hb] at h
    | none =>
      have none : (g.essence seen f).body? name = none := by rw [Grammar.body?_essence, hb]; rfl
      show atom? (g.essence seen f) input (.apply name) t = _
      simp only [atom?, none, hb]
  | pred e =>
    have same := (face e rfl).2 t.scopes
    show some (predicate (f e) t) = some (predicate e t)
    rw [predicate, predicate, evaluated, evaluated, same]
  | eq e =>
    have same := (face e rfl).2 t.scopes
    show some (equality input (f e) t) = some (equality input e t)
    rw [equality, equality, evaluated, evaluated, same]
  | action e =>
    have same := (face e rfl).2 t.scopes
    show some (action (f e) t) = some (action e t)
    rw [action, action, evaluated, evaluated, same]
  | lit | range | pos | empty => rfl
  | _ => contradiction

/-- A label whose name is not looked up binds nothing that is. -/
theorem Mirrored.unseen {known : String → Prop} {s s' u u' : MatchState} {name : String}
    (h : Mirrored (fun _ => True) known (fun _ => False) s s' u u') (unseen : ¬ known name) :
    Mirrored (fun _ => True) known (fun _ => False) s (s'.labelled name) u u' := by
  unfold MatchState.labelled
  split
  · exact h
  · next good =>
    refine ⟨⟨h.alike.pos, h.alike.blocked, h.alike.memo, h.alike.seeds, fun other hn => ?_⟩,
      h.value, h.failed, fun _ _ hn => hn.elim, h.late⟩
    have hne : other ≠ name := fun heq => unseen (heq ▸ hn)
    show u'.scopes.lookup? other = (s'.scopes.bind name s'.value).lookup? other
    rw [Scopes.lookup?_bind_of_ne _ _ hne, h.alike.lookup other hn]

/-- A run has an image in the grammar of the essences. -/
theorem Run.essence (closed : ∀ b ∈ g.bodies, b.2.Closed)
    (faces : ∀ b ∈ g.bodies, b.2.Everywhere (Pattern.SeenNode seen f))
    {task : Task} {s s' : MatchState} (h : Run g input task s s')
    (face : All (Pattern.SeenNode seen f) task.patterns) {u : MatchState}
    (alike : Alike (fun _ => True) (fun name => seen name = true) s u)
    (agrees : task.Agrees (fun _ => True) s u) :
    ∃ u', Run (g.essence seen f) input (task.mapPatterns (Pattern.essence seen f)) u u' ∧
      Mirrored (fun _ => True) (fun name => seen name = true) (fun _ => False) s s' u u' := by
  have rules : ∀ name body, (g.essence seen f).body? name = some body → body.Closed := by
    intro name body found
    rw [Grammar.body?_essence, Option.map_eq_some_iff] at found
    obtain ⟨written, hwritten, rfl⟩ := found
    exact Pattern.closed_essence (closed _ (Bodies.mem_of_body? hwritten))
  induction h generalizing u with
  | altsNil => exact ⟨_, .altsNil, alike.fail none⟩
  | altsLast _ ih =>
    obtain ⟨u', run, mirror⟩ := ih face alike trivial
    exact ⟨u', .altsLast run, mirror⟩
  | altsTaken _ good ih =>
    obtain ⟨u', run, mirror⟩ := ih face.head alike trivial
    exact ⟨u', .altsTaken run (mirror.failed.trans good), mirror⟩
  | @altsNext start p q ps s s' s'' _ bad _ ih ihRest =>
    obtain ⟨t, run, first⟩ := ih face.head alike trivial
    obtain ⟨u', runRest, rest⟩ := ihRest face.tail (first.alike.move start) trivial
    exact ⟨u', .altsNext run (first.failed.trans bad) runRest, (first.back start).trans rest⟩
  | @termsNil s =>
    exact ⟨u, .termsNil, alike, agrees.1, agrees.2, fun _ _ hn => hn.elim, Late.refl s u⟩
  | termsStop _ bad ih =>
    obtain ⟨u', run, mirror⟩ := ih face.head alike trivial
    exact ⟨u', .termsStop run (mirror.failed.trans bad), mirror⟩
  | termsNext _ good _ ih ihRest =>
    obtain ⟨t, run, first⟩ := ih face.head alike trivial
    obtain ⟨u', runRest, rest⟩ := ihRest face.tail first.alike ⟨first.value, first.failed⟩
    exact ⟨u', .termsNext run (first.failed.trans good) runRest, first.trans rest⟩
  | @repeatedStop inner items s s' _ bad ih =>
    obtain ⟨u', run, mirror⟩ := ih face alike trivial
    exact ⟨_, .repeatedStop run (mirror.failed.trans bad), mirror.stopped alike.pos _⟩
  | @repeatedStill inner items s s' _ good still ih =>
    obtain ⟨u', run, mirror⟩ := ih face alike trivial
    have still' : u'.pos = u.pos := by rw [mirror.alike.pos, alike.pos, still]
    refine ⟨_, .repeatedStill run (mirror.failed.trans good) still', ?_⟩
    rw [mirror.value]
    exact mirror.given good _
  | repeatedNext _ good moved _ ih ihRest =>
    obtain ⟨t, run, first⟩ := ih face alike trivial
    have moved' : t.pos ≠ u.pos := by rwa [first.alike.pos, alike.pos]
    obtain ⟨u', runRest, rest⟩ := ihRest face first.alike trivial
    exact ⟨u', .repeatedNext run (first.failed.trans good) moved' (first.value ▸ runRest),
      first.trans rest⟩
  | @growStop inner key s s' _ stop ih =>
    obtain ⟨u', run, mirror⟩ := ih face (alike.move key.2) trivial
    have stop' : u'.outgrows key = false := by rw [← stop, mirror.outgrows trivial]
    exact ⟨u', .growStop run stop', mirror.alike, mirror.value, mirror.failed, mirror.bound,
      mirror.late⟩
  | @growNext inner key s s' s'' _ further _ ih ihRest =>
    obtain ⟨t, run, first⟩ := ih face (alike.move key.2) trivial
    have further' : t.outgrows key = true := by rw [← further, first.outgrows trivial]
    obtain ⟨u', runRest, rest⟩ := ihRest face (first.reseeded key) trivial
    exact ⟨u', .growNext run further' runRest, rest.alike, rest.value, rest.failed, rest.bound,
      Late.trans (t := s') (v := t) first.late rest.late⟩
  | @atom p s s' h =>
    have reads : Scopes.AlikeOn p.reads s.scopes u.scopes := by
      intro name hn
      cases p with
      | pred e => exact (alike.lookup name ((face.here e rfl).1 name hn)).symm
      | eq e => exact (alike.lookup name ((face.here e rfl).1 name hn)).symm
      | action e => exact (alike.lookup name ((face.here e rfl).1 name hn)).symm
      | _ => contradiction
    obtain ⟨outcome, failure, effect, -, -⟩ := atom?_effect h
    have there := (atom?_essence h face.here u).trans (effect u alike.pos reads)
    rw [effect _ rfl fun _ _ => rfl, Option.some.injEq] at h
    subst h
    exact ⟨_, .atom there, alike.after _ _⟩
  | @choice alts s s' _ ih =>
    obtain ⟨u', run, mirror⟩ := ih face.parts alike trivial
    rw [Task.mapPatterns, ← alike.pos] at run
    rw [Task.mapPatterns, Pattern.essence_eq]
    exact ⟨u', run.simplified_choice, mirror⟩
  | @seq ps s s' _ ih =>
    obtain ⟨v, run, mirror⟩ := ih face.parts (alike.succeed .null) ⟨rfl, rfl⟩
    rw [Task.mapPatterns, Pattern.essence_eq]
    exact Mirrored.simplified_seq run
      ⟨mirror.alike, mirror.value, mirror.failed, mirror.bound, mirror.late⟩
  | @scope rule ps s s' h ih =>
    by_cases inside : Pattern.ClosedAll (ps.map (Pattern.essence seen f))
    · -- The terms bind nothing that is looked up outside, so no frame is needed for them.
      rw [Task.mapPatterns, Pattern.essence_scope_of_closed inside, Pattern.essence_eq]
      have here : Alike (fun _ => True) (fun name => seen name = true)
          ({ s with scopes := s.scopes.push }.succeed .null) (u.succeed .null) :=
        ⟨alike.pos, alike.blocked, alike.memo, alike.seeds, alike.lookup⟩
      obtain ⟨v, run, mirror⟩ := ih face.parts here ⟨rfl, rfl⟩
      have popped : s'.scopes.pop = s.scopes := (popped_frame (s := s) h.framed).2
      have kept : v.scopes = u.scopes := run.scopes_of_closed rules inside
      refine Mirrored.simplified_seq run ⟨⟨mirror.alike.pos, mirror.alike.blocked,
        mirror.alike.memo, mirror.alike.seeds, fun name hn => ?_⟩, mirror.value, mirror.failed,
        fun _ _ hn => hn.elim, mirror.late⟩
      show v.scopes.lookup? name = s'.scopes.pop.lookup? name
      rw [popped, kept, alike.lookup name hn]
    · rw [Task.mapPatterns, Pattern.essence_scope_of_not_closed inside]
      obtain ⟨v, run, mirror⟩ := ih face.parts alike.pushed ⟨rfl, rfl⟩
      exact ⟨_, .scope run, Mirrored.popped alike h run mirror⟩
  | @label inner name s s' _ ih =>
    obtain ⟨u', run, mirror⟩ := ih face.parts alike trivial
    cases hseen : seen name with
    | true =>
      have image : (Pattern.label inner name).essence seen f
          = .label (inner.essence seen f) name := by
        rw [Pattern.essence_eq, Pattern.mapParts, Pattern.essenceNode, if_pos hseen]
      rw [Task.mapPatterns, image]
      exact ⟨_, .label run, mirror.labelled.binding fun _ _ hn => hn.elim⟩
    | false =>
      have image : (Pattern.label inner name).essence seen f = inner.essence seen f := by
        rw [Pattern.essence_eq, Pattern.mapParts, Pattern.essenceNode,
          if_neg (ne_true_of_eq_false hseen)]
      rw [Task.mapPatterns, image]
      exact ⟨u', run, mirror.unseen (ne_true_of_eq_false hseen)⟩
  | @seed inner rule s seed found =>
    have found' : u.seeds.get? (rule, u.pos) = some seed := by rw [alike.seed trivial, found]
    exact ⟨_, .seed found', alike.adopt seed⟩
  | @once inner rule s s' unseeded blocked _ ih =>
    have unseeded' : u.seeds.get? (rule, u.pos) = none := by rw [alike.seed trivial, unseeded]
    have blocked' : u.blocked.contains rule = true := by rw [alike.blocked, blocked]
    obtain ⟨u', run, mirror⟩ := ih face.parts (alike.seeded rule) trivial
    exact ⟨_, .once unseeded' blocked' run, mirror.unseeded alike.pos⟩
  | @grown inner rule s s' unseeded unblocked _ ih =>
    have unseeded' : u.seeds.get? (rule, u.pos) = none := by rw [alike.seed trivial, unseeded]
    have unblocked' : u.blocked.contains rule = false := by rw [alike.blocked, unblocked]
    obtain ⟨u', run, mirror⟩ := ih face.parts (alike.growing g rule) trivial
    rw [Task.mapPatterns, ← alike.pos] at run
    exact ⟨_, .grown unseeded' unblocked' run, Mirrored.grown alike trivial mirror⟩
  | @hit inner rule s entry found =>
    have found' : u.memo.get? (rule, u.pos) = some entry := by
      rw [alike.pos, alike.memo, found]
    exact ⟨_, .hit found', alike.after entry.outcome entry.furthest⟩
  | @miss inner rule s s' unknown _ ih =>
    have unknown' : u.memo.get? (rule, u.pos) = none := by rw [alike.pos, alike.memo, unknown]
    obtain ⟨u', run, mirror⟩ := ih face.parts alike.clean trivial
    exact ⟨_, .miss unknown' run, Mirrored.kept alike mirror⟩
  | @rule name body s s' found _ ih =>
    obtain ⟨u', run, mirror⟩ := ih (all_body faces found) (alike.entering name) trivial
    have found' : (g.essence seen f).body? name = some (body.essence seen f) := by
      rw [Grammar.body?_essence, found]
      rfl
    exact ⟨_, .rule found' run, Mirrored.leaving alike mirror⟩
  | not _ ih =>
    obtain ⟨u', run, mirror⟩ := ih face.parts alike.clean trivial
    exact ⟨_, .not run, mirror.looked alike⟩
  | opt _ ih =>
    obtain ⟨u', run, mirror⟩ := ih face.parts alike trivial
    exact ⟨_, .opt run, mirror.optional alike⟩
  | star _ ih =>
    obtain ⟨u', run, mirror⟩ := ih face.parts alike trivial
    exact ⟨u', .star run, mirror⟩
  | plusStop _ bad ih =>
    obtain ⟨u', run, mirror⟩ := ih face.parts alike trivial
    exact ⟨u', .plusStop run (mirror.failed.trans bad), mirror⟩
  | @plusStill inner s s' _ good still ih =>
    obtain ⟨u', run, mirror⟩ := ih face.parts alike trivial
    have still' : u'.pos = u.pos := by rw [mirror.alike.pos, alike.pos, still]
    refine ⟨_, .plusStill run (mirror.failed.trans good) still', ?_⟩
    rw [mirror.value]
    exact mirror.given good _
  | @plusNext inner s s' s'' _ good moved _ ih ihRest =>
    obtain ⟨t, run, first⟩ := ih face.parts alike trivial
    have moved' : t.pos ≠ u.pos := by rwa [first.alike.pos, alike.pos]
    obtain ⟨u', runRest, rest⟩ := ihRest face.parts first.alike trivial
    exact ⟨u', .plusNext run (first.failed.trans good) moved' (first.value ▸ runRest),
      first.trans rest⟩
  | paren _ ih =>
    obtain ⟨u', run, mirror⟩ := ih face.parts alike trivial
    exact ⟨u', run, mirror⟩
  | capture _ ih =>
    obtain ⟨u', run, mirror⟩ := ih face.parts alike trivial
    exact ⟨_, .capture run, (mirror.captured alike).binding fun _ _ hn => hn.elim⟩

/-! ## Whole matches -/

/-- Before a match every state agrees with itself, so a whole match has an image with the same
result. -/
theorem finish_essence (closed : ∀ b ∈ g.bodies, b.2.Closed)
    (faces : ∀ b ∈ g.bodies, b.2.Everywhere (Pattern.SeenNode seen f)) {n : Nat} {s : MatchState}
    (h : final? g input n = some s) : ∃ m u, final? (g.essence seen f) input m = some u ∧
      ∀ source, finish source input u = finish source input s := by
  cases found : g.body? g.start with
  | none =>
    have none : (g.essence seen f).body? (g.essence seen f).start = none := by
      rw [Grammar.start_essence, Grammar.body?_essence, found]
      rfl
    rw [final?, found, Option.some.injEq] at h
    refine ⟨0, _, by rw [final?, none], fun source => ?_⟩
    rw [← h, Grammar.start_essence]
  | some body =>
    have found' : (g.essence seen f).body? (g.essence seen f).start
        = some (body.essence seen f) := by
      rw [Grammar.start_essence, Grammar.body?_essence, found]
      rfl
    obtain ⟨u, run, mirror⟩ := (run_of_final? found h).essence closed faces (all_body faces found)
      (Alike.refl _ _ _) trivial
    obtain ⟨m, hu⟩ := exists_final?_of_run found' run
    have furthest : u.furthest = s.furthest := mirror.late.eq rfl rfl
    refine ⟨m, u, hu, fun source => ?_⟩
    rw [finish, finish, mirror.failed, furthest, mirror.alike.pos, mirror.value]

end Match

/-- Grammars with the same essence give the same results wherever both give one. -/
theorem Grammar.run_eq_of_essence {seen : String → Bool} {f f' : Expr → Expr} {g g' : Grammar}
    (closed : ∀ b ∈ g.bodies, b.2.Closed) (closed' : ∀ b ∈ g'.bodies, b.2.Closed)
    (faces : ∀ b ∈ g.bodies, b.2.Everywhere (Pattern.SeenNode seen f))
    (faces' : ∀ b ∈ g'.bodies, b.2.Everywhere (Pattern.SeenNode seen f'))
    (same : g'.essence seen f' = g.essence seen f) {n m : Nat} {source : String}
    {input : Array Char} {r r' : MatchResult} (h : g.run n source input = some r)
    (h' : g'.run m source input = some r') : r' = r := by
  obtain ⟨s, hs, rfl⟩ := Option.map_eq_some_iff.1 h
  obtain ⟨t, ht, rfl⟩ := Option.map_eq_some_iff.1 h'
  obtain ⟨_, u, hu, results⟩ := Match.finish_essence closed faces hs
  obtain ⟨_, v, hv, results'⟩ := Match.finish_essence closed' faces' ht
  rw [same] at hv
  rw [← results source, ← results' source, Match.final?_unique hu hv]

end Pegboard
