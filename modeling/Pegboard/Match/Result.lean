import Pegboard.Match.Eval
import Pegboard.Text.Quoted
import Pegboard.Text.Span

/-!
# The result of a match

Matching an input starts at the first rule of a grammar.  It ends with a value, or with the furthest
failure, which is told in one line: the name of the source, the line, what went wrong there, and the
column.

## Main Definitions

* `MatchResult`: a value or a failure, with an offset.
* `Grammar.run`: match an input, with fuel.
-/

namespace Pegboard

/-- How a match ended. -/
inductive MatchResult where
  /-- With a value, up to an offset. -/
  | accepted (value : Value) (pos : Nat)
  /-- With a failure at an offset, told in a message. -/
  | rejected (message : String) (pos : Nat)
  deriving Inhabited

namespace Match

/-- What went wrong at an offset: the cause, or else the character or the end that was not
expected. -/
def describe (input : Array Char) (failure : Failure) : String :=
  match failure.cause with
  | some cause => cause.message
  | none =>
    match input[failure.pos]? with
    | some c => "Unexpected " ++ Quoted.debugString (String.singleton c)
    | none => "Unexpected end of input"

/-- The line that tells a failure. -/
def report (sourceName : String) (input : Array Char) (failure : Failure) : String :=
  let place := LineCol.of input.toList failure.pos
  sourceName ++ ":" ++ toString place.line ++ " " ++ describe input failure ++ " at column "
    ++ toString place.col

/-- The result that a final state stands for.  Without a recorded failure, the failure is at the
current offset. -/
def finish (sourceName : String) (input : Array Char) (s : MatchState) : MatchResult :=
  if s.failed then
    let failure := s.furthest.getD ⟨s.pos, none⟩
    .rejected (report sourceName input failure) failure.pos
  else .accepted s.value s.pos

/-- The state after the starting rule has been applied at the start of the input. -/
def final? (g : Grammar) (input : Array Char) (fuel : Nat) : Option MatchState :=
  match g.body? g.start with
  | some body => applyRule (eval g input fuel) g.start body .initial
  | none => some (MatchState.initial.fail (some (.unknownRule g.start)))

end Match

/-- The result of matching `input` with a grammar, or `none` if the fuel does not suffice. -/
def Grammar.run (g : Grammar) (fuel : Nat) (sourceName : String) (input : Array Char) :
    Option MatchResult :=
  (Match.final? g input fuel).map (Match.finish sourceName input)

end Pegboard
