import Pegboard.Diagnostic
import Pegboard.Token

/-!
# What goes wrong in grammar text

The ways in which a text fails to be a grammar, each with the diagnostic that tells it.
-/

namespace Pegboard

/-- What was expected in place of another token. -/
inductive Expected where
  | equal | labelName | attributeName | literal | predicateOpener
  deriving DecidableEq, Repr, Inhabited

/-- What was expected, in words. -/
def Expected.text : Expected → String
  | .equal => "`=`"
  | .labelName => "a label name"
  | .attributeName => "an attribute name"
  | .literal => "a literal"
  | .predicateOpener => "`(` or `\x7b`"

/-- Why a text is no grammar. -/
inductive SyntaxError where
  | invalidCharacter (span : Span) (c : Char)
  | unterminatedLiteral (span : Span)
  | invalidEscape (span : Span) (text : String)
  | unterminatedComment (span : Span)
  | expectedRule (found : PlacedToken)
  | expectedExpression (found : PlacedToken)
  | unclosedDelimiter (closer : Symbol) (opener found : PlacedToken)
  | invalidRangeBound (found : PlacedToken)
  | expectedToken (expected : Expected) (found : PlacedToken)
  deriving DecidableEq, Repr, Inhabited

/-- The diagnostic that tells an error. -/
def SyntaxError.diagnostic : SyntaxError → Diagnostic
  | .invalidCharacter span c =>
    let written := String.singleton c
    let title := "Invalid character `" ++ written ++ "`"
    (Diagnostic.error span title .invalidCharacter none).withHelp
      ("to match the character literally, write '" ++ written ++ "'")
  | .unterminatedLiteral span =>
    .error span "Unterminated literal" .unterminatedLiteral (some "literal is opened here")
  | .invalidEscape span text =>
    .error span ("Invalid escape sequence `" ++ text ++ "`") .invalidEscape none
  | .unterminatedComment span =>
    .error span "Unterminated block comment" .unterminatedComment (some "comment is opened here")
  | .expectedRule found =>
    .error found.span ("Expected a rule definition, found " ++ found.token.display) .expectedRule
      (some "expected a rule name")
  | .expectedExpression found =>
    .error found.span ("Expected an expression, found " ++ found.token.display)
      .expectedExpression (some "expected an expression")
  | .unclosedDelimiter closer opener found =>
    (Diagnostic.error found.span
      ("Expected closing `" ++ closer.text ++ "`, found " ++ found.token.display)
      .unclosedDelimiter (some ("expected `" ++ closer.text ++ "`"))).withSpannedNote
      opener.span ("opening `" ++ opener.token.display ++ "` here")
  | .invalidRangeBound found =>
    .error found.span ("Invalid range bound " ++ found.token.display) .invalidRangeBound
      (some "expected a single-character literal")
  | .expectedToken expected found =>
    .error found.span ("Expected " ++ expected.text ++ ", found " ++ found.token.display)
      .expectedToken (some ("expected " ++ expected.text))

end Pegboard
