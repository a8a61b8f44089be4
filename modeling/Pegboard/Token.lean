import Pegboard.Text.Quoted
import Pegboard.Text.Span

/-!
# Tokens

The tokens of grammar text: names, literals, numbers and symbols.  A token carries what it denotes,
a literal its text with the escapes undone, and has a display, which is a way of writing it.
-/

namespace Pegboard

/-- The symbols of grammar text. -/
inductive Symbol where
  | equal | pipe | comma | question | star | plus | tilde | colon
  | openParen | closeParen | openBrace | closeBrace | openBracket | closeBracket
  | dot | dotDot | arrow
  deriving DecidableEq, Repr, Inhabited

/-- How a symbol is written. -/
def Symbol.text : Symbol → String
  | .equal => "="
  | .pipe => "|"
  | .comma => ","
  | .question => "?"
  | .star => "*"
  | .plus => "+"
  | .tilde => "~"
  | .colon => ":"
  | .openParen => "("
  | .closeParen => ")"
  | .openBrace => "\x7b"
  | .closeBrace => "\x7d"
  | .openBracket => "["
  | .closeBracket => "]"
  | .dot => "."
  | .dotDot => ".."
  | .arrow => "->"

/-- A token of grammar text. -/
inductive Token where
  /-- The name of a rule, a label or a variable. -/
  | ident (name : String)
  /-- A literal, with its escapes undone. -/
  | str (text : String)
  /-- A decimal integer, as written. -/
  | dec (digits : String)
  /-- A hexadecimal integer, as written after its `0x`. -/
  | hex (digits : String)
  | symbol (s : Symbol)
  /-- A character that no token starts with. -/
  | invalid (c : Char)
  /-- The end of the text. -/
  | endOfFile
  deriving DecidableEq, Repr, Inhabited

/-- The display of a token. -/
def Token.display : Token → String
  | .ident name => name
  | .str text => Quoted.literal text
  | .dec digits => digits
  | .hex digits => "0x" ++ digits
  | .symbol s => s.text
  | .invalid c => "Invalid(" ++ String.singleton c ++ ")"
  | .endOfFile => "end of file"

/-- A token at its place in a text. -/
structure PlacedToken where
  token : Token
  span : Span
  deriving DecidableEq, Repr, Inhabited

end Pegboard
