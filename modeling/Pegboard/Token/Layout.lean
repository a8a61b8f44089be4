import Pegboard.Token
import Pegboard.Unicode.Property

/-!
# Laid-out tokens

Printing puts tokens in a row, with blanks between some of them.  The row is kept as a list of
pieces until it is written out, so what is printed can be spoken of as tokens and not only as
characters.
-/

namespace Pegboard

/-- A token or a blank. -/
inductive Piece where
  | token (t : Token)
  | blank
  deriving DecidableEq, Repr, Inhabited

namespace Piece

/-- The piece of a symbol. -/
def sym (s : Symbol) : Piece := .token (.symbol s)

/-- The piece of a name. -/
def name (s : String) : Piece := .token (.ident s)

/-- How a piece is written. -/
def text : Piece → String
  | .token t => t.display
  | .blank => " "

/-- The token of a piece, if it is one. -/
def token? : Piece → Option Token
  | .token t => some t
  | .blank => none

end Piece

/-- Tokens in a row, with the blanks between them. -/
abbrev Layout := List Piece

namespace Layout

/-- How a row is written. -/
def text (row : Layout) : String := String.join (row.map Piece.text)

/-- The tokens of a row. -/
def tokens (row : Layout) : List Token := row.filterMap Piece.token?

/-- A row between two delimiters. -/
def between (opener closer : Symbol) (row : Layout) : Layout :=
  Piece.sym opener :: (row ++ [Piece.sym closer])

/-- A row in parentheses. -/
def parens (row : Layout) : Layout := between .openParen .closeParen row

/-- Rows with a separator between each two. -/
def joined (separator : Layout) : List Layout → Layout
  | [] => []
  | [row] => row
  | row :: rows => row ++ separator ++ joined separator rows

/-- Whether what is written starts with an opening parenthesis. -/
def startsWithParen (row : Layout) : Bool := row.text.toList.head? == some '('

theorem tokens_append (a b : Layout) : tokens (a ++ b) = tokens a ++ tokens b := by
  simp [tokens]

end Layout

/-- A text without the blanks at its end. -/
def trimBlanksRight (s : String) : String :=
  String.ofList (s.toList.reverse.dropWhile Unicode.isBlank).reverse

end Pegboard
