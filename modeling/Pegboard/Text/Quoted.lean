import Pegboard.Text.Numeral
import Pegboard.Unicode.Property

/-!
# Quoted text

Two ways to write a string in quotes.  Grammar text writes a literal in single quotes, and every
escape that it uses is one that reading a grammar undoes.  Debug text writes a string in double
quotes and escapes whatever would not show as a character of its own.
-/

namespace Pegboard.Quoted

open Numeral Unicode

/-! ## Literals of a grammar -/

/-- How a literal writes one character: quotes, backslashes and controls by an escape, the rest as
they are. -/
def literalChar (c : Char) : List Char :=
  if c = '\\' then ['\\', '\\']
  else if c = '\'' then ['\\', '\'']
  else if c = '\n' then ['\\', 'n']
  else if c = '\r' then ['\\', 'r']
  else if c = '\t' then ['\\', 't']
  else if c.toNat < 0x20 || c.toNat = 0x7f then '\\' :: 'x' :: lowerHex 2 c.toNat
  else if isControl c then '\\' :: 'u' :: lowerHex 4 c.toNat
  else [c]

/-- The literal of a grammar that denotes `s`. -/
def literal (s : String) : String :=
  String.ofList ('\'' :: s.toList.flatMap literalChar ++ ['\''])

/-! ## Debug text -/

/-- How debug text writes one character between the quotes `quote`. -/
def debugChar (quote c : Char) : List Char :=
  if c = '\x00' then ['\\', '0']
  else if c = '\t' then ['\\', 't']
  else if c = '\r' then ['\\', 'r']
  else if c = '\n' then ['\\', 'n']
  else if c = '\\' then ['\\', '\\']
  else if c = quote then ['\\', c]
  else if isCombining c || !isPrintable c then
    '\\' :: 'u' :: '\x7b' :: lowerHex 1 c.toNat ++ ['\x7d']
  else [c]

/-- The debug text of a string, in double quotes. -/
def debugString (s : String) : String :=
  String.ofList ('"' :: s.toList.flatMap (debugChar '"') ++ ['"'])

/-- The debug text of a character, in single quotes. -/
def debugCharacter (c : Char) : String :=
  String.ofList ('\'' :: debugChar '\'' c ++ ['\''])

end Pegboard.Quoted
