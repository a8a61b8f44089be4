import Pegboard.Grammar.SyntaxError

/-!
# Scanning

Grammar text is cut into lexemes: tokens, and the blanks and comments between them.  Scanning never
stops early.  What is wrong with a lexeme is recorded, and the lexeme still counts for what it
can be taken for, so that scanning always accounts for every character.

Each lexeme is read off the front of the remaining characters, of which it takes one or more.  Only
the character in front decides what kind of lexeme follows.

## Main Definitions

* `Lexeme.read`: the lexeme at the front of a text.
* `Scan.read`: all lexemes of a text that starts at an offset.
* `scan`: the tokens and errors of a grammar text.
-/

namespace Pegboard

open Numeral Unicode

/-! ## Comments -/

/-- How many characters the rest of a block comment takes, its end included, if it has an end. -/
def blockCommentLength? : List Char → Option Nat
  | [] => none
  | '*' :: '/' :: _ => some 2
  | _ :: rest => (blockCommentLength? rest).map (· + 1)

/-! ## Literals -/

/-- What stands after a backslash: the character that the escape denotes, if it denotes one, and how
many characters the escape takes after its backslash. -/
structure Escape where
  char? : Option Char
  length : Nat
  deriving DecidableEq, Repr, Inhabited

namespace Escape

/-- The escape that gives a code point by `count` hexadecimal digits, which follow a letter. -/
def codePoint (count : Nat) (rest : List Char) : Escape :=
  let digits := (rest.take count).takeWhile isAsciiHexDigit
  ⟨if digits.length = count then charOfHex? digits else none, 1 + digits.length⟩

/-- The escape at the front of a text, its backslash excluded.  There is none at the end. -/
def read? : List Char → Option Escape
  | [] => none
  | 'n' :: _ => some ⟨some '\n', 1⟩
  | 'r' :: _ => some ⟨some '\r', 1⟩
  | 't' :: _ => some ⟨some '\t', 1⟩
  | '\\' :: _ => some ⟨some '\\', 1⟩
  | '\'' :: _ => some ⟨some '\'', 1⟩
  | '"' :: _ => some ⟨some '"', 1⟩
  | 'x' :: rest => some (codePoint 2 rest)
  | 'u' :: rest => some (codePoint 4 rest)
  | 'U' :: rest => some (codePoint 8 rest)
  | _ :: _ => some ⟨none, 1⟩

end Escape

/-- The rest of a literal after its opening quote. -/
structure LiteralBody where
  /-- The characters that the literal denotes. -/
  text : List Char
  /-- How many characters it takes, the closing quote included. -/
  length : Nat
  /-- Whether it has a closing quote. -/
  closed : Bool
  errors : List SyntaxError
  deriving DecidableEq, Repr, Inhabited

namespace LiteralBody

/-- The body of a literal that starts at the offset `pos`.  An escape that denotes no character
adds nothing to the text. -/
def read (quote : Char) (pos : Nat) : List Char → LiteralBody
  | [] => ⟨[], 0, false, []⟩
  | c :: rest =>
    if c = quote then ⟨[], 1, true, []⟩
    else if c = '\\' then
      match Escape.read? rest with
      | none => ⟨[], 1, false, []⟩
      | some escape =>
        let length := 1 + escape.length
        let body := read quote (pos + length) (rest.drop escape.length)
        match escape.char? with
        | some e => ⟨e :: body.text, length + body.length, body.closed, body.errors⟩
        | none =>
          let written := String.ofList ('\\' :: rest.take escape.length)
          let error := SyntaxError.invalidEscape ⟨pos, pos + length⟩ written
          ⟨body.text, length + body.length, body.closed, error :: body.errors⟩
    else
      let body := read quote (pos + 1) rest
      ⟨c :: body.text, 1 + body.length, body.closed, body.errors⟩
termination_by cs => cs.length

end LiteralBody

/-! ## Symbols -/

/-- The symbol that starts with the character `c`, if one does, and how many more characters it
takes.  Only points and the arrow have more than one. -/
def Symbol.read? (c : Char) (rest : List Char) : Option (Symbol × Nat) :=
  match c with
  | '=' => some (.equal, 0)
  | '|' => some (.pipe, 0)
  | ',' => some (.comma, 0)
  | '?' => some (.question, 0)
  | '*' => some (.star, 0)
  | '+' => some (.plus, 0)
  | '~' => some (.tilde, 0)
  | ':' => some (.colon, 0)
  | '(' => some (.openParen, 0)
  | ')' => some (.closeParen, 0)
  | '\x7b' => some (.openBrace, 0)
  | '\x7d' => some (.closeBrace, 0)
  | '[' => some (.openBracket, 0)
  | ']' => some (.closeBracket, 0)
  | '.' => if rest.head? = some '.' then some (.dotDot, 1) else some (.dot, 0)
  | '-' => if rest.head? = some '>' then some (.arrow, 1) else none
  | _ => none

/-! ## Lexemes -/

/-- A piece of grammar text: a token, or a blank or comment, which is no token. -/
structure Lexeme where
  token? : Option Token
  /-- How many characters the lexeme takes after its first. -/
  more : Nat
  errors : List SyntaxError
  deriving DecidableEq, Repr, Inhabited

namespace Lexeme

/-- Whether a character may stand in a name. -/
def isNameChar (c : Char) : Bool := isAlphanumeric c || c = '_'

/-- A block comment at the offset `pos`, after its opening slash. -/
def blockComment (pos : Nat) (rest : List Char) : Lexeme :=
  match blockCommentLength? (rest.drop 1) with
  | some length => ⟨none, 1 + length, []⟩
  | none => ⟨none, rest.length, [.unterminatedComment ⟨pos, pos + 2⟩]⟩

/-- A literal at the offset `pos`, after its opening quote. -/
def literal (quote : Char) (pos : Nat) (rest : List Char) : Lexeme :=
  let body := LiteralBody.read quote (pos + 1) rest
  let unclosed := if body.closed then [] else [SyntaxError.unterminatedLiteral ⟨pos, pos + 1⟩]
  ⟨some (.str (String.ofList body.text)), body.length, body.errors ++ unclosed⟩

/-- A number after its first digit `c`: hexadecimal digits after `0x`, or else decimal ones. -/
def number (c : Char) (rest : List Char) : Lexeme :=
  let decimal : Lexeme :=
    let digits := rest.takeWhile isAsciiDigit
    ⟨some (.dec (String.ofList (c :: digits))), digits.length, []⟩
  match c, rest with
  | '0', x :: d :: rest =>
    if (x = 'x' || x = 'X') && isAsciiHexDigit d then
      let digits := d :: rest.takeWhile isAsciiHexDigit
      ⟨some (.hex (String.ofList digits)), 1 + digits.length, []⟩
    else decimal
  | _, _ => decimal

/-- A name after its first character `c`. -/
def name (c : Char) (rest : List Char) : Lexeme :=
  let more := rest.takeWhile isNameChar
  ⟨some (.ident (String.ofList (c :: more))), more.length, []⟩

/-- A symbol, or else a character that starts no token. -/
def symbol (pos : Nat) (c : Char) (rest : List Char) : Lexeme :=
  match Symbol.read? c rest with
  | some (s, more) => ⟨some (.symbol s), more, []⟩
  | none => ⟨some (.invalid c), 0, [.invalidCharacter ⟨pos, pos + 1⟩ c]⟩

/-- The lexeme at the offset `pos` that starts with the character `c`. -/
def read (pos : Nat) (c : Char) (rest : List Char) : Lexeme :=
  if isBlank c then ⟨none, 0, []⟩
  else if c = '/' && rest.head? = some '/' then ⟨none, (rest.takeWhile (· ≠ '\n')).length, []⟩
  else if c = '/' && rest.head? = some '*' then blockComment pos rest
  else if c = '\'' || c = '"' then literal c pos rest
  else if isAsciiDigit c then number c rest
  else if isAlphabetic c || c = '_' then name c rest
  else symbol pos c rest

end Lexeme

/-! ## Whole texts -/

/-- What scanning gives: the tokens of a text without its end, what is wrong with it, and where it
ends. -/
structure Scan where
  placed : List PlacedToken
  errors : List SyntaxError
  stop : Nat
  deriving DecidableEq, Repr, Inhabited

namespace Scan

/-- The scan of a text that starts at the offset `pos`. -/
def read (pos : Nat) : List Char → Scan
  | [] => ⟨[], [], pos⟩
  | c :: rest =>
    let lexeme := Lexeme.read pos c rest
    let stop := pos + (1 + lexeme.more)
    let following := read stop (rest.drop lexeme.more)
    let placed :=
      match lexeme.token? with
      | some token => ⟨token, ⟨pos, stop⟩⟩ :: following.placed
      | none => following.placed
    ⟨placed, lexeme.errors ++ following.errors, following.stop⟩
termination_by cs => cs.length

/-- All tokens of a text, its end as the last. -/
def tokens (s : Scan) : List PlacedToken := s.placed ++ [⟨.endOfFile, ⟨s.stop, s.stop⟩⟩]

/-- The diagnostics that tell what is wrong with a text. -/
def diagnostics (s : Scan) : List Diagnostic := s.errors.map (·.diagnostic)

end Scan

/-- The tokens and errors of a grammar text. -/
def scan (text : String) : Scan := .read 0 text.toList

end Pegboard
