/-!
# Diagnostic codes

Every kind of diagnostic has a code: a letter for the stage that raises it (`S` for scanning, `P`
for parsing, `G` for whole grammars, `L` for lints) and four digits.  A code has an explanation of
several lines, which says at length what the diagnostic is about.
-/

namespace Pegboard

/-- The kinds of diagnostic. -/
inductive Code where
  /-- A character that no token starts with. -/
  | invalidCharacter
  /-- A literal without closing quote. -/
  | unterminatedLiteral
  /-- An escape that denotes no character. -/
  | invalidEscape
  /-- A block comment without end. -/
  | unterminatedComment
  /-- Something else where a rule should start. -/
  | expectedRule
  /-- Something else where an expression should start. -/
  | expectedExpression
  /-- A group without its closing delimiter. -/
  | unclosedDelimiter
  /-- A bound of a range that is not one character. -/
  | invalidRangeBound
  /-- Something else where a certain token should stand. -/
  | expectedToken
  /-- A grammar without rules. -/
  | noRules
  /-- A rule that is defined twice. -/
  | duplicateRule
  /-- A reference to a rule that is not defined. -/
  | undefinedRule
  /-- A left-associative rule that is not left-recursive. -/
  | notLeftRecursive
  /-- An alternative that an earlier one always preempts. -/
  | shadowedAlternative
  /-- A rule that no other rule applies. -/
  | unusedRule
  deriving DecidableEq, Repr, Inhabited

namespace Code

/-- The text of a code. -/
def text : Code → String
  | .invalidCharacter => "S0001"
  | .unterminatedLiteral => "S0002"
  | .invalidEscape => "S0003"
  | .unterminatedComment => "S0004"
  | .expectedRule => "P0001"
  | .expectedExpression => "P0002"
  | .unclosedDelimiter => "P0003"
  | .invalidRangeBound => "P0004"
  | .expectedToken => "P0005"
  | .noRules => "G0001"
  | .duplicateRule => "G0002"
  | .undefinedRule => "G0003"
  | .notLeftRecursive => "G0004"
  | .shadowedAlternative => "L0001"
  | .unusedRule => "L0002"

/-- All codes, by stage. -/
def all : List Code :=
  [.invalidCharacter, .unterminatedLiteral, .invalidEscape, .unterminatedComment, .expectedRule,
    .expectedExpression, .unclosedDelimiter, .invalidRangeBound, .expectedToken, .noRules,
    .duplicateRule, .undefinedRule, .notLeftRecursive, .shadowedAlternative, .unusedRule]

/-- The code of a text. -/
def ofText? (text : String) : Option Code := all.find? (·.text == text)

theorem ofText?_text (c : Code) : ofText? c.text = some c := by
  cases c <;> decide

/-- The lines of the explanation of a code. -/
def explanationLines : Code → List String
  | .invalidCharacter =>
    ["Grammar source may only contain identifiers, numbers, quoted literals, comments, and the",
      "punctuation of the grammar notation:",
      "",
      "```text",
      "= | , ? * + ~ : ( ) \x7b \x7d [ ] . .. ->",
      "```",
      "",
      "Any other character outside of a literal or a comment is rejected. If you meant to match the",
      "character, quote it, as in `'@'`."]
  | .unterminatedLiteral =>
    ["A literal was opened with a quote but never closed before the end of the grammar.",
      "",
      "Literals may span multiple lines, so the closing quote is searched for until the end of the",
      "source. Check for a missing quote, or a quote that was escaped by accident:",
      "",
      "```text",
      "backslash = '\\'",
      "```",
      "",
      "should be written `'\\\\'`."]
  | .invalidEscape =>
    ["An escape sequence in a literal is not recognized. The supported escapes are",
      "",
      "```text",
      "\\n \\r \\t \\\\ \\' \\\" \\xHH \\uHHHH \\UHHHHHHHH",
      "```",
      "",
      "where `H` is a hexadecimal digit. `\\x`, `\\u`, and `\\U` must be followed by exactly 2, 4, and",
      "8 digits respectively, and must name a valid Unicode scalar value."]
  | .unterminatedComment =>
    ["A block comment was opened with `/*` but never closed with `*/`. Block comments do not",
      "nest."]
  | .expectedRule =>
    ["A grammar is a list of rule definitions of the form",
      "",
      "```text",
      "name = alternative | alternative ...",
      "```",
      "",
      "optionally separated by commas. This error fires when something other than a rule name is",
      "found where a new rule is expected. A common cause is a stray closing delimiter:",
      "",
      "```text",
      "a = ('x' 'y'))",
      "```"]
  | .expectedExpression =>
    ["An expression was expected, but the parser found a token that cannot start one.",
      "",
      "Grammar expressions start with a rule name, a literal, `(`, `\x7b`, `~`, `->`, `?(`, or `=\x7b`.",
      "Semantic expressions (after `->`, inside `?( )` and `=\x7b \x7d`) start with a name, a number, a",
      "literal, `[`, or `(`."]
  | .unclosedDelimiter =>
    ["A group opened with `(`, `\x7b`, or `[` was not closed by the matching delimiter.",
      "",
      "```text",
      "a = ('x' | 'y'",
      "```"]
  | .invalidRangeBound =>
    ["Both bounds of a character range must be literals of exactly one character.",
      "",
      "```text",
      "lower = 'a'..'z'",
      "```",
      "",
      "is a valid range, but `'aa'..'z'` and `''..'z'` are not."]
  | .expectedToken =>
    ["The parser expected a specific token here. For example, a rule name must be followed by",
      "`=`, and a `:` label must be followed by the label's name."]
  | .noRules =>
    ["A grammar must define at least one rule. The first rule defined is the starting rule."]
  | .duplicateRule =>
    ["Every rule name may be defined only once. Alternatives of a rule are written in a single",
      "definition separated by `|`:",
      "",
      "```text",
      "value = number",
      "value = string",
      "```",
      "",
      "should be written",
      "",
      "```text",
      "value = number",
      "      | string",
      "```"]
  | .undefinedRule =>
    ["A rule references a name that is neither a rule defined in the grammar nor one of the",
      "builtin rules `anything`, `end`, `digit`, and `letter`.",
      "",
      "Grammars are checked as a whole before they are run, so an undefined reference is an error",
      "even if the referencing alternative would never be tried."]
  | .notLeftRecursive =>
    ["Only left-recursive rules can be made left-associative.",
      "",
      "A rule that is both left- and right-recursive, like",
      "",
      "```text",
      "expr = expr '+' expr | num",
      "```",
      "",
      "associates to the right by default. Naming it as left-associative makes `1+2+3` parse as",
      "`(1+2)+3` instead. Naming a rule that does not exist, or that is not left-recursive, has no",
      "meaning and is rejected."]
  | .shadowedAlternative =>
    ["The shadowed alternative lint detects literal alternatives of a choice that can never match.",
      "",
      "A choice commits to the first alternative that matches. If an earlier alternative is a",
      "literal that is a prefix of a later literal alternative, the later one is never tried on an",
      "input it could match, because the earlier one always matches first:",
      "",
      "```text",
      "op = '<' | '<='",
      "```",
      "",
      "Against the input `<=`, `op` matches only `<`. Place longer literals first:",
      "",
      "```text",
      "op = '<=' | '<'",
      "```"]
  | .unusedRule =>
    ["The unused rule lint detects rules that are never applied.",
      "",
      "Interpretation starts at the first rule of a grammar. Any other rule that no other rule",
      "references can never be reached, and is likely a typo or a leftover:",
      "",
      "```text",
      "expr = num '+' num,",
      "num  = digit+,",
      "nmu  = letter+,",
      "```",
      "",
      "Here `nmu` is never applied. A rule that references only itself is also unused."]

/-- The explanation of a code, with a line break after every line. -/
def explanation (c : Code) : String :=
  String.join (c.explanationLines.map (· ++ "\n"))

end Code

end Pegboard
