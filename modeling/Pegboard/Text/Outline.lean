/-!
# Outlines

An outline shows the structure of a value for inspection: the name of each form, its parts on lines
of their own and indented by four blanks a level, each followed by a comma.  A form without parts is
its name alone, an empty list a pair of brackets.
-/

namespace Pegboard

/-- The structure of a value, for inspection. -/
inductive Outline where
  /-- A text that has no parts. -/
  | leaf (text : String)
  /-- A form with named parts. -/
  | record (name : String) (fields : List (String × Outline))
  /-- A form with parts in order. -/
  | form (name : String) (parts : List Outline)
  | list (items : List Outline)
  /-- A set of texts, or a table with texts as keys. -/
  | table (entries : List (String × Option Outline))
  deriving Inhabited

namespace Outline

/-- A line break and the indentation of the level `level`. -/
def newLine (level : Nat) : String := "\n" ++ String.ofList (List.replicate (4 * level) ' ')

/-- Parts between an opening and a closing mark, on lines of their own. -/
def block (level : Nat) (opening closing : String) (parts : List String) : String :=
  if parts.isEmpty then opening ++ closing
  else
    opening ++ String.join (parts.map fun part => newLine (level + 1) ++ part ++ ",")
      ++ newLine level ++ closing

mutual

/-- The text of an outline whose first line is indented by `level` already. -/
def render (level : Nat) : Outline → String
  | .leaf text => text
  | .record name fields =>
    block level (name ++ " \x7b") "\x7d" (renderFields (level + 1) fields)
  | .form name parts => block level (name ++ "(") ")" (renderAll (level + 1) parts)
  | .list items => block level "[" "]" (renderAll (level + 1) items)
  | .table entries => block level "\x7b" "\x7d" (renderEntries (level + 1) entries)

/-- The texts of the outlines of a list. -/
def renderAll (level : Nat) : List Outline → List String
  | [] => []
  | o :: os => render level o :: renderAll level os

/-- The texts of named parts. -/
def renderFields (level : Nat) : List (String × Outline) → List String
  | [] => []
  | (name, o) :: fields => (name ++ ": " ++ render level o) :: renderFields level fields

/-- The texts of the entries of a table, or of the members of a set. -/
def renderEntries (level : Nat) : List (String × Option Outline) → List String
  | [] => []
  | (key, some o) :: entries => (key ++ ": " ++ render level o) :: renderEntries level entries
  | (key, none) :: entries => key :: renderEntries level entries

end

/-- The text of an outline. -/
def text (o : Outline) : String := render 0 o

end Outline

end Pegboard
