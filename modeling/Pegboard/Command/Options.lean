/-!
# Command-line options

A command line names a grammar file and, optionally, an input file, and sets options.  An option is
written `--name`, or `--name value` or `--name=value` if it takes a value; `-o` is short for
`--output-form`, and its value may follow it directly.  After `--` every argument names a file.

Arguments are first classified by their form (`Argument`), then taken in one by one (`CommandLine`),
and at the end checked as a whole (`CommandLine.check`).

## Main Definitions

* `OutputForm`: how results are written.
* `Options`: what a command line asks for.
* `Options.read`: the options of a command line.
* `UsageError`: what may be wrong with one.
-/

namespace Pegboard.Command

/-! ## What a command line asks for -/

/-- How results are written. -/
inductive OutputForm where
  /-- Values as compact JSON; the default for values. -/
  | json
  /-- Values as indented JSON, grammars as grammar text; the default for grammars. -/
  | pretty
  /-- Grammars in their interchange form. -/
  | sExpression
  /-- The structure of values and grammars, for debugging. -/
  | debug
  deriving DecidableEq, Repr, Inhabited

namespace OutputForm

/-- The name of an output form. -/
def name : OutputForm → String
  | .json => "json"
  | .pretty => "pretty"
  | .sExpression => "s-expression"
  | .debug => "debug"

/-- All output forms. -/
def all : List OutputForm := [.json, .pretty, .sExpression, .debug]

/-- The output form of a name. -/
def ofName? (name : String) : Option OutputForm := all.find? (·.name == name)

theorem ofName?_name (f : OutputForm) : ofName? f.name = some f := by
  cases f <;> decide

end OutputForm

/-- What a command line asks for. -/
structure Options where
  /-- The file that holds the grammar. -/
  grammarFile : String
  /-- The file that holds the input; standard input if there is none. -/
  inputFile : Option String
  outputForm : Option OutputForm
  /-- Write the grammar instead of matching an input. -/
  printGrammar : Bool
  /-- Write the grammar as it was read, not normalized. -/
  raw : Bool
  /-- Report what is legal in the grammar but unlikely to be meant. -/
  lint : Bool
  /-- Keep the outcomes of rules where that is possible. -/
  memoize : Bool
  /-- The left-recursive rules that are to associate to the left. -/
  leftAssoc : List String
  /-- The name of the input in failure messages. -/
  sourceName : Option String
  /-- The diagnostic code to explain. -/
  explain : Option String
  deriving DecidableEq, Repr, Inhabited

/-- What is wrong with a command line. -/
inductive UsageError where
  /-- An option that does not exist, or a file too many. -/
  | unknownArgument (argument : String)
  /-- No grammar file. -/
  | missingGrammar
  /-- A value that an option does not admit. -/
  | invalidValue (option value : String)
  /-- An option without the value that it takes. -/
  | missingValue (option : String)
  /-- An option that may be given once, given again. -/
  | repeatedOption (option : String)
  /-- The command line asks for help and nothing else. -/
  | helpRequested
  /-- The command line asks for the version and nothing else. -/
  | versionRequested
  deriving DecidableEq, Repr, Inhabited

/-! ## The form of an argument -/

/-- An argument by its form. -/
inductive Argument where
  /-- The argument `--`. -/
  | separator
  /-- A long option, with the value behind its `=`. -/
  | long (name : String) (value : Option String)
  /-- A dash and letters. -/
  | short (letters : List Char)
  /-- Anything else. -/
  | plain
  deriving DecidableEq, Repr, Inhabited

namespace Argument

/-- A value that is written behind an option, without the signs `=` in front of it. -/
def attachedValue (cs : List Char) : String := String.ofList (cs.dropWhile (· == '='))

/-- The form of an argument.  A long option may have more than two dashes; a lone dash is no
option. -/
def classify (argument : String) : Argument :=
  match argument.toList with
  | ['-', '-'] => .separator
  | '-' :: '-' :: cs =>
    let body := cs.dropWhile (· == '-')
    let value := match body.dropWhile (· != '=') with
      | [] => none
      | rest => some (attachedValue rest)
    .long (String.ofList (body.takeWhile (· != '='))) value
  | '-' :: c :: cs => .short (c :: cs)
  | _ => .plain

end Argument

/-! ## Taking in arguments -/

/-- The options that a command line may set. -/
inductive Setting where
  | outputForm | printGrammar | raw | lint | memoize | leftAssoc | sourceName | explain
  deriving DecidableEq, Repr, Inhabited

namespace Setting

/-- The name of an option, without dashes. -/
def name : Setting → String
  | .outputForm => "output-form"
  | .printGrammar => "print-grammar"
  | .raw => "raw"
  | .lint => "lint"
  | .memoize => "memoize"
  | .leftAssoc => "left-assoc"
  | .sourceName => "source-name"
  | .explain => "explain"

/-- All options. -/
def all : List Setting :=
  [.outputForm, .printGrammar, .raw, .lint, .memoize, .leftAssoc, .sourceName, .explain]

/-- The option of a name. -/
def ofName? (name : String) : Option Setting := all.find? (·.name == name)

/-- Whether an option takes a value. -/
def takesValue : Setting → Bool
  | .outputForm | .leftAssoc | .sourceName | .explain => true
  | .printGrammar | .raw | .lint | .memoize => false

/-- Whether an option may be given more than once. -/
def isRepeatable (s : Setting) : Bool := s == .leftAssoc

/-- Whether an option admits a value. -/
def admits : Setting → String → Bool
  | .outputForm, value => (OutputForm.ofName? value).isSome
  | _, _ => true

end Setting

/-- The part of a command line that has been taken in. -/
structure CommandLine where
  /-- The options that were given, in order, one entry for each time. -/
  given : List Setting
  /-- The values of options, in order. -/
  values : List (Setting × String)
  /-- The files, in order. -/
  files : List String
  /-- The option that the next argument may be the value of. -/
  pending : Option Setting
  /-- Whether `--` was passed. -/
  onlyFiles : Bool
  deriving DecidableEq, Repr, Inhabited

namespace CommandLine

/-- Nothing taken in. -/
def start : CommandLine := ⟨[], [], [], none, false⟩

/-- The values of an option, in order. -/
def valuesOf (l : CommandLine) (s : Setting) : List String :=
  (l.values.filter (·.1 == s)).map (·.2)

/-- Whether an option was given. -/
def has (l : CommandLine) (s : Setting) : Bool := l.given.contains s

/-- Takes in a file.  There are two at most. -/
def addFile (l : CommandLine) (file : String) : Except UsageError CommandLine :=
  if l.files.length < 2 then .ok { l with files := l.files ++ [file] }
  else .error (.unknownArgument file)

/-- Takes in the value of an option. -/
def addValue (l : CommandLine) (s : Setting) (value : String) : CommandLine :=
  { l with values := l.values ++ [(s, value)], pending := none }

/-- Takes in an option and the value that is written with it.  A value for an option that takes
none is passed over. -/
def addOption (l : CommandLine) (s : Setting) (value : Option String) : CommandLine :=
  let l := { l with given := l.given ++ [s], pending := none }
  if s.takesValue then
    match value with
    | some value => l.addValue s value
    | none => { l with pending := some s }
  else l

/-- Takes in a long option. -/
def addLong (l : CommandLine) (name : String) (value : Option String) :
    Except UsageError CommandLine :=
  if name = "help" then .error .helpRequested
  else if name = "version" then .error .versionRequested
  else
    match Setting.ofName? name with
    | some s => .ok (l.addOption s value)
    | none => .error (.unknownArgument ("--" ++ name))

/-- Takes in a short option.  Every letter but `o` ends the reading. -/
def addShort (l : CommandLine) : List Char → Except UsageError CommandLine
  | ['o'] => .ok (l.addOption .outputForm none)
  | 'o' :: value => .ok (l.addOption .outputForm (some (Argument.attachedValue value)))
  | 'h' :: _ => .error .helpRequested
  | 'V' :: _ => .error .versionRequested
  | letters => .error (.unknownArgument (String.ofList ('-' :: letters.take 1)))

/-- Takes in one argument. -/
def add (l : CommandLine) (argument : String) : Except UsageError CommandLine :=
  if l.onlyFiles then l.addFile argument
  else
    match Argument.classify argument with
    | .separator => .ok { l with onlyFiles := true }
    | .long name value => l.addLong name value
    | .short letters => l.addShort letters
    | .plain =>
      match l.pending with
      | some s => .ok (l.addValue s argument)
      | none => l.addFile argument

/-- What is wrong with the values and the number of uses of one option. -/
def checkSetting (l : CommandLine) (s : Setting) : Except UsageError Unit :=
  match (l.valuesOf s).find? fun value => !s.admits value with
  | some value => .error (.invalidValue s.name value)
  | none =>
    if l.has s && s.takesValue && (l.valuesOf s).isEmpty then .error (.missingValue s.name)
    else if l.given.count s > 1 && !s.isRepeatable then .error (.repeatedOption s.name)
    else .ok ()

/-- What is wrong with a command line as a whole.  A grammar is needed unless a code is to be
explained; an option at the end that never got a value comes before any other. -/
def check (l : CommandLine) : Except UsageError Unit := do
  if l.files.isEmpty && !l.has .explain then throw .missingGrammar
  if let some s := l.pending then
    if (l.valuesOf s).isEmpty then throw (.missingValue s.name)
  Setting.all.forM l.checkSetting

/-- The options that a command line stands for. -/
def options (l : CommandLine) : Options where
  grammarFile := l.files.head?.getD ""
  inputFile := l.files[1]?
  outputForm := (l.valuesOf .outputForm).head?.bind OutputForm.ofName?
  printGrammar := l.has .printGrammar || l.has .raw
  raw := l.has .raw
  lint := l.has .lint
  memoize := l.has .memoize
  leftAssoc := l.valuesOf .leftAssoc
  sourceName := (l.valuesOf .sourceName).head?
  explain := (l.valuesOf .explain).head?

end CommandLine

/-- The options of the arguments of a command line.  An argument that cannot be taken in, and a
request for help, end the reading at once. -/
def Options.read (arguments : List String) : Except UsageError Options := do
  let line ← arguments.foldlM CommandLine.add CommandLine.start
  line.check
  return line.options

end Pegboard.Command
