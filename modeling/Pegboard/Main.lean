import Pegboard.Command.Run

/-!
# The command

Reads the files that the command line names, runs the command on their text, and writes what it
gives.
-/

namespace Pegboard.Command

/-- How the command is used. -/
def usage : String :=
  "\n".intercalate
    ["pegboard [OPTIONS] GRAMMAR [INPUT]", "",
      "Matches INPUT, or standard input, with the grammar in the file GRAMMAR.", "",
      "  -o, --output-form FORM   json, pretty, s-expression or debug",
      "      --print-grammar      write the normalized grammar instead of matching",
      "      --raw                write the grammar as it was read",
      "      --lint               report what is legal but unlikely to be meant",
      "      --memoize            keep the outcomes of rules where that is possible",
      "      --left-assoc RULE    let a left-recursive rule associate to the left",
      "      --source-name NAME   the name of the input in failure messages",
      "      --explain CODE       explain a diagnostic code",
      "  -h, --help               show this text",
      "  -V, --version            show the version"]

/-- What to say about a usage error, and the exit code. -/
def UsageError.notice : UsageError → String × UInt32
  | .unknownArgument argument => ("unexpected argument: " ++ argument, 1)
  | .missingGrammar => ("a grammar file is required", 1)
  | .invalidValue option value => ("--" ++ option ++ " does not admit " ++ value, 1)
  | .missingValue option => ("--" ++ option ++ " needs a value", 1)
  | .repeatedOption option => ("--" ++ option ++ " may be given once", 1)
  | .helpRequested => (usage, 0)
  | .versionRequested => ("pegboard 0.1", 0)

/-- How many levels an evaluation may have. -/
def fuel : Nat := 1000000000

/-- Reads the grammar and the input that options name.  What is not needed is not read. -/
def readSources (o : Options) : IO (String × String) := do
  if o.explain.isSome then return ("", "")
  let grammar ← IO.FS.readFile o.grammarFile
  if o.printGrammar then return (grammar, "")
  let input ← match o.inputFile with
    | some path => IO.FS.readFile path
    | none => (← IO.getStdin).readToEnd
  return (grammar, input)

/-- Writes a text and a line break, unless there is nothing to write. -/
def writeLine (stream : IO.FS.Stream) (text : String) : IO Unit := do
  unless text.isEmpty do
    stream.putStrLn text
    stream.flush

/-- Runs the command with options. -/
def execute (o : Options) : IO UInt32 := do
  let (grammar, input) ← readSources o
  match run fuel o grammar input with
  | none =>
    writeLine (← IO.getStderr) "the match did not end"
    return 2
  | some output =>
    writeLine (← IO.getStderr) output.err
    writeLine (← IO.getStdout) output.out
    return output.exitCode.toUInt32

end Pegboard.Command

open Pegboard.Command in
/-- Runs the command. -/
def main (arguments : List String) : IO UInt32 := do
  match Options.read arguments with
  | .error e =>
    let (notice, exitCode) := e.notice
    let stream ← if exitCode = 0 then IO.getStdout else IO.getStderr
    writeLine stream notice
    return exitCode
  | .ok o =>
    try execute o
    catch e =>
      writeLine (← IO.getStderr) ("error: " ++ toString e)
      return 1
