import RadixScript.CommandLine.Arguments
import RadixScript.CommandLine.Path
import RadixScript.Prompt

/-!
# The command

The command runs a program file, or the prompt if it is given no path. What it does is a function
of its arguments, of the files, of the mark that is set for the prompt and of its input.

Failures of the machine are not reported to the user. They stop the command, with everything that
was written up to then.
-/

namespace RadixScript.CommandLine

/-- The first line of every answer about the arguments. -/
def usage : String := "usage: mbasic [-h] [--verbose] [path]\n"

/-- The answer to a request for help. -/
def helpText : String :=
  usage
    ++ "\nRun an MBasic file, or start the interactive prompt.\n"
    ++ "\npositional arguments:\n"
    ++ "  path        script to run; omit for the interactive prompt\n"
    ++ "\noptions:\n"
    ++ "  -h, --help  show this help message and exit\n"
    ++ "  --verbose   emit debug logging to stderr\n"

/-- The answer to wrong arguments. -/
def usageText (p : UsageProblem) : String := usage ++ "mbasic: error: " ++ p.message ++ "\n"

/-- What a path leads to. -/
inductive FileContent where
  | missing
  | directory
  | bytes (content : ByteArray)

/-- The text of a program file, if it is one: UTF-8, with line ends unified. -/
def programText? (content : ByteArray) : Option String :=
  (String.fromUTF8? content).map fun s => String.ofList (Text.unifyLineEnds s.toList)

/-- What stops the command. -/
inductive Stop where
  | failure (f : Failure)
  | directory
  /-- A program file is no text. -/
  | notText

/-- The last words of a command that was stopped. -/
def Stop.text : Stop → String
  | directory => "Error: the path leads to a directory"
  | notText => "Error: the file is not UTF-8 text"
  | failure (.rejected .overlong) => "Error: an integer literal has too many digits"
  | failure (.rejected (.diagnostics ds)) => Diagnostic.report ds
  | failure (.fault f) =>
    match f with
    | .error e => e.report
    | .overflow => "Error: an integer is too large for a floating-point number"
    | .overlong => "Error: an integer has too many digits to be written"
    | .tooDeep => "Error: calls are nested too deep"
    | .awaitingInput => "Error: a line of input is missing"
    | .awaitingReading => "Error: a reading of the clock is missing"
    | .foreign _ _ | .shortChain _ => "Error: " ++ f.hostMessage?.getD ""

/-- How the command ends. -/
inductive Ending where
  | code (n : Nat)
  /-- The arguments were answered, and nothing was run. -/
  | answered (status : Nat)
  | stopped (s : Stop)

/-- What the command leaves behind. -/
structure Outcome where
  output : String
  errors : String
  ending : Ending

/-- What work at a terminal leaves behind, when its result is an exit code. -/
def Outcome.ofTerminal (verbose : Bool) : EStateM.Result Failure Terminal Nat → Outcome
  | .ok code t => ⟨t.machine.console.output, Message.render verbose t.messages, .code code⟩
  | .error f t =>
    ⟨t.machine.console.output, Message.render verbose t.messages, .stopped (.failure f)⟩

/-- The exit code for a file that is missing. -/
def missingFileCode : Nat := 66

/-- Runs a program file. `path` is shown to the user as it was given. -/
def runFile (depth : Nat) (verbose : Bool) (path : String) (content : FileContent)
    (console : Console) : Outcome :=
  match content with
  | .missing =>
    ⟨console.output, Message.render verbose [.missingFile path], .code missingFileCode⟩
  | .directory => ⟨console.output, "", .stopped .directory⟩
  | .bytes content =>
    match programText? content with
    | none => ⟨console.output, "", .stopped .notText⟩
    | some source =>
      .ofTerminal verbose (Terminal.runSource depth source (Terminal.start console))

/-- Runs the prompt. -/
def runPrompt (depth : Nat) (verbose : Bool) (console : Console)
    (mark : String := Prompt.defaultMark) : Outcome :=
  .ofTerminal verbose
    ((do Prompt.run mark depth; pure 0 : AtTerminal Nat) (Terminal.start console))

/-- Runs the command. `files` tells what a path in plain form leads to, and `mark?` is the mark of
the prompt that the user has set. -/
def run (depth : Nat) (arguments : List String) (files : String → FileContent)
    (console : Console) (mark? : Option String := none) : Outcome :=
  match readArguments arguments with
  | .error p => ⟨console.output, usageText p, .answered 2⟩
  | .ok .help => ⟨console.output ++ helpText, "", .answered 0⟩
  | .ok (.run verbose none) =>
    runPrompt depth verbose console (mark?.getD Prompt.defaultMark)
  | .ok (.run verbose (some path)) =>
    runFile depth verbose path (files (plainPath path)) console

end RadixScript.CommandLine
