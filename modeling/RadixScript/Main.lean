import Mathlib.Init
import RadixScript.CommandLine.Command

/-!
# The executable

The command at a real terminal. Lines of input and readings of the clock are fetched when they are
asked for: the work that asked for one is done again from where it began, with one more of them
known. What the work had written up to then is shown first, and is not shown again.
-/

namespace RadixScript.CommandLine

/-- How deep calls may be nested. -/
def callDepth : Nat := 1000000

/-- How many characters of output and how many messages have been shown. -/
structure Shown where
  characters : Nat
  messages : Nat

/-- Shows what has not been shown yet. -/
def showMore (verbose : Bool) (shown : Shown) (t : Terminal) : IO Shown := do
  let output := t.machine.console.output
  let stdout ← IO.getStdout
  stdout.putStr (String.ofList (output.toList.drop shown.characters))
  stdout.flush
  IO.eprint (Message.render verbose (t.messages.drop shown.messages))
  pure ⟨output.length, t.messages.length⟩

/-- Forgets what has been shown. -/
def clear (t : Terminal) : Terminal :=
  ⟨{ t.machine with console := { t.machine.console with output := "" } }, []⟩

/-- Changes the console of a terminal. -/
def withConsole (f : Console → Console) (t : Terminal) : Terminal :=
  { t with machine := { t.machine with console := f t.machine.console } }

/-- The time, in seconds since the beginning of 1970. -/
def readSeconds : IO Float := do
  let now ← Std.Time.Timestamp.now
  pure (Float.ofInt now.toNanosecondsSinceUnixEpoch.val / 1e9)

/-- Does work at the terminal, and fetches lines and readings as it asks for them. -/
partial def attend {α : Type} (verbose : Bool) (work : AtTerminal α) (shown : Shown)
    (t : Terminal) : IO (Except Failure α × Terminal) := do
  match work t with
  | .error (.fault .awaitingInput) t' =>
    let shown ← showMore verbose shown t'
    let raw ← (← IO.getStdin).getLine
    let arrive : Console → Console :=
      if raw.isEmpty then (·.endInput) else (·.addLine ((Text.lines raw).headD ""))
    attend verbose work shown (withConsole arrive t)
  | .error (.fault .awaitingReading) t' =>
    let shown ← showMore verbose shown t'
    let seconds ← readSeconds
    attend verbose work shown (withConsole (·.addReading seconds) t)
  | .ok a t' =>
    let _ ← showMore verbose shown t'
    pure (.ok a, clear t')
  | .error f t' =>
    let _ ← showMore verbose shown t'
    pure (.error f, clear t')

/-- Ends a command that was stopped. -/
def reportStop (s : Stop) : IO UInt32 := do
  IO.eprintln s.text
  pure 1

/-- Attends the prompt to its end. -/
partial def attendPrompt (mark : String) (verbose : Bool) (pending : List String) (t : Terminal) :
    IO UInt32 := do
  match ← attend verbose (Prompt.step mark callDepth pending) ⟨0, 0⟩ t with
  | (.ok none, _) => pure 0
  | (.ok (some pending), t) => attendPrompt mark verbose pending t
  | (.error f, _) => reportStop (.failure f)

/-- The mark of the prompt: the one that the environment sets, or else the usual one. -/
def readMark : IO String := return (← IO.getEnv "MBASIC_PROMPT").getD Prompt.defaultMark

/-- What a path leads to. -/
def readFile (path : String) : IO FileContent := do
  try
    pure (.bytes (← IO.FS.readBinFile path))
  catch
    | .noFileOrDirectory .. => pure .missing
    | e => throw e

/-- Attends the run of a program file. -/
def attendFile (verbose : Bool) (path : String) : IO UInt32 := do
  match ← readFile (plainPath path) with
  | .missing =>
    IO.eprint (Message.render verbose [.missingFile path])
    pure missingFileCode.toUInt32
  | .directory => reportStop .directory
  | .bytes content =>
    match programText? content with
    | none => reportStop .notText
    | some source =>
      let work := Terminal.runSource callDepth source
      match ← attend verbose work ⟨0, 0⟩ (Terminal.start .awaiting) with
      | (.ok code, _) => pure code.toUInt32
      | (.error f, _) => reportStop (.failure f)

end RadixScript.CommandLine

open RadixScript RadixScript.CommandLine in
/-- Runs the command at the terminal. -/
def main (arguments : List String) : IO UInt32 := do
  match readArguments arguments with
  | .error p =>
    IO.eprint (usageText p)
    pure 2
  | .ok .help =>
    IO.print helpText
    pure 0
  | .ok (.run verbose none) => attendPrompt (← readMark) verbose [] (Terminal.start .awaiting)
  | .ok (.run verbose (some path)) => attendFile verbose path
