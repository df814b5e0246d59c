import RadixScript.Session

/-!
# The terminal

A session at a terminal tells its user what goes wrong. Messages stand apart from what programs
print. Notes about the work of the session are among the messages, and are shown only if the user
asks for them.
-/

namespace RadixScript

/-- What a session notes about its work. -/
inductive Note where
  | registered (natives : Nat)
  | resolved (uses : Nat)
  | executing (statements : Nat)
  | halted (message : String)
deriving DecidableEq, Repr

def Note.text : Note → String
  | registered n => "mbasic.callables: registered " ++ toString n ++ " native functions"
  | resolved n => "mbasic.resolver: resolved " ++ toString n ++ " local references"
  | executing n => "mbasic.evaluator: executing " ++ toString n ++ " top-level statements"
  | halted message => "mbasic.evaluator: runtime error halted the program: " ++ message

/-- The note about the start of a session. -/
def Note.start : Note := .registered Native.all.length

/-- What is noted about a run of a text, when it ended with the given failure or none. -/
def Note.ofRun (source : String) (failure? : Option Failure) : List Note :=
  match parseSource source with
  | .error _ => []
  | .ok p =>
    .resolved p.resolve.localUses.length ::
      match p.compile, failure? with
      | .error _, _ => []
      | .ok ready, some (.fault (.error e)) => [.executing ready.length, .halted e.cause.message]
      | .ok ready, _ => [.executing ready.length]

/-- What the user is told. -/
inductive Message where
  | note (n : Note)
  | rejected (ds : List Diagnostic)
  | failed (e : RuntimeError)
  | missingFile (path : String)

namespace Message

def text : Message → String
  | note n => n.text
  | rejected ds => Diagnostic.report ds
  | failed e => e.report
  | missingFile path => "Error: file not found: " ++ path

/-- Whether a message is shown. -/
def isShown (verbose : Bool) : Message → Bool
  | note _ => verbose
  | _ => true

/-- The messages that are shown, each on lines of its own. -/
def render (verbose : Bool) (ms : List Message) : String :=
  String.join ((ms.filter (isShown verbose)).map fun m => m.text ++ "\n")

end Message

/-- What the user is told about a failure, and the exit code for it. Failures of the machine are
not reported. -/
def Failure.report? : Failure → Option (Message × Nat)
  | .rejected (.diagnostics ds) => some (.rejected ds, 65)
  | .fault (.error e) => some (.failed e, 70)
  | _ => none

/-- A session and its messages, oldest first. -/
structure Terminal where
  machine : Machine
  messages : List Message

/-- Work at a terminal. -/
abbrev AtTerminal := EStateM Failure Terminal

namespace Terminal

/-- A terminal at which a session has just begun. -/
def start (console : Console) : Terminal := ⟨.initial console, [.note .start]⟩

/-- The lines of input that are left. -/
def input (t : Terminal) : List String := t.machine.console.input

/-- A run as work at the terminal. -/
def ofRun {α : Type} (x : Run α) : AtTerminal α := fun t =>
  match x t.machine with
  | .ok a m => .ok a { t with machine := m }
  | .error f m => .error (.fault f) { t with machine := m }

/-- Runs a text and tells the user about its failure. The result is an exit code. -/
def runSource (depth : Nat) (source : String) : AtTerminal Nat := fun t =>
  match Session.run depth source t.machine with
  | .ok _ m => .ok 0 ⟨m, t.messages ++ (Note.ofRun source none).map .note⟩
  | .error f m =>
    let noted := t.messages ++ (Note.ofRun source (some f)).map .note
    match f.report? with
    | some (message, code) => .ok code ⟨m, noted ++ [message]⟩
    | none => .error f ⟨m, noted⟩

/-- A text leaves an end of the input. -/
theorem runSource_input {depth : Nat} {source : String} {t t' : Terminal} {code : Nat}
    (h : runSource depth source t = .ok code t') : t'.input <:+ t.input := by
  have hrun := Session.run_takesInput depth source t.machine
  rw [runSource] at h
  split at h
  · next m hm =>
    rw [hm] at hrun
    cases h
    exact hrun
  · next f m hm =>
    rw [hm] at hrun
    dsimp only at h
    split at h
    · cases h
      exact hrun
    · cases h

end Terminal

end RadixScript
