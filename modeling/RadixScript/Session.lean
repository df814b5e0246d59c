import RadixScript.Compile
import RadixScript.Run.Input

/-!
# Sessions

A session keeps one machine while several texts are run on it, so that what one run defines can be
used by the next. A step that fails leaves the machine as it was at that point; in particular, a
text that is rejected leaves it unchanged.

Every step that runs something is given the number of calls that may be nested.
-/

namespace RadixScript

/-- Why a step of a session fails. -/
inductive Failure where
  | rejected (r : Rejection)
  | fault (f : Fault)

/-- A step of a session. -/
abbrev Session := EStateM Failure Machine

/-- Runs a program among the globals. An error of the program is the result, any other fault stops
the run. -/
def Program.interpret (names : Names) (depth : Nat) (p : Program (Option Nat)) :
    Run (Option RuntimeError) :=
  fun m =>
    match Stmt.execAll names (Caller.ofDepth names depth) globalScope p m with
    | .ok _ m' => .ok none m'
    | .error (.error e) m' => .ok (some e) m'
    | .error f m' => .error f m'

namespace Session

variable {α : Type}

/-- A run as a step. -/
def ofRun (x : Run α) : Session α := fun m =>
  match x m with
  | .ok a m' => .ok a m'
  | .error f m' => .error (.fault f) m'

/-- Goes on with a text that has been accepted. -/
def accept : Except Rejection α → Session α
  | .ok a => pure a
  | .error r => throw (.rejected r)

/-- The program of a text, ready to run. -/
def compile (source : String) : Session (Program (Option Nat)) := accept (compileSource source)

/-- Compiles a text and runs it, when names are found in the given way. -/
def runWith (names : Names) (depth : Nat) (source : String) : Session Unit := do
  let p ← compile source
  match ← ofRun (p.interpret names depth) with
  | none => pure ()
  | some e => throw (.fault (.error e))

theorem runWith_of_rejected {source : String} {r : Rejection} (h : compileSource source = .error r)
    (names : Names) (depth : Nat) (m : Machine) :
    runWith names depth source m = .error (.rejected r) m := by
  simp only [runWith, compile, bind, EStateM.bind, h]
  rfl

/-- The outcome of a text, after its statements have ended in the given way. -/
def ofEnd : EStateM.Result Fault Machine Completion → EStateM.Result Failure Machine Unit
  | .ok _ m => .ok () m
  | .error f m => .error (.fault f) m

theorem runWith_of_compiled {source : String} {p : Program (Option Nat)}
    (h : compileSource source = .ok p) (names : Names) (depth : Nat) (m : Machine) :
    runWith names depth source m =
      ofEnd (Stmt.execAll names (Caller.ofDepth names depth) globalScope p m) := by
  simp only [runWith, compile, bind, EStateM.bind, h, accept, pure, EStateM.pure, ofRun,
    Program.interpret, ofEnd]
  cases Stmt.execAll names (Caller.ofDepth names depth) globalScope p m with
  | ok c m' => rfl
  | error f m' => cases f <;> rfl

/-- Compiles a text and runs it. -/
def run (depth : Nat) (source : String) : Session Unit := runWith .tagged depth source

/-- Interprets a text and gives the error that stopped it, if there was one. Unless the text is to
be resolved, all names in it are looked up among the globals. -/
def interpret (depth : Nat) (source : String) (resolve : Bool) : Session (Option RuntimeError) := do
  let p ← accept (parseSource source)
  let ready ← if resolve then accept p.compile else pure p.unresolved
  ofRun (ready.interpret .tagged depth)

/-- Executes statement after statement of a text among the globals, those after a `return` too. -/
def execute (depth : Nat) (source : String) : Session (List Completion) := do
  let p ← accept (parseSource source)
  ofRun (p.unresolved.mapM (Stmt.exec .tagged (Caller.ofDepth .tagged depth) globalScope))

/-- Evaluates the text of an expression among the globals. -/
def evaluate (depth : Nat) (source : String) : Session Value := do
  let p ← accept (parseSource (source ++ ";"))
  match p.unresolved with
  | .expr e :: _ => ofRun (e.eval .tagged (Caller.ofDepth .tagged depth) globalScope)
  | _ => pure .null

/-- The value of a global name. -/
def lookUp (name : String) : Session Value := ofRun (Run.read (·.get globalScope (.ofText name)))

/-- The token for the parenthesis of a call that stands in no text. -/
def parenAt (line : Nat) : Token := ⟨.rightParen, ")", none, line, 0, 0⟩

/-- Calls the function that a global name is bound to. Errors are put at the given line. -/
def call (depth : Nat) (name : String) (args : List Value) (line : Nat) : Session Value := do
  let f ← lookUp name
  ofRun (Caller.ofDepth .tagged depth f args (parenAt line))

end Session

namespace Machine

/-- Whether a binding is worth listing: `null` is not, and neither is a native function of the
session under its own name. -/
def isListed (name : String) : Value → Bool
  | .null => false
  | .native f session => f.name != name || session != ownSession
  | _ => true

/-- The global names that are worth listing and their values, in the order of the names. -/
def globals (m : Machine) : List (String × Value) :=
  ((m.scopes.items globalScope).filter fun (name, v) => isListed name v).mergeSort
    fun a b => a.1 ≤ b.1

end Machine

/-! ## Input -/

theorem Program.interpret_takesInput (depth : Nat) (p : Program (Option Nat)) :
    (p.interpret .tagged depth).TakesInput := by
  intro m
  have hn := Names.tagged_takesInput
  have h := Stmt.execAll_takesInput hn (Caller.ofDepth_takesInput hn depth) globalScope p m
  rw [Program.interpret]
  split <;> simp_all [machineAfter]

/-- A text leaves an end of the input. -/
theorem Session.run_takesInput (depth : Nat) (source : String) (m : Machine) :
    (machineAfter (Session.run depth source m)).console.input <:+ m.console.input := by
  simp only [Session.run, Session.runWith, Session.compile, bind, EStateM.bind]
  cases compileSource source with
  | error r => exact List.suffix_refl _
  | ok p =>
    have h := p.interpret_takesInput depth m
    simp only [Session.accept, pure, EStateM.pure, Session.ofRun]
    cases hr : p.interpret .tagged depth m with
    | ok e m' =>
      rw [hr] at h
      cases e <;> exact h
    | error f m' =>
      rw [hr] at h
      exact h

end RadixScript
