import RadixScript.Scopes
import RadixScript.Text.Lines

/-!
# The machine

The state of a running session: its scopes, the number of closures made so far, and the console.
The console holds the lines of input that are left and everything written so far. The clock is a
given sequence of readings, so that a run is a function of its state. On a console that goes on
while a program runs, what is not known yet is awaited.

A run that stops with a fault leaves the state as it was at that point.
-/

namespace RadixScript

/-- Input, output and clock of a session. -/
structure Console where
  /-- The lines that can still be read. -/
  input : List String
  /-- Whether more lines may arrive when there are none left. -/
  moreLines : Bool
  /-- Everything written so far. -/
  output : String
  /-- The readings of the clock, in seconds. -/
  clock : Nat → Float
  /-- How many readings are known, unless all of them are. -/
  known? : Option Nat
  /-- How many readings have been taken. -/
  readings : Nat

/-- The state of a session. -/
structure Machine where
  scopes : Scopes
  /-- The number of closures made so far. -/
  closures : Nat
  console : Console

/-- A computation on a machine that may stop with a fault. -/
abbrev Run := EStateM Fault Machine

/-- The scope of the globals. -/
def globalScope : ScopeId := 0

namespace Console

/-- A console whose input is a whole text. -/
def ofInput (input : String) (clock : Nat → Float) : Console where
  input := Text.lines input
  moreLines := false
  output := ""
  clock := clock
  known? := none
  readings := 0

/-- A console on which everything is still awaited. -/
def awaiting : Console where
  input := []
  moreLines := true
  output := ""
  clock := fun _ => 0
  known? := some 0
  readings := 0

/-- A line arrives. -/
def addLine (c : Console) (line : String) : Console := { c with input := c.input ++ [line] }

/-- No more lines arrive. -/
def endInput (c : Console) : Console := { c with moreLines := false }

/-- A reading of the clock arrives. -/
def addReading (c : Console) (seconds : Float) : Console :=
  match c.known? with
  | none => c
  | some n =>
    { c with clock := fun i => if i = n then seconds else c.clock i, known? := some (n + 1) }

/-- Writes a text. -/
def write (c : Console) (s : String) : Console := { c with output := c.output ++ s }

end Console

/-- The number that a session has for itself. Native functions of other sessions have other
numbers. -/
def ownSession : Nat := 0

/-- The scopes of a new session: the globals, with the native functions. -/
def Scopes.initial : Scopes :=
  let (i, s) := Scopes.empty.create none
  Native.all.foldl (fun s f => s.set i f.name (.native f ownSession)) s

/-- The state of a new session. -/
def Machine.initial (console : Console) : Machine := ⟨.initial, 0, console⟩

namespace Run

/-- A computation that does not touch the machine. -/
def lift {α : Type} : Except Fault α → Run α
  | .ok a => pure a
  | .error f => throw f

/-- Reads from the scopes. -/
def read {α : Type} (f : Scopes → Except Fault α) : Run α := do
  lift (f (← get).scopes)

/-- Binds a name in the scope that `target` finds. -/
def store (target : Scopes → Except Fault ScopeId) (name : String) (v : Value) : Run Unit := do
  let i ← read target
  modify fun ⟨scopes, closures, console⟩ => ⟨scopes.set i name v, closures, console⟩

theorem read_eq {α : Type} (f : Scopes → Except Fault α) (m : Machine) :
    read f m = match f m.scopes with | .ok a => .ok a m | .error e => .error e m := by
  show lift (f m.scopes) m = _
  cases f m.scopes <;> rfl

theorem store_eq (target : Scopes → Except Fault ScopeId) (name : String) (v : Value)
    (m : Machine) :
    store target name v m = match target m.scopes with
      | .ok i => .ok () { m with scopes := m.scopes.set i name v }
      | .error e => .error e m := by
  simp only [store, bind, EStateM.bind, read_eq]
  cases target m.scopes <;> rfl

/-- Creates a scope inside another one. -/
def enter (parent : ScopeId) : Run ScopeId :=
  modifyGet fun ⟨scopes, closures, console⟩ =>
    let (i, s) := scopes.create (some parent)
    (i, ⟨s, closures, console⟩)

/-- A number for a new closure. -/
def nextSerial : Run Nat :=
  modifyGet fun ⟨scopes, closures, console⟩ => (closures, ⟨scopes, closures + 1, console⟩)

/-- Writes a text to the console. -/
def write (s : String) : Run Unit :=
  modify fun ⟨scopes, closures, console⟩ => ⟨scopes, closures, console.write s⟩

/-- Takes a reading of the clock. -/
def readClock : Run Float := fun m =>
  let i := m.console.readings
  if m.console.known?.any (· ≤ i) then .error .awaitingReading m
  else .ok (m.console.clock i) { m with console := { m.console with readings := i + 1 } }

/-- Reads a line; `none` at the end of input. -/
def readLine : Run (Option String) := fun m =>
  match m.console.input with
  | line :: rest => .ok (some line) { m with console := { m.console with input := rest } }
  | [] => if m.console.moreLines then .error .awaitingInput m else .ok none m

/-- Sets the token of an error that has none. -/
def located {α : Type} (t : Token) (x : Run α) : Run α := fun m =>
  match x m with
  | .ok a m' => .ok a m'
  | .error f m' => .error (f.locate t) m'

end Run

end RadixScript
