import RadixScript.Session

/-!
# Watched runs

A watched run does to the machine what the run itself does, and keeps a record of it on the side.

* Every block and every call that is entered has a `Frame`: the scope that was created for it, and
  the names that are declared in it around the place where the run is. `Frames` are the frames
  around a place of the text, innermost first. A closure keeps the frames around its declaration,
  and a call of it goes on from there.
* Every use of a name is recorded as a `Visit`, with its frames and the machine at that moment.

The record has no influence on the run. That a watched run and a run agree is shown in
`RadixScript.Proofs.Scoping.Mirror`.
-/

namespace RadixScript

/-! ## Frames -/

/-- A block or a call that the run has entered, seen from a place inside. -/
structure Frame where
  /-- The scope that was created for it. -/
  scope : ScopeId
  /-- The names that are declared in it before the place. -/
  names : List String
  /-- The names that the statements after the one around the place declare in it. -/
  later : List String

/-- The frames around a place of the text, innermost first. At the top level there are none. -/
abbrev Frames := List Frame

namespace Frames

/-- The scope in which the place is executed. -/
def env : Frames → ScopeId
  | [] => globalScope
  | frame :: _ => frame.scope

/-- The names declared in the frames. -/
def locals (frames : Frames) : LocalScopes := frames.map Frame.names

/-- The names that are declared later in the frames. -/
def laters (frames : Frames) : LocalScopes := frames.map Frame.later

/-- Declares a name in the innermost frame. -/
def declare : Frames → String → Frames
  | [], _ => []
  | frame :: outer, name => { frame with names := name :: frame.names } :: outer

/-- Declares several names in the innermost frame. -/
def declareAll (frames : Frames) (names : List String) : Frames := names.foldl declare frames

/-- The same place, when the statements after it declare the given names. -/
def before : Frames → List String → Frames
  | [], _ => []
  | frame :: outer, later => { frame with later := later } :: outer

/-- Enters a block or a body, for which a scope with some names has been created. -/
def enter (frames : Frames) (scope : ScopeId) (names : List String) : Frames :=
  ⟨scope, names, []⟩ :: frames

end Frames

/-- The names that consecutive statements declare in the scope around them. -/
def Stmt.allDeclaredNames {δ : Type} (ss : List (Stmt δ)) : List String :=
  ss.flatMap Stmt.declaredNames

/-! ## The record -/

/-- A use of a name that a run has come to. -/
structure Visit where
  frames : Frames
  name : Token
  tag : Option Nat
  /-- The value that is assigned, unless the name is only read. -/
  assigned? : Option Value
  /-- The machine right before the use. -/
  machine : Machine

/-- The scope of the use. -/
def Visit.env (v : Visit) : ScopeId := v.frames.env

/-- A machine and what has been recorded about its past. -/
structure Watched where
  machine : Machine
  /-- The frames around the declaration of each closure, by its number. -/
  origins : Nat → Frames
  /-- The names that the block or body of each scope declares, parameters included. -/
  plans : ScopeId → List String
  /-- The uses of names so far, latest first. -/
  visits : List Visit

/-- A new session, of which nothing has been recorded. -/
def Watched.initial (console : Console) : Watched := ⟨.initial console, fun _ => [], fun _ => [], []⟩

/-- A run that is watched. -/
abbrev Watch := EStateM Fault Watched

namespace Watch

variable {α : Type}

/-- A run of which nothing is recorded. -/
def plain (x : Run α) : Watch α := fun w =>
  match x w.machine with
  | .ok a m => .ok a { w with machine := m }
  | .error f m => .error f { w with machine := m }

/-- Sets the token of an error that has none. -/
def located (t : Token) (x : Watch α) : Watch α := fun w =>
  match x w with
  | .ok a w' => .ok a w'
  | .error f w' => .error (f.locate t) w'

/-- Records a use of a name. -/
def visit (frames : Frames) (name : Token) (tag : Option Nat) (assigned? : Option Value) :
    Watch Unit := fun w =>
  .ok () { w with visits := ⟨frames, name, tag, assigned?, w.machine⟩ :: w.visits }

/-- Reads a name, by its tag. -/
def lookUp (frames : Frames) (name : Token) (tag : Option Nat) : Watch Value := do
  visit frames name tag none
  plain (RadixScript.lookUp frames.env name tag)

/-- Assigns to a name, by its tag. -/
def assign (frames : Frames) (name : Token) (v : Value) (tag : Option Nat) : Watch Unit := do
  visit frames name tag (some v)
  plain (assignName frames.env name v tag)

/-- Creates a scope inside another one, for a block or body that declares the given names. -/
def enter (parent : ScopeId) (plan : List String) : Watch ScopeId := fun w =>
  match Run.enter parent w.machine with
  | .ok i m =>
    .ok i { w with machine := m, plans := fun j => if j = i then plan else w.plans j }
  | .error f m => .error f { w with machine := m }

/-- A number for a new closure, which is declared in the given frames. -/
def nextSerial (frames : Frames) : Watch Nat := fun w =>
  match Run.nextSerial w.machine with
  | .ok n m =>
    .ok n { w with machine := m, origins := fun k => if k = n then frames else w.origins k }
  | .error f m => .error f { w with machine := m }

/-- The frames around the declaration of a closure. -/
def origin (f : Closure) : Watch Frames := fun w => .ok (w.origins f.serial) w

end Watch

/-! ## Expressions -/

/-- What a call does while it is watched. -/
abbrev Watcher := Value → List Value → Token → Watch Value

mutual

/-- Evaluates an expression at a place. -/
def Expr.watch (call : Watcher) (frames : Frames) : Expr (Option Nat) → Watch Value
  | .literal v => pure v.value
  | .group e => e.watch call frames
  | .logical l op r => do
    let left ← l.watch call frames
    if Operator.settles op left then pure left else r.watch call frames
  | .unary op e => do
    let v ← e.watch call frames
    Watch.plain (Run.lift (Operator.unary op v))
  | .binary l op r => do
    let left ← l.watch call frames
    let right ← r.watch call frames
    Watch.plain (Run.lift (Operator.binary op left right))
  | .reference name tag => Watch.lookUp frames name tag
  | .assign name tag e => do
    let v ← e.watch call frames
    Watch.assign frames name v tag
    pure v
  | .call callee paren args => do
    let f ← callee.watch call frames
    let vs ← Expr.watchAll call frames args
    call f vs paren

/-- Evaluates expressions at a place, from left to right. -/
def Expr.watchAll (call : Watcher) (frames : Frames) :
    List (Expr (Option Nat)) → Watch (List Value)
  | [] => pure []
  | e :: es => do
    let v ← e.watch call frames
    let vs ← Expr.watchAll call frames es
    pure (v :: vs)

end

/-- Evaluates an expression that may be missing. -/
def watchOption (call : Watcher) (frames : Frames) : Option (Expr (Option Nat)) → Watch Value
  | none => pure .null
  | some e => e.watch call frames

/-! ## Statements -/

mutual

/-- Executes a statement at a place. -/
def Stmt.watch (call : Watcher) (frames : Frames) : Stmt (Option Nat) → Watch Completion
  | .expr e => do
    let _ ← e.watch call frames
    pure .normal
  | .letDecl name init _ => do
    let v ← watchOption call frames init
    Watch.plain (defineName frames.env name v)
    pure .normal
  | .block body => do
    let inner ← Watch.enter frames.env (Stmt.allDeclaredNames body)
    Stmt.watchAll call (frames.enter inner []) body
  | .branch c t none => do
    let v ← c.watch call frames
    if v.isTruthy then t.watch call frames else pure .normal
  | .branch c t (some e) => do
    let v ← c.watch call frames
    if v.isTruthy then t.watch call frames else e.watch call frames
  | .functionDecl name params body => do
    let serial ← Watch.nextSerial (frames.declare name.text)
    Watch.plain (defineName frames.env name (.closure ⟨name, params, body, frames.env, serial⟩))
    pure .normal
  | .returnStmt _ value => return .returned (← watchOption call frames value)
  | .namespaceDecl _ _ => pure .normal

/-- Executes consecutive statements, up to a `return`. The names of each are declared for those
after it. -/
def Stmt.watchAll (call : Watcher) (frames : Frames) :
    List (Stmt (Option Nat)) → Watch Completion
  | [] => pure .normal
  | s :: ss => do
    match ← s.watch call (frames.before (Stmt.allDeclaredNames ss)) with
    | .normal => Stmt.watchAll call (frames.declareAll s.declaredNames) ss
    | .returned v => pure (.returned v)

end

/-! ## Calls -/

/-- Runs the body of a closure in a frame of its own. -/
def Closure.watch (runBody : Frames → List (Stmt (Option Nat)) → Watch Completion) (f : Closure)
    (args : List Value) : Watch Value := do
  let params := f.params.map Token.text
  let env ← Watch.enter f.scope (params ++ Stmt.allDeclaredNames f.body)
  Watch.plain (bindParams env f.params args)
  let outer ← Watch.origin f
  match ← runBody (outer.enter env params) f.body with
  | .normal => pure .null
  | .returned v => pure v

/-- Runs the body of a function that takes `arity` arguments. -/
def watchArity (arity : Nat) (args : List Value) (paren : Token) (body : Watch Value) :
    Watch Value :=
  if args.length = arity then Watch.located paren body
  else throw (.causeAt paren (.arity arity args.length))

/-- Calls a value, when `runBody` executes the bodies of closures. -/
def watchWith (runBody : Frames → List (Stmt (Option Nat)) → Watch Completion) : Watcher :=
  fun callee args paren =>
    match callee with
    | .native f _ => watchArity f.arity args paren (Watch.plain (f.run args))
    | .closure f => watchArity f.params.length args paren (f.watch runBody args)
    | _ => throw (.causeAt paren .notCallable)

/-- Calls a value, with at most `depth` calls nested inside. -/
def Watcher.ofDepth : Nat → Watcher
  | 0 => watchWith fun _ _ => throw .tooDeep
  | depth + 1 => watchWith (Stmt.watchAll (Watcher.ofDepth depth))

/-! ## Sessions -/

/-- Compiles a text and runs it among the globals. -/
def Watched.run (depth : Nat) (source : String) : EStateM Failure Watched Unit := fun w =>
  match compileSource source with
  | .error r => .error (.rejected r) w
  | .ok p =>
    match Stmt.watchAll (Watcher.ofDepth depth) [] p w with
    | .ok _ w' => .ok () w'
    | .error f w' => .error (.fault f) w'

/-- Takes the steps of a session one after the other, whether they fail or not, and gives their
outcomes. A step is a text with the number of calls that may be nested. -/
def outcomes {σ : Type} (step : Nat → String → EStateM Failure σ Unit) :
    List (Nat × String) → σ → List (Except Failure Unit) × σ
  | [], s => ([], s)
  | (depth, source) :: rest, s =>
    match step depth source s with
    | .ok a s' => (.ok a :: (outcomes step rest s').1, (outcomes step rest s').2)
    | .error f s' => (.error f :: (outcomes step rest s').1, (outcomes step rest s').2)

end RadixScript
