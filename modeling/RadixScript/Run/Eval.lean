import RadixScript.Run.Native
import RadixScript.Value.Operator

/-!
# Evaluation

Expressions and statements are evaluated by recursion on the tree. What a call does is a parameter
(`Caller`), so that recursion never leaves the tree; `Caller.ofDepth` then ties the knot, by
recursion on the number of calls that may be nested. The language has no loops, so this number is
all that bounds a run.

How names are found is a parameter too (`Names`). Programs are run with `Names.tagged`: a name with
a distance is looked up in the scope at that distance, any other name among the globals.
-/

namespace RadixScript

/-- What a call of a value with arguments does. Errors without a token are put at the given one,
the parenthesis that closes the call. -/
abbrev Caller := Value → List Value → Token → Run Value

/-- How a statement ends: by reaching its end, or at a `return` with a value. -/
inductive Completion where
  | normal
  | returned (v : Value)

/-! ## Names -/

/-- The value of a name at a distance, or among the globals. -/
def lookUp (env : ScopeId) (name : Token) : Option Nat → Run Value
  | some distance => Run.read (·.getAt env distance (.ofToken name))
  | none => Run.read (·.get globalScope (.ofToken name))

/-- Changes the value of a name at a distance, or among the globals. -/
def assignName (env : ScopeId) (name : Token) (v : Value) : Option Nat → Run Unit
  | some distance => Run.store (·.assigneeAt env distance (.ofToken name)) name.text v
  | none => Run.store (·.assignee globalScope (.ofToken name)) name.text v

/-- How names are found, given the scope and the tag of their use. -/
structure Names where
  lookUp : ScopeId → Token → Option Nat → Run Value
  assign : ScopeId → Token → Value → Option Nat → Run Unit

/-- Names are found by their tags. -/
def Names.tagged : Names := ⟨RadixScript.lookUp, assignName⟩

/-- Binds a name in a scope. -/
def defineName (env : ScopeId) (name : Token) (v : Value) : Run Unit := do
  Run.lift ((Name.ofToken name).check v)
  Run.store (fun _ => .ok env) name.text v

/-! ## Expressions -/

mutual

/-- The value of an expression in a scope. -/
def Expr.eval (names : Names) (call : Caller) (env : ScopeId) : Expr (Option Nat) → Run Value
  | .literal v => pure v.value
  | .group e => e.eval names call env
  | .logical l op r => do
    let left ← l.eval names call env
    if Operator.settles op left then pure left else r.eval names call env
  | .unary op e => do
    let v ← e.eval names call env
    Run.lift (Operator.unary op v)
  | .binary l op r => do
    let left ← l.eval names call env
    let right ← r.eval names call env
    Run.lift (Operator.binary op left right)
  | .reference name distance? => names.lookUp env name distance?
  | .assign name distance? e => do
    let v ← e.eval names call env
    names.assign env name v distance?
    pure v
  | .call callee paren args => do
    let f ← callee.eval names call env
    let vs ← Expr.evalAll names call env args
    call f vs paren

/-- The values of expressions, from left to right. -/
def Expr.evalAll (names : Names) (call : Caller) (env : ScopeId) :
    List (Expr (Option Nat)) → Run (List Value)
  | [] => pure []
  | e :: es => do
    let v ← e.eval names call env
    let vs ← Expr.evalAll names call env es
    pure (v :: vs)

end

/-- The value of an expression that may be missing. -/
def evalOption (names : Names) (call : Caller) (env : ScopeId) :
    Option (Expr (Option Nat)) → Run Value
  | none => pure .null
  | some e => e.eval names call env

/-! ## Statements -/

mutual

/-- Executes a statement in a scope. -/
def Stmt.exec (names : Names) (call : Caller) (env : ScopeId) : Stmt (Option Nat) → Run Completion
  | .expr e => do
    let _ ← e.eval names call env
    pure .normal
  | .letDecl name init _ => do
    let v ← evalOption names call env init
    defineName env name v
    pure .normal
  | .block body => do
    let inner ← Run.enter env
    Stmt.execAll names call inner body
  | .branch c t none => do
    let v ← c.eval names call env
    if v.isTruthy then t.exec names call env else pure .normal
  | .branch c t (some e) => do
    let v ← c.eval names call env
    if v.isTruthy then t.exec names call env else e.exec names call env
  | .functionDecl name params body => do
    let serial ← Run.nextSerial
    defineName env name (.closure ⟨name, params, body, env, serial⟩)
    pure .normal
  | .returnStmt _ value => return .returned (← evalOption names call env value)
  | .namespaceDecl _ _ => pure .normal

/-- Executes consecutive statements in a scope, up to a `return`. -/
def Stmt.execAll (names : Names) (call : Caller) (env : ScopeId) :
    List (Stmt (Option Nat)) → Run Completion
  | [] => pure .normal
  | s :: ss => do
    match ← s.exec names call env with
    | .normal => Stmt.execAll names call env ss
    | .returned v => pure (.returned v)

end

/-! ## Calls -/

/-- Binds parameters to arguments in a scope. -/
def bindParams (env : ScopeId) : List Token → List Value → Run Unit
  | p :: ps, v :: vs => do
    defineName env p v
    bindParams env ps vs
  | _, _ => pure ()

/-- Runs the body of a closure in a scope of its own, in which `runBody` executes statements. -/
def Closure.run (runBody : ScopeId → List (Stmt (Option Nat)) → Run Completion) (f : Closure)
    (args : List Value) : Run Value := do
  let env ← Run.enter f.scope
  bindParams env f.params args
  match ← runBody env f.body with
  | .normal => pure .null
  | .returned v => pure v

/-- Runs the body of a function that takes `arity` arguments. -/
def withArity (arity : Nat) (args : List Value) (paren : Token) (body : Run Value) : Run Value :=
  if args.length = arity then Run.located paren body
  else throw (.causeAt paren (.arity arity args.length))

/-- Calls a value, when `runBody` executes the bodies of closures. -/
def callWith (runBody : ScopeId → List (Stmt (Option Nat)) → Run Completion) : Caller :=
  fun callee args paren =>
    match callee with
    | .native f _ => withArity f.arity args paren (f.run args)
    | .closure f => withArity f.params.length args paren (f.run runBody args)
    | _ => throw (.causeAt paren .notCallable)

/-- Calls a value, with at most `depth` calls nested inside. -/
def Caller.ofDepth (names : Names) : Nat → Caller
  | 0 => callWith fun _ _ => throw .tooDeep
  | depth + 1 => callWith (Stmt.execAll names (Caller.ofDepth names depth))

end RadixScript
