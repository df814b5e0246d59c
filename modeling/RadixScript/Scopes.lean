import RadixScript.Value.Equality

/-!
# Scopes

A running program has a forest of scopes. Each scope has bindings of its own, in the order in which
its names were first defined, and all but the outermost have a parent. Scopes are numbered in the
order of creation, and a parent is older than its children, so the way outwards ends.

Reading a name looks at the scope and its ancestors, nearest first. Defining a name changes the
scope itself, assigning to it changes the nearest scope that binds it.
-/

namespace RadixScript

/-- One scope: its parent and its bindings, oldest first. -/
structure Scope where
  parent? : Option ScopeId
  bindings : List (String × Value)

namespace Scope

/-- The value of a name in the scope itself. -/
def get? (s : Scope) (name : String) : Option Value := s.bindings.lookup name

/-- The names bound in the scope itself, oldest first. -/
def names (s : Scope) : List String := s.bindings.map (·.1)

/-- Replaces the value of a name, or adds the name at the end. -/
def setBinding (name : String) (v : Value) : List (String × Value) → List (String × Value)
  | [] => [(name, v)]
  | (other, old) :: rest =>
    if other = name then (name, v) :: rest else (other, old) :: setBinding name v rest

/-- Binds a name in the scope itself. -/
def set (s : Scope) (name : String) (v : Value) : Scope :=
  { s with bindings := setBinding name v s.bindings }

end Scope

/-- A name that is looked up, with its token if it has one. -/
structure Name where
  text : String
  token? : Option Token

namespace Name

/-- The name that a token stands for. -/
def ofToken (t : Token) : Name := ⟨t.text, some t⟩

/-- A name without a token. -/
def ofText (s : String) : Name := ⟨s, none⟩

/-- The error that no scope binds the name. -/
def undefined (x : Name) : Fault := .error ⟨.undefined x.text, x.token?⟩

/-- Refuses the values that the name cannot be bound to. -/
def check (x : Name) (v : Value) : Except Fault Unit :=
  v.validate ("binding " ++ Text.quoted x.text)

end Name

/-- The scopes of a running program, oldest first. -/
structure Scopes where
  all : Array Scope

namespace Scopes

/-- No scope. -/
def empty : Scopes := ⟨#[]⟩

/-- The scope with a number. -/
def scope? (s : Scopes) (i : ScopeId) : Option Scope := s.all[i]?

/-- The value of a name in one scope itself. -/
def own? (s : Scopes) (i : ScopeId) (name : String) : Option Value :=
  (s.scope? i).bind (·.get? name)

/-- The parent of a scope, which is older. -/
def parent? (s : Scopes) (i : ScopeId) : Option { p : ScopeId // p < i } :=
  match (s.scope? i).bind (·.parent?) with
  | none => none
  | some p => if h : p < i then some ⟨p, h⟩ else none

/-- Creates a scope without bindings, and gives its number. -/
def create (s : Scopes) (parent? : Option ScopeId) : ScopeId × Scopes :=
  (s.all.size, ⟨s.all.push ⟨parent?, []⟩⟩)

/-- Binds a name in one scope itself. -/
def set (s : Scopes) (i : ScopeId) (name : String) (v : Value) : Scopes :=
  ⟨s.all.modify i (·.set name v)⟩

/-! ## Reading -/

/-- The nearest scope, from one outwards, that binds a name. -/
def owner? (s : Scopes) (i : ScopeId) (name : String) : Option ScopeId :=
  match s.own? i name with
  | some _ => some i
  | none =>
    match s.parent? i with
    | none => none
    | some ⟨p, _⟩ => s.owner? p name
termination_by i

/-- The value of a name, seen from a scope. -/
def get? (s : Scopes) (i : ScopeId) (name : String) : Option Value :=
  match s.own? i name with
  | some v => some v
  | none =>
    match s.parent? i with
    | none => none
    | some ⟨p, _⟩ => s.get? p name
termination_by i

/-- Whether a name can be seen from a scope. -/
def contains (s : Scopes) (i : ScopeId) (name : String) : Bool :=
  match s.own? i name with
  | some _ => true
  | none =>
    match s.parent? i with
    | none => false
    | some ⟨p, _⟩ => s.contains p name
termination_by i

/-- The names that can be seen from a scope, inner ones first, each once. -/
def names (s : Scopes) (i : ScopeId) : List String :=
  let own := ((s.scope? i).map (·.names)).getD []
  match s.parent? i with
  | none => own
  | some ⟨p, _⟩ => own ++ (s.names p).filter fun name => !own.contains name
termination_by i

/-- How many names can be seen from a scope. -/
def count (s : Scopes) (i : ScopeId) : Nat := (s.names i).length

/-- The names that can be seen from a scope, with their values. -/
def items (s : Scopes) (i : ScopeId) : List (String × Value) :=
  (s.names i).filterMap fun name => (s.get? i name).map fun v => (name, v)

/-- How many ancestors a scope has. -/
def depth (s : Scopes) (i : ScopeId) : Nat :=
  match s.parent? i with
  | none => 0
  | some ⟨p, _⟩ => s.depth p + 1
termination_by i

/-- The scope that lies `distance` steps outwards. -/
def ancestor? (s : Scopes) (i : ScopeId) : Nat → Option ScopeId
  | 0 => some i
  | distance + 1 =>
    match s.parent? i with
    | none => none
    | some ⟨p, _⟩ => s.ancestor? p distance

/-- The text that shows a scope: its own names in order, and its depth. -/
def describe (s : Scopes) (i : ScopeId) : String :=
  let own := ((s.scope? i).map (·.names)).getD []
  let sorted := own.mergeSort fun a b => a ≤ b
  "Environment(names=[" ++ ", ".intercalate (sorted.map Text.quoted) ++ "], depth="
    ++ toString (s.depth i) ++ ")"

/-! ## Operations that can fail -/

/-- The value of a name; a name that cannot be seen is an error. -/
def get (s : Scopes) (i : ScopeId) (x : Name) : Except Fault Value :=
  match s.get? i x.text with
  | some v => .ok v
  | none => .error x.undefined

/-- The value of a name, or a given one when the name cannot be seen. -/
def getD (s : Scopes) (i : ScopeId) (x : Name) (default : Value) : Value :=
  (s.get? i x.text).getD default

/-- The value of a name as an item of a scope; a name that cannot be seen is the error itself. -/
def item (s : Scopes) (i : ScopeId) (name : String) : Except String Value :=
  match s.get i (.ofText name) with
  | .ok v => .ok v
  | .error _ => .error name

/-- The scope that lies `distance` steps outwards; too few ancestors are a fault. -/
def ancestor (s : Scopes) (i : ScopeId) (distance : Nat) : Except Fault ScopeId :=
  match s.ancestor? i distance with
  | some a => .ok a
  | none => .error (.shortChain distance)

/-- The value of a name in the scope that lies `distance` steps outwards. -/
def getAt (s : Scopes) (i : ScopeId) (distance : Nat) (x : Name) : Except Fault Value := do
  let a ← s.ancestor i distance
  match s.own? a x.text with
  | some v => pure v
  | none => throw x.undefined

/-- Binds a name in a scope itself. A foreign value is refused. -/
def define (s : Scopes) (i : ScopeId) (x : Name) (v : Value) : Except Fault Scopes := do
  x.check v
  pure (s.set i x.text v)

/-- The scope whose binding an assignment to a name changes: the nearest one that has it. -/
def assignee (s : Scopes) (i : ScopeId) (x : Name) : Except Fault ScopeId :=
  match s.owner? i x.text with
  | some o => .ok o
  | none => .error x.undefined

/-- The scope that lies `distance` steps outwards, which has to bind the name itself. -/
def assigneeAt (s : Scopes) (i : ScopeId) (distance : Nat) (x : Name) : Except Fault ScopeId := do
  let a ← s.ancestor i distance
  match s.own? a x.text with
  | some _ => pure a
  | none => throw x.undefined

/-- Changes the value of a name in the nearest scope that binds it. -/
def assign (s : Scopes) (i : ScopeId) (x : Name) (v : Value) : Except Fault Scopes := do
  let o ← s.assignee i x
  pure (s.set o x.text v)

/-- Changes the value of a name in the scope that lies `distance` steps outwards. -/
def assignAt (s : Scopes) (i : ScopeId) (distance : Nat) (x : Name) (v : Value) :
    Except Fault Scopes := do
  let a ← s.assigneeAt i distance x
  pure (s.set a x.text v)

end Scopes

end RadixScript
