import RadixScript.Proofs.Scoping.Growth
import RadixScript.Proofs.Scoping.Inert

/-!
# Machines with other function bodies

A machine is recast when every function of it gets another body, and all else stays: the scopes with
their names, the tokens and numbers of the functions, the console. Reading and writing scopes does
not look into bodies, and neither do operators and native functions. So what they do on a machine
they also do on the recast one (`Run.Recasts`).
-/

namespace RadixScript

variable {α β γ δ : Type}

/-! ## Recasting -/

/-- What the body of a function becomes. -/
abbrev Recast := List (Stmt (Option Nat)) → List (Stmt (Option Nat))

variable {f : Recast}

/-- The function with another body. -/
def Closure.recast (f : Recast) (c : Closure) : Closure := { c with body := f c.body }

/-- The value, a function with another body. -/
def Value.recast (f : Recast) : Value → Value
  | .closure c => .closure (c.recast f)
  | v => v

/-- The bindings with other function bodies. -/
def recastBindings (f : Recast) (bs : List (String × Value)) : List (String × Value) :=
  bs.map fun (x, v) => (x, v.recast f)

/-- The scope with other function bodies. -/
def Scope.recast (f : Recast) (s : Scope) : Scope := ⟨s.parent?, recastBindings f s.bindings⟩

/-- The scopes with other function bodies. -/
def Scopes.recast (f : Recast) (s : Scopes) : Scopes := ⟨s.all.map (Scope.recast f)⟩

/-- The machine with other function bodies. -/
def Machine.recast (f : Recast) (m : Machine) : Machine :=
  ⟨m.scopes.recast f, m.closures, m.console⟩

/-- How a statement ends, with other function bodies. -/
def Completion.recast (f : Recast) : Completion → Completion
  | .normal => .normal
  | .returned v => .returned (v.recast f)

/-! ## Values -/

namespace Value

theorem IsInert.recast_eq {v : Value} (h : v.IsInert) : v.recast f = v := by
  cases v
  case closure => exact h.elim
  all_goals rfl

theorem isTruthy_recast (v : Value) : (v.recast f).isTruthy = v.isTruthy := by
  cases v <;> rfl

theorem kind_recast (v : Value) : (v.recast f).kind = v.kind := by
  cases v <;> rfl

theorem display?_recast (v : Value) : (v.recast f).display? = v.display? := by
  cases v <;> rfl

theorem recast_recast (f g : Recast) (v : Value) :
    (v.recast f).recast g = v.recast fun body => g (f body) := by
  cases v <;> rfl

end Value

/-! ## Scopes -/

theorem lookup_recastBindings (x : String) (bs : List (String × Value)) :
    (recastBindings f bs).lookup x = (bs.lookup x).map (Value.recast f) := by
  induction bs with
  | nil => rfl
  | cons b bs ih =>
    obtain ⟨y, v⟩ := b
    rw [recastBindings, List.map_cons, List.lookup_cons, List.lookup_cons]
    cases x == y with
    | true => rfl
    | false => exact ih

theorem recastBindings_setBinding (x : String) (v : Value) (bs : List (String × Value)) :
    recastBindings f (Scope.setBinding x v bs) =
      Scope.setBinding x (v.recast f) (recastBindings f bs) := by
  induction bs with
  | nil => rfl
  | cons b bs ih =>
    obtain ⟨y, u⟩ := b
    rw [Scope.setBinding]
    by_cases hy : y = x
    · rw [if_pos hy]
      simp [recastBindings, Scope.setBinding, hy]
    · rw [if_neg hy]
      simp only [recastBindings, List.map_cons, Scope.setBinding, if_neg hy] at ih ⊢
      rw [ih]

namespace Scopes

theorem scope?_recast (s : Scopes) (i : ScopeId) :
    (s.recast f).scope? i = (s.scope? i).map (Scope.recast f) := by
  rw [scope?, recast, Array.getElem?_map, scope?]

theorem own?_recast (s : Scopes) (i : ScopeId) (x : String) :
    (s.recast f).own? i x = (s.own? i x).map (Value.recast f) := by
  rw [own?, scope?_recast, own?]
  cases s.scope? i with
  | none => rfl
  | some scope => exact lookup_recastBindings x scope.bindings

theorem parent?_recast (s : Scopes) (i : ScopeId) : (s.recast f).parent? i = s.parent? i := by
  have h : ((s.recast f).scope? i).bind Scope.parent? = (s.scope? i).bind Scope.parent? := by
    rw [scope?_recast]
    cases s.scope? i <;> rfl
  simp only [parent?, h]

theorem ancestor?_recast (s : Scopes) (i : ScopeId) (d : Nat) :
    (s.recast f).ancestor? i d = s.ancestor? i d := by
  induction d generalizing i with
  | zero => rfl
  | succ d ih =>
    rw [ancestor?, ancestor?, parent?_recast]
    cases s.parent? i with
    | none => rfl
    | some p => exact ih p

theorem set_recast (s : Scopes) (i : ScopeId) (x : String) (v : Value) :
    (s.recast f).set i x (v.recast f) = (s.set i x v).recast f := by
  simp only [set, recast, Scopes.mk.injEq]
  apply Array.ext_getElem?
  intro j
  rw [Array.getElem?_modify, Array.getElem?_map, Array.getElem?_map, Array.getElem?_modify]
  by_cases hij : i = j
  · rw [if_pos hij, if_pos hij]
    cases s.all[j]? with
    | none => rfl
    | some scope =>
      simp only [Option.map_some, Scope.recast, Scope.set, recastBindings_setBinding]
  · rw [if_neg hij, if_neg hij]

theorem create_recast (s : Scopes) (parent : Option ScopeId) :
    (s.recast f).create parent = ((s.create parent).1, (s.create parent).2.recast f) := by
  simp [create, recast, Scope.recast, recastBindings]

end Scopes

theorem recastBindings_recastBindings (f g : Recast) (bs : List (String × Value)) :
    recastBindings g (recastBindings f bs) = recastBindings (fun body => g (f body)) bs := by
  rw [recastBindings, recastBindings, List.map_map, recastBindings]
  refine List.map_congr_left ?_
  rintro ⟨x, v⟩ _
  exact congrArg (Prod.mk x) (v.recast_recast f g)

/-- Changing the bodies of functions twice. -/
theorem Machine.recast_recast (f g : Recast) (m : Machine) :
    (m.recast f).recast g = m.recast fun body => g (f body) := by
  simp only [Machine.recast, Scopes.recast, Array.map_map, Machine.mk.injEq, Scopes.mk.injEq,
    and_true]
  refine Array.map_congr_left ?_
  intro scope _
  exact congrArg (Scope.mk scope.parent?) (recastBindings_recastBindings f g scope.bindings)

/-! ## Runs -/

/-- The outcome of a run, on a machine with other function bodies. -/
def recastResult (f : Recast) (g : α → β) {ε : Type} :
    EStateM.Result ε Machine α → EStateM.Result ε Machine β
  | .ok a m => .ok (g a) (m.recast f)
  | .error e m => .error e (m.recast f)

/-- The second run does on the recast machine what the first one does on the machine. The results
differ by `g`. -/
def Run.Recasts (f : Recast) (g : α → β) (x : Run α) (y : Run β) : Prop :=
  ∀ m, y (m.recast f) = recastResult f g (x m)

namespace Run

theorem recasts_pure {g : α → β} (a : α) : Recasts f g (pure a) (pure (g a)) := fun _ => rfl

theorem recasts_throw {g : α → β} (e : Fault) : Recasts f g (throw e) (throw e) := fun _ => rfl

theorem recasts_bind {g : α → β} {h : γ → δ} {x : Run α} {y : Run β} {k : α → Run γ}
    {k' : β → Run δ} (hx : Recasts f g x y) (hk : ∀ a, Recasts f h (k a) (k' (g a))) :
    Recasts f h (x >>= k) (y >>= k') := by
  intro m
  simp only [bind, EStateM.bind, hx m]
  cases x m with
  | ok a m' => exact hk a m'
  | error e m' => rfl

/-- Two computations that do not touch the machine and have corresponding results. -/
theorem recasts_lift {g : α → β} {x : Except Fault α} {y : Except Fault β} (h : y = x.map g) :
    Recasts f g (lift x) (lift y) := by
  intro m
  rw [h]
  cases x <;> rfl

/-- A computation whose result is no function. -/
theorem recasts_lift_inert {x : Except Fault Value} (h : Yields x Value.IsInert) :
    Recasts f (Value.recast f) (lift x) (lift x) := by
  refine recasts_lift ?_
  cases x with
  | ok v => exact congrArg Except.ok (Value.IsInert.recast_eq h).symm
  | error e => rfl

theorem recasts_read {g : α → β} {x : Scopes → Except Fault α} {y : Scopes → Except Fault β}
    (h : ∀ s, y (s.recast f) = (x s).map g) : Recasts f g (read x) (read y) := by
  intro m
  rw [read_eq, read_eq, show (m.recast f).scopes = m.scopes.recast f from rfl, h]
  cases x m.scopes <;> rfl

theorem recasts_store {x y : Scopes → Except Fault ScopeId} (h : ∀ s, y (s.recast f) = x s)
    (name : String) (v : Value) :
    Recasts f id (store x name v) (store y name (v.recast f)) := by
  intro m
  rw [store_eq, store_eq, show (m.recast f).scopes = m.scopes.recast f from rfl, h]
  cases x m.scopes with
  | error e => rfl
  | ok i =>
    dsimp only
    rw [Scopes.set_recast]
    rfl

theorem recasts_enter (parent : ScopeId) : Recasts f id (enter parent) (enter parent) := by
  intro m
  have h := Scopes.create_recast (f := f) m.scopes (some parent)
  show EStateM.Result.ok ((m.scopes.recast f).create (some parent)).1
    (Machine.mk ((m.scopes.recast f).create (some parent)).2 m.closures m.console) = _
  rw [h]
  rfl

theorem recasts_nextSerial : Recasts f id nextSerial nextSerial := fun _ => rfl

theorem recasts_write (s : String) : Recasts f id (write s) (write s) := fun _ => rfl

theorem recasts_readClock : Recasts f id readClock readClock := by
  intro m
  have hready : ∀ m : Machine, readClock m = bif m.console.known?.any (· ≤ m.console.readings)
      then .error .awaitingReading m
      else .ok (m.console.clock m.console.readings)
        { m with console := { m.console with readings := m.console.readings + 1 } } := fun m =>
    (Bool.cond_eq_ite ..).symm
  rw [hready, hready, show (m.recast f).console = m.console from rfl]
  cases m.console.known?.any (· ≤ m.console.readings) <;> rfl

theorem recasts_readLine : Recasts f id readLine readLine := by
  rintro ⟨scopes, closures, ⟨input, moreLines, output, clock, known?, readings⟩⟩
  cases input with
  | cons line rest => rfl
  | nil => cases moreLines <;> rfl

theorem recasts_located {g : α → β} {x : Run α} {y : Run β} (t : Token) (h : Recasts f g x y) :
    Recasts f g (located t x) (located t y) := by
  intro m
  rw [located, located, h m]
  cases x m <;> rfl

end Run

open Run

/-! ## Operators and native functions -/

theorem Operator.unary_recast (op : Token) (v : Value) :
    Operator.unary op (v.recast f) = Operator.unary op v := by
  cases v <;> rfl

theorem Operator.binary_recast (op : Token) (l r : Value) :
    Operator.binary op (l.recast f) (r.recast f) = Operator.binary op l r := by
  have hleft : ∀ r, Operator.binary op (l.recast f) r = Operator.binary op l r := by
    intro r
    cases l
    case closure c =>
      unfold Operator.binary
      cases r <;> rfl
    all_goals rfl
  rw [hleft]
  cases r
  case closure c =>
    unfold Operator.binary
    cases l <;> rfl
  all_goals rfl

theorem Operator.settles_recast (op : Token) (v : Value) :
    Operator.settles op (v.recast f) = Operator.settles op v := by
  rw [Operator.settles, Operator.settles, Value.isTruthy_recast]

theorem Operator.unary_recasts (op : Token) (v : Value) :
    Recasts f (Value.recast f) (lift (Operator.unary op v))
      (lift (Operator.unary op (v.recast f))) := by
  rw [Operator.unary_recast]
  exact recasts_lift_inert (Operator.unary_yields op v)

theorem Operator.binary_recasts (op : Token) (l r : Value) :
    Recasts f (Value.recast f) (lift (Operator.binary op l r))
      (lift (Operator.binary op (l.recast f) (r.recast f))) := by
  rw [Operator.binary_recast]
  exact recasts_lift_inert (Operator.binary_yields op l r)

namespace Native

theorem display_recast (v : Value) : display (v.recast f) = display v := by
  rw [display, display, Value.display?_recast]

theorem run_recast (g : Native) (args : List Value) :
    g.run (args.map (Value.recast f)) = g.run args := by
  have harg : (args.map (Value.recast f)).headD .null = (args.headD .null).recast f := by
    cases args <;> rfl
  cases g with
  | clock | read => rfl
  | print | str => simp only [run, harg, display_recast]
  | binary | hexadecimal | decimal =>
    simp only [run, harg]
    cases args.headD .null <;> rfl

/-- A native function uses nothing of the machine but the console. -/
theorem run_recasts (g : Native) (args : List Value) :
    Recasts f (Value.recast f) (g.run args) (g.run (args.map (Value.recast f))) := by
  rw [run_recast]
  have hdisplay : ∀ v, Recasts f id (lift (display v)) (lift (display v)) := by
    intro v
    refine recasts_lift ?_
    cases display v <;> rfl
  cases g with
  | clock =>
    exact recasts_bind recasts_readClock fun x => recasts_pure (Value.float x)
  | read =>
    refine recasts_bind recasts_readLine fun line => ?_
    cases line with
    | none => exact recasts_pure Value.null
    | some line => exact recasts_pure (Value.text line)
  | print =>
    exact recasts_bind (hdisplay _) fun _ => recasts_bind (recasts_write _) fun _ =>
      recasts_pure Value.null
  | str => exact recasts_bind (hdisplay _) fun s => recasts_pure (Value.text s)
  | binary => exact recasts_lift_inert (toNumeral_yields _ _)
  | hexadecimal => exact recasts_lift_inert (toNumeral_yields _ _)
  | decimal => exact recasts_lift_inert (toDecimal_yields _)

end Native

/-! ## Names -/

theorem Scopes.getAt_recast (s : Scopes) (env : ScopeId) (d : Nat) (x : Name) :
    (s.recast f).getAt env d x = (s.getAt env d x).map (Value.recast f) := by
  simp only [getAt, ancestor, ancestor?_recast, own?_recast, bind, Except.bind]
  cases s.ancestor? env d with
  | none => rfl
  | some a =>
    dsimp only
    cases s.own? a x.text <;> rfl

theorem Scopes.assigneeAt_recast (s : Scopes) (env : ScopeId) (d : Nat) (x : Name) :
    (s.recast f).assigneeAt env d x = s.assigneeAt env d x := by
  simp only [assigneeAt, ancestor, ancestor?_recast, own?_recast, bind, Except.bind]
  cases s.ancestor? env d with
  | none => rfl
  | some a =>
    dsimp only
    cases s.own? a x.text <;> rfl

theorem Scopes.get_globalScope_recast (s : Scopes) (x : Name) :
    (s.recast f).get globalScope x = (s.get globalScope x).map (Value.recast f) := by
  rw [get, get, get?_globalScope, get?_globalScope, own?_recast]
  cases s.own? globalScope x.text <;> rfl

theorem Scopes.assignee_globalScope_recast (s : Scopes) (x : Name) :
    (s.recast f).assignee globalScope x = s.assignee globalScope x := by
  rw [assignee, assignee, owner?_globalScope, owner?_globalScope, own?_recast]
  cases s.own? globalScope x.text <;> rfl

theorem lookUp_recasts (env : ScopeId) (name : Token) (tag : Option Nat) :
    Recasts f (Value.recast f) (lookUp env name tag) (lookUp env name tag) := by
  cases tag with
  | none =>
    rw [lookUp]
    exact recasts_read fun s => s.get_globalScope_recast (.ofToken name)
  | some d =>
    rw [lookUp]
    exact recasts_read fun s => s.getAt_recast env d (.ofToken name)

theorem assignName_recasts (env : ScopeId) (name : Token) (v : Value) (tag : Option Nat) :
    Recasts f id (assignName env name v tag) (assignName env name (v.recast f) tag) := by
  cases tag with
  | none => exact recasts_store (fun s => s.assignee_globalScope_recast (.ofToken name)) _ v
  | some d => exact recasts_store (fun s => s.assigneeAt_recast env d (.ofToken name)) _ v

theorem defineName_recasts (env : ScopeId) (name : Token) (v : Value) :
    Recasts f id (defineName env name v) (defineName env name (v.recast f)) := by
  have hcheck : (Name.ofToken name).check (v.recast f) = (Name.ofToken name).check v := by
    simp only [Name.check, Value.validate, Value.kind_recast]
  refine recasts_bind (recasts_lift (g := id) ?_) fun _ =>
    recasts_store (fun _ => rfl) name.text v
  rw [hcheck]
  cases (Name.ofToken name).check v <;> rfl

theorem bindParams_recasts (env : ScopeId) (params : List Token) (args : List Value) :
    Recasts f id (bindParams env params args)
      (bindParams env params (args.map (Value.recast f))) := by
  induction params generalizing args with
  | nil => cases args <;> exact recasts_pure ()
  | cons p params ih =>
    cases args with
    | nil => exact recasts_pure ()
    | cons v args =>
      exact recasts_bind (defineName_recasts env p v) fun _ => ih args

end RadixScript
