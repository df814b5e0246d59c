import RadixScript.Run.Eval

/-!
# Input of a run

A run takes lines from the front of the input and never puts any back, so what is left of the input
afterwards is an end of what was there before. This holds whether the run ends or stops with a
fault. The main statements are `Stmt.exec_takesInput` and `Caller.ofDepth_takesInput`.
-/

namespace RadixScript

/-- The machine after a run, however the run ended. -/
def machineAfter {ε α : Type} : EStateM.Result ε Machine α → Machine
  | .ok _ m => m
  | .error _ m => m

/-- The run leaves an end of the input. -/
def Run.TakesInput {α : Type} (x : Run α) : Prop :=
  ∀ m, (machineAfter (x m)).console.input <:+ m.console.input

/-- Finding a name leaves an end of the input. -/
structure Names.TakesInput (names : Names) : Prop where
  lookUp : ∀ env name d, (names.lookUp env name d).TakesInput
  assign : ∀ env name v d, (names.assign env name v d).TakesInput

/-- Every call leaves an end of the input. -/
def Caller.TakesInput (call : Caller) : Prop := ∀ f args paren, (call f args paren).TakesInput

/-! ## Building blocks -/

namespace Run

variable {α β : Type}

theorem takesInput_pure (a : α) : (pure a : Run α).TakesInput := fun _ => List.suffix_refl _

theorem takesInput_throw (f : Fault) : (throw f : Run α).TakesInput := fun _ => List.suffix_refl _

theorem takesInput_bind {x : Run α} {f : α → Run β} (hx : x.TakesInput)
    (hf : ∀ a, (f a).TakesInput) : (x >>= f).TakesInput := by
  intro m
  have h := hx m
  simp only [bind, EStateM.bind]
  cases hr : x m with
  | ok a m' =>
    rw [hr] at h
    exact (hf a m').trans h
  | error e m' =>
    rw [hr] at h
    exact h

theorem takesInput_lift (x : Except Fault α) : (lift x).TakesInput := by
  cases x with
  | ok a => exact takesInput_pure a
  | error f => exact takesInput_throw f

theorem takesInput_read (f : Scopes → Except Fault α) : (read f).TakesInput :=
  takesInput_bind (fun _ => List.suffix_refl _) fun _ => takesInput_lift _

theorem takesInput_store (target : Scopes → Except Fault ScopeId) (name : String) (v : Value) :
    (store target name v).TakesInput :=
  takesInput_bind (takesInput_read target) fun _ _ => List.suffix_refl _

theorem takesInput_enter (parent : ScopeId) : (enter parent).TakesInput :=
  fun _ => List.suffix_refl _

theorem takesInput_nextSerial : nextSerial.TakesInput := fun _ => List.suffix_refl _

theorem takesInput_write (s : String) : (write s).TakesInput := fun _ => List.suffix_refl _

theorem takesInput_readClock : readClock.TakesInput := by
  intro m
  rw [readClock]
  split <;> exact List.suffix_refl _

theorem takesInput_readLine : readLine.TakesInput := by
  intro m
  rw [readLine]
  split
  · next line rest h =>
    rw [h]
    exact List.suffix_cons line rest
  · split <;> exact List.suffix_refl _

theorem takesInput_located {x : Run α} (t : Token) (hx : x.TakesInput) :
    (located t x).TakesInput := by
  intro m
  have h := hx m
  simp only [located]
  cases hr : x m with
  | ok a m' => simpa [hr] using h
  | error e m' => simpa [hr, machineAfter] using h

end Run

open Run

/-! ## Expressions and statements -/

theorem lookUp_takesInput (env : ScopeId) (name : Token) (d : Option Nat) :
    (lookUp env name d).TakesInput := by
  cases d <;> (rw [lookUp]; exact takesInput_read _)

theorem assignName_takesInput (env : ScopeId) (name : Token) (v : Value) (d : Option Nat) :
    (assignName env name v d).TakesInput := by
  cases d <;> (rw [assignName]; exact takesInput_store _ _ _)

theorem Names.tagged_takesInput : Names.tagged.TakesInput :=
  ⟨lookUp_takesInput, assignName_takesInput⟩

theorem defineName_takesInput (env : ScopeId) (name : Token) (v : Value) :
    (defineName env name v).TakesInput :=
  takesInput_bind (takesInput_lift _) fun _ => takesInput_store _ _ _

mutual

theorem Expr.eval_takesInput {names : Names} {call : Caller} (hn : names.TakesInput)
    (hc : call.TakesInput) (env : ScopeId) :
    (e : Expr (Option Nat)) → (e.eval names call env).TakesInput
  | .literal v => by rw [Expr.eval]; exact takesInput_pure _
  | .group e => by rw [Expr.eval]; exact e.eval_takesInput hn hc env
  | .logical l op r => by
    rw [Expr.eval]
    refine takesInput_bind (l.eval_takesInput hn hc env) fun left => ?_
    split
    · exact takesInput_pure _
    · exact r.eval_takesInput hn hc env
  | .unary op e => by
    rw [Expr.eval]
    exact takesInput_bind (e.eval_takesInput hn hc env) fun _ => takesInput_lift _
  | .binary l op r => by
    rw [Expr.eval]
    exact takesInput_bind (l.eval_takesInput hn hc env) fun _ =>
      takesInput_bind (r.eval_takesInput hn hc env) fun _ => takesInput_lift _
  | .reference name d => by rw [Expr.eval]; exact hn.lookUp env name d
  | .assign name d e => by
    rw [Expr.eval]
    exact takesInput_bind (e.eval_takesInput hn hc env) fun v =>
      takesInput_bind (hn.assign env name v d) fun _ => takesInput_pure _
  | .call callee paren args => by
    rw [Expr.eval]
    exact takesInput_bind (callee.eval_takesInput hn hc env) fun f =>
      takesInput_bind (Expr.evalAll_takesInput hn hc env args) fun vs => hc f vs paren

theorem Expr.evalAll_takesInput {names : Names} {call : Caller} (hn : names.TakesInput)
    (hc : call.TakesInput) (env : ScopeId) :
    (es : List (Expr (Option Nat))) → (Expr.evalAll names call env es).TakesInput
  | [] => by rw [Expr.evalAll]; exact takesInput_pure _
  | e :: es => by
    rw [Expr.evalAll]
    exact takesInput_bind (e.eval_takesInput hn hc env) fun _ =>
      takesInput_bind (Expr.evalAll_takesInput hn hc env es) fun _ => takesInput_pure _

end

theorem evalOption_takesInput {names : Names} {call : Caller} (hn : names.TakesInput)
    (hc : call.TakesInput) (env : ScopeId)
    (e : Option (Expr (Option Nat))) : (evalOption names call env e).TakesInput := by
  cases e with
  | none => exact takesInput_pure _
  | some e => exact e.eval_takesInput hn hc env

mutual

theorem Stmt.exec_takesInput {names : Names} {call : Caller} (hn : names.TakesInput)
    (hc : call.TakesInput) (env : ScopeId) :
    (s : Stmt (Option Nat)) → (s.exec names call env).TakesInput
  | .expr e => by
    rw [Stmt.exec]
    exact takesInput_bind (e.eval_takesInput hn hc env) fun _ => takesInput_pure _
  | .letDecl name init type => by
    rw [Stmt.exec]
    exact takesInput_bind (evalOption_takesInput hn hc env init) fun v =>
      takesInput_bind (defineName_takesInput env name v) fun _ => takesInput_pure _
  | .block body => by
    rw [Stmt.exec]
    exact takesInput_bind (takesInput_enter env) fun inner =>
      Stmt.execAll_takesInput hn hc inner body
  | .branch c t none => by
    rw [Stmt.exec]
    refine takesInput_bind (c.eval_takesInput hn hc env) fun v => ?_
    split
    · exact t.exec_takesInput hn hc env
    · exact takesInput_pure _
  | .branch c t (some e) => by
    rw [Stmt.exec]
    refine takesInput_bind (c.eval_takesInput hn hc env) fun v => ?_
    split
    · exact t.exec_takesInput hn hc env
    · exact e.exec_takesInput hn hc env
  | .functionDecl name params body => by
    rw [Stmt.exec]
    exact takesInput_bind takesInput_nextSerial fun serial =>
      takesInput_bind (defineName_takesInput env name _) fun _ => takesInput_pure _
  | .returnStmt keyword value => by
    rw [Stmt.exec]
    exact takesInput_bind (evalOption_takesInput hn hc env value) fun _ => takesInput_pure _
  | .namespaceDecl name body => by rw [Stmt.exec]; exact takesInput_pure _

theorem Stmt.execAll_takesInput {names : Names} {call : Caller} (hn : names.TakesInput)
    (hc : call.TakesInput) (env : ScopeId) :
    (ss : List (Stmt (Option Nat))) → (Stmt.execAll names call env ss).TakesInput
  | [] => by rw [Stmt.execAll]; exact takesInput_pure _
  | s :: ss => by
    rw [Stmt.execAll]
    refine takesInput_bind (s.exec_takesInput hn hc env) fun c => ?_
    cases c with
    | normal => exact Stmt.execAll_takesInput hn hc env ss
    | returned v => exact takesInput_pure _

end

/-! ## Calls -/

theorem Native.run_takesInput (f : Native) (args : List Value) : (f.run args).TakesInput := by
  cases f
  · exact takesInput_bind takesInput_readClock fun _ => takesInput_pure _
  · exact takesInput_bind (takesInput_lift _) fun _ =>
      takesInput_bind (takesInput_write _) fun _ => takesInput_pure _
  · exact takesInput_bind (takesInput_lift _) fun _ => takesInput_pure _
  · exact takesInput_bind takesInput_readLine fun _ => takesInput_pure _
  all_goals exact takesInput_lift _

theorem bindParams_takesInput (env : ScopeId) (params : List Token) (args : List Value) :
    (bindParams env params args).TakesInput := by
  induction params generalizing args with
  | nil => cases args <;> exact takesInput_pure _
  | cons p ps ih =>
    cases args with
    | nil => exact takesInput_pure _
    | cons v vs => exact takesInput_bind (defineName_takesInput env p v) fun _ => ih vs

theorem withArity_takesInput {arity : Nat} {args : List Value} {paren : Token} {body : Run Value}
    (h : body.TakesInput) : (withArity arity args paren body).TakesInput := by
  rw [withArity]
  split
  · exact takesInput_located paren h
  · exact takesInput_throw _

theorem callWith_takesInput {runBody : ScopeId → List (Stmt (Option Nat)) → Run Completion}
    (h : ∀ env body, (runBody env body).TakesInput) : (callWith runBody).TakesInput := by
  intro f args paren
  cases f
  case native f _ => exact withArity_takesInput (f.run_takesInput args)
  case closure f =>
    refine withArity_takesInput (takesInput_bind (takesInput_enter _) fun env =>
      takesInput_bind (bindParams_takesInput env _ args) fun _ =>
        takesInput_bind (h env f.body) fun c => ?_)
    cases c <;> exact takesInput_pure _
  all_goals exact takesInput_throw _

/-- **Calls leave an end of the input**, however deep they are nested. -/
theorem Caller.ofDepth_takesInput {names : Names} (hn : names.TakesInput) (depth : Nat) :
    (Caller.ofDepth names depth).TakesInput := by
  induction depth with
  | zero => exact callWith_takesInput fun _ _ => takesInput_throw _
  | succ depth ih =>
    exact callWith_takesInput fun env body => Stmt.execAll_takesInput hn ih env body

end RadixScript
