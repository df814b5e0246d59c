import RadixScript.Proofs.Scoping.Inert

/-!
# Laws of runs

A run is put together from a few building blocks: it finds names, creates scopes, asks native
functions and goes from one step to the next. What holds of these blocks, and is kept by going from
step to step, holds of every run. A `RunLaw` is such a property; the induction over trees and over
the depth of calls is made here once (`RunLaw.execAll`, `RunLaw.ofDepth`).

A law may be about the code of closures too. The code of a tree is given by its expressions
(`Stmt.nodes`), and running a tree leads to closures with code of this tree only.
-/

namespace RadixScript

variable {δ : Type}

/-! ## The expressions of a tree -/

mutual

/-- An expression and those inside of it. -/
def Expr.nodes : Expr δ → List (Expr δ)
  | e@(.literal _) | e@(.reference _ _) => [e]
  | e@(.group inner) => e :: inner.nodes
  | e@(.unary _ operand) => e :: operand.nodes
  | e@(.binary l _ r) | e@(.logical l _ r) => e :: (l.nodes ++ r.nodes)
  | e@(.assign _ _ value) => e :: value.nodes
  | e@(.call callee _ args) => e :: (callee.nodes ++ Expr.allNodes args)

/-- The expressions inside of a list of expressions. -/
def Expr.allNodes : List (Expr δ) → List (Expr δ)
  | [] => []
  | e :: es => e.nodes ++ Expr.allNodes es

end

theorem Expr.mem_nodes_self (e : Expr δ) : e ∈ e.nodes := by
  cases e <;> exact List.mem_cons_self ..

/-- The expressions of an expression that may be missing. -/
def optionNodes : Option (Expr δ) → List (Expr δ)
  | none => []
  | some e => e.nodes

mutual

/-- The expressions of a statement that a run can come to. Those of functions are among them, those
of namespaces are not. -/
def Stmt.nodes : Stmt δ → List (Expr δ)
  | .expr e => e.nodes
  | .letDecl _ init _ => optionNodes init
  | .block body => Stmt.allNodes body
  | .branch c t none => c.nodes ++ t.nodes
  | .branch c t (some e) => c.nodes ++ (t.nodes ++ e.nodes)
  | .returnStmt _ value => optionNodes value
  | .functionDecl _ _ body => Stmt.allNodes body
  | .namespaceDecl _ _ => []

/-- The expressions of consecutive statements that a run can come to. -/
def Stmt.allNodes : List (Stmt δ) → List (Expr δ)
  | [] => []
  | s :: ss => s.nodes ++ Stmt.allNodes ss

end

/-! ## Code of values -/

/-- The code of the value, if it is a closure, consists of expressions that have a property. -/
def Value.MadeOf (node : Expr (Option Nat) → Prop) : Value → Prop
  | .closure f => ∀ x ∈ Stmt.allNodes f.body, node x
  | _ => True

/-- The code of the value that a statement returns consists of such expressions. -/
def Completion.MadeOf (node : Expr (Option Nat) → Prop) : Completion → Prop
  | .normal => True
  | .returned v => v.MadeOf node

theorem Value.IsInert.madeOf {node : Expr (Option Nat) → Prop} {v : Value} (h : v.IsInert) :
    v.MadeOf node := by
  cases v
  case closure => exact h.elim
  all_goals trivial

/-! ## Laws -/

/-- A property of runs, together with one of their results, that the building blocks have and that
is kept from step to step. -/
structure RunLaw where
  /-- What the law assumes about expressions. -/
  node : Expr (Option Nat) → Prop
  /-- The run obeys the law, and its result is as required. -/
  Holds : {α : Type} → (α → Prop) → Run α → Prop
  pure : ∀ {α : Type} {post : α → Prop} {a : α}, post a → Holds post (pure a)
  throw : ∀ {α : Type} {post : α → Prop} (f : Fault), Holds post (throw f)
  bind : ∀ {α β : Type} {mid : α → Prop} {post : β → Prop} {x : Run α} {f : α → Run β},
    Holds mid x → (∀ a, mid a → Holds post (f a)) → Holds post (x >>= f)
  located : ∀ {α : Type} {post : α → Prop} {x : Run α} (t : Token),
    Holds post x → Holds post (Run.located t x)
  lookUp : ∀ env name tag, Holds (Value.MadeOf node) (lookUp env name tag)
  assign : ∀ env name {v} tag, v.MadeOf node → Holds (fun _ => True) (assignName env name v tag)
  define : ∀ env name {v}, v.MadeOf node → Holds (fun _ => True) (defineName env name v)
  enter : ∀ parent, Holds (fun _ => True) (Run.enter parent)
  nextSerial : Holds (fun _ => True) Run.nextSerial
  native : ∀ g args, Holds (Value.MadeOf node) (Native.run g args)

namespace RunLaw

variable (L : RunLaw)

/-- The statements consist of expressions as the law assumes them. -/
abbrev Admits (ss : List (Stmt (Option Nat))) : Prop := ∀ x ∈ Stmt.allNodes ss, L.node x

/-- Calls of values with such code obey the law. -/
def Calls (call : Caller) : Prop :=
  ∀ f args paren, f.MadeOf L.node → (∀ v ∈ args, v.MadeOf L.node) →
    L.Holds (Value.MadeOf L.node) (call f args paren)

variable {L}

theorem lift {x : Except Fault Value} (h : Yields x Value.IsInert) :
    L.Holds (Value.MadeOf L.node) (Run.lift x) := by
  cases x with
  | ok v => exact L.pure h.madeOf
  | error f => exact L.throw f

/-! ### Expressions -/

section trees

variable {call : Caller}

mutual

theorem eval (hc : L.Calls call) (env : ScopeId) : (e : Expr (Option Nat)) →
    (∀ x ∈ e.nodes, L.node x) → L.Holds (Value.MadeOf L.node) (e.eval .tagged call env)
  | .literal v, _ => by
    rw [Expr.eval]
    exact L.pure (by cases v <;> trivial)
  | .group e, h => by
    rw [Expr.eval]
    exact eval hc env e (List.forall_mem_cons.mp h).2
  | .logical l op r, h => by
    rw [Expr.eval]
    obtain ⟨hl, hr⟩ := List.forall_mem_append.mp (List.forall_mem_cons.mp h).2
    refine L.bind (eval hc env l hl) fun left hleft => ?_
    split
    · exact L.pure hleft
    · exact eval hc env r hr
  | .unary op e, h => by
    rw [Expr.eval]
    refine L.bind (eval hc env e (List.forall_mem_cons.mp h).2) fun v _ => ?_
    exact lift (Operator.unary_yields op v)
  | .binary l op r, h => by
    rw [Expr.eval]
    obtain ⟨hl, hr⟩ := List.forall_mem_append.mp (List.forall_mem_cons.mp h).2
    refine L.bind (eval hc env l hl) fun left _ => L.bind (eval hc env r hr) fun right _ => ?_
    exact lift (Operator.binary_yields op left right)
  | .reference name tag, _ => by
    rw [Expr.eval]
    exact L.lookUp env name tag
  | .assign name tag e, h => by
    rw [Expr.eval]
    refine L.bind (eval hc env e (List.forall_mem_cons.mp h).2) fun v hv => ?_
    exact L.bind (L.assign env name tag hv) fun _ _ => L.pure hv
  | .call callee paren args, h => by
    rw [Expr.eval]
    obtain ⟨hcallee, hargs⟩ := List.forall_mem_append.mp (List.forall_mem_cons.mp h).2
    refine L.bind (eval hc env callee hcallee) fun f hf => ?_
    exact L.bind (evalAll hc env args hargs) fun vs hvs => hc f vs paren hf hvs

theorem evalAll (hc : L.Calls call) (env : ScopeId) : (es : List (Expr (Option Nat))) →
    (∀ x ∈ Expr.allNodes es, L.node x) →
    L.Holds (fun vs => ∀ v ∈ vs, v.MadeOf L.node) (Expr.evalAll .tagged call env es)
  | [], _ => by
    rw [Expr.evalAll]
    exact L.pure nofun
  | e :: es, h => by
    rw [Expr.evalAll]
    obtain ⟨he, hes⟩ := List.forall_mem_append.mp h
    refine L.bind (eval hc env e he) fun v hv => L.bind (evalAll hc env es hes) fun vs hvs => ?_
    exact L.pure (List.forall_mem_cons.mpr ⟨hv, hvs⟩)

end

theorem evalOption (hc : L.Calls call) (env : ScopeId) (e : Option (Expr (Option Nat)))
    (h : ∀ x ∈ optionNodes e, L.node x) :
    L.Holds (Value.MadeOf L.node) (evalOption .tagged call env e) := by
  cases e with
  | none => exact L.pure trivial
  | some e => exact eval hc env e h

/-! ### Statements -/

mutual

theorem exec (hc : L.Calls call) (env : ScopeId) : (s : Stmt (Option Nat)) →
    (∀ x ∈ s.nodes, L.node x) → L.Holds (Completion.MadeOf L.node) (s.exec .tagged call env)
  | .expr e, h => by
    rw [Stmt.exec]
    exact L.bind (eval hc env e h) fun _ _ => L.pure trivial
  | .letDecl name init _, h => by
    rw [Stmt.exec]
    refine L.bind (evalOption hc env init h) fun v hv => ?_
    exact L.bind (L.define env name hv) fun _ _ => L.pure trivial
  | .block body, h => by
    rw [Stmt.exec]
    exact L.bind (L.enter env) fun inner _ => execAll hc inner body h
  | .branch c t none, h => by
    rw [Stmt.exec]
    obtain ⟨hcondition, ht⟩ := List.forall_mem_append.mp h
    refine L.bind (eval hc env c hcondition) fun v _ => ?_
    split
    · exact exec hc env t ht
    · exact L.pure trivial
  | .branch c t (some e), h => by
    rw [Stmt.exec]
    obtain ⟨hcondition, hbranches⟩ := List.forall_mem_append.mp h
    obtain ⟨ht, he⟩ := List.forall_mem_append.mp hbranches
    refine L.bind (eval hc env c hcondition) fun v _ => ?_
    split
    · exact exec hc env t ht
    · exact exec hc env e he
  | .functionDecl name params body, h => by
    rw [Stmt.exec]
    refine L.bind L.nextSerial fun serial _ => ?_
    have hf : (Value.closure ⟨name, params, body, env, serial⟩).MadeOf L.node := h
    exact L.bind (L.define env name hf) fun _ _ => L.pure trivial
  | .returnStmt _ value, h => by
    rw [Stmt.exec]
    exact L.bind (evalOption hc env value h) fun v hv => L.pure hv
  | .namespaceDecl _ _, _ => by
    rw [Stmt.exec]
    exact L.pure trivial

/-- **Statements obey the law**, when calls do. -/
theorem execAll (hc : L.Calls call) (env : ScopeId) : (ss : List (Stmt (Option Nat))) →
    L.Admits ss → L.Holds (Completion.MadeOf L.node) (Stmt.execAll .tagged call env ss)
  | [], _ => by
    rw [Stmt.execAll]
    exact L.pure trivial
  | s :: ss, h => by
    rw [Stmt.execAll]
    obtain ⟨hs, hss⟩ := List.forall_mem_append.mp h
    refine L.bind (exec hc env s hs) fun c hcompletion => ?_
    cases c with
    | normal => exact execAll hc env ss hss
    | returned v => exact L.pure hcompletion

end

end trees

/-! ### Calls -/

theorem bindParams (env : ScopeId) (params : List Token) {args : List Value}
    (h : ∀ v ∈ args, v.MadeOf L.node) :
    L.Holds (fun _ => True) (bindParams env params args) := by
  induction params generalizing args with
  | nil => cases args <;> exact L.pure trivial
  | cons p ps ih =>
    cases args with
    | nil => exact L.pure trivial
    | cons v vs =>
      obtain ⟨hv, hvs⟩ := List.forall_mem_cons.mp h
      exact L.bind (L.define env p hv) fun _ _ => ih hvs

theorem withArity {arity : Nat} {args : List Value} {paren : Token} {body : Run Value}
    (h : L.Holds (Value.MadeOf L.node) body) :
    L.Holds (Value.MadeOf L.node) (withArity arity args paren body) := by
  rw [RadixScript.withArity]
  split
  · exact L.located paren h
  · exact L.throw _

theorem callWith {runBody : ScopeId → List (Stmt (Option Nat)) → Run Completion}
    (h : ∀ env body, L.Admits body → L.Holds (Completion.MadeOf L.node) (runBody env body)) :
    L.Calls (callWith runBody) := by
  intro f args paren hf hargs
  cases f
  case native g _ => exact withArity (L.native g args)
  case closure f =>
    refine withArity (L.bind (L.enter f.scope) fun env _ =>
      L.bind (bindParams env f.params hargs) fun _ _ => L.bind (h env f.body hf) fun c hc => ?_)
    cases c with
    | normal => exact L.pure trivial
    | returned v => exact L.pure hc
  all_goals exact L.throw _

/-- **Calls obey the law**, however deep they are nested. -/
theorem ofDepth (depth : Nat) : L.Calls (Caller.ofDepth .tagged depth) := by
  induction depth with
  | zero => exact callWith fun _ _ _ => L.throw _
  | succ depth ih => exact callWith fun env body hbody => execAll ih env body hbody

end RunLaw

end RadixScript
