import Mathlib.Data.Option.Basic
import RadixScript.Proofs.Recasting.Machines

/-!
# Runs of recast programs

A program becomes another one when its uses of names get other tags, when groups are opened, when
namespaces are dropped, when declarations get other types and functions other bodies
(`Stmt.AllBecomes`). A `Recasting` is a way to do this to programs and to the functions that are
already there at once, such that names are found as before. Under a recasting a program ends as it
did, and leaves the recast machine (`Recasting.execAll`).
-/

namespace RadixScript

/-! ## Trees -/

mutual

/-- The first expression becomes the second. -/
inductive Expr.Becomes (tag : Option Nat → Option Nat → Prop) :
    Expr (Option Nat) → Expr (Option Nat) → Prop
  | literal (v : Literal) : Expr.Becomes tag (.literal v) (.literal v)
  | group {e e'} (h : Expr.Becomes tag e e') : Expr.Becomes tag (.group e) (.group e')
  | ungroup {e e'} (h : Expr.Becomes tag e e') : Expr.Becomes tag (.group e) e'
  | unary {op e e'} (h : Expr.Becomes tag e e') : Expr.Becomes tag (.unary op e) (.unary op e')
  | binary {l l' op r r'} (hl : Expr.Becomes tag l l') (hr : Expr.Becomes tag r r') :
    Expr.Becomes tag (.binary l op r) (.binary l' op r')
  | logical {l l' op r r'} (hl : Expr.Becomes tag l l') (hr : Expr.Becomes tag r r') :
    Expr.Becomes tag (.logical l op r) (.logical l' op r')
  | reference {name t t'} (h : tag t t') :
    Expr.Becomes tag (.reference name t) (.reference name t')
  | assign {name t t' e e'} (h : tag t t') (he : Expr.Becomes tag e e') :
    Expr.Becomes tag (.assign name t e) (.assign name t' e')
  | call {callee callee' paren args args'} (hf : Expr.Becomes tag callee callee')
    (hargs : Expr.AllBecomes tag args args') :
    Expr.Becomes tag (.call callee paren args) (.call callee' paren args')

/-- The expressions of the first list become those of the second. -/
inductive Expr.AllBecomes (tag : Option Nat → Option Nat → Prop) :
    List (Expr (Option Nat)) → List (Expr (Option Nat)) → Prop
  | nil : Expr.AllBecomes tag [] []
  | cons {e e' es es'} (h : Expr.Becomes tag e e') (hs : Expr.AllBecomes tag es es') :
    Expr.AllBecomes tag (e :: es) (e' :: es')

end

mutual

/-- The first statement becomes the second. The body of a function changes by `f`. -/
inductive Stmt.Becomes (f : Recast) (tag : Option Nat → Option Nat → Prop) :
    Stmt (Option Nat) → Stmt (Option Nat) → Prop
  | expr {e e'} (h : e.Becomes tag e') : Stmt.Becomes f tag (.expr e) (.expr e')
  | letDecl {name init init' type type'} (h : Option.Rel (Expr.Becomes tag) init init') :
    Stmt.Becomes f tag (.letDecl name init type) (.letDecl name init' type')
  | block {body body'} (h : Stmt.AllBecomes f tag body body') :
    Stmt.Becomes f tag (.block body) (.block body')
  | branch {c c' t t'} (hc : c.Becomes tag c') (ht : Stmt.Becomes f tag t t') :
    Stmt.Becomes f tag (.branch c t none) (.branch c' t' none)
  | branchElse {c c' t t' e e'} (hc : c.Becomes tag c') (ht : Stmt.Becomes f tag t t')
    (he : Stmt.Becomes f tag e e') :
    Stmt.Becomes f tag (.branch c t (some e)) (.branch c' t' (some e'))
  | returnStmt {keyword value value'} (h : Option.Rel (Expr.Becomes tag) value value') :
    Stmt.Becomes f tag (.returnStmt keyword value) (.returnStmt keyword value')
  | functionDecl {name params body} :
    Stmt.Becomes f tag (.functionDecl name params body) (.functionDecl name params (f body))
  | namespaceDecl {name body body'} :
    Stmt.Becomes f tag (.namespaceDecl name body) (.namespaceDecl name body')

/-- The statements of the first list become those of the second; namespaces may be dropped. -/
inductive Stmt.AllBecomes (f : Recast) (tag : Option Nat → Option Nat → Prop) :
    List (Stmt (Option Nat)) → List (Stmt (Option Nat)) → Prop
  | nil : Stmt.AllBecomes f tag [] []
  | cons {s s' ss ss'} (h : Stmt.Becomes f tag s s') (hs : Stmt.AllBecomes f tag ss ss') :
    Stmt.AllBecomes f tag (s :: ss) (s' :: ss')
  | skip {name body ss ss'} (hs : Stmt.AllBecomes f tag ss ss') :
    Stmt.AllBecomes f tag (.namespaceDecl name body :: ss) ss'

end

/-- A way to change programs and machines that runs do not notice. -/
structure Recasting where
  /-- How names are found before, and how after. -/
  before : Names
  after : Names
  /-- What the body of a function becomes. -/
  body : Recast
  /-- The second tag may take the place of the first. -/
  tag : Option Nat → Option Nat → Prop
  lookUp : ∀ env name {t t'}, tag t t' →
    Run.Recasts body (Value.recast body) (before.lookUp env name t) (after.lookUp env name t')
  assign : ∀ env name v {t t'}, tag t t' →
    Run.Recasts body id (before.assign env name v t)
      (after.assign env name (v.recast body) t')
  bodies : ∀ ss, Stmt.AllBecomes body tag ss (body ss)

namespace Recasting

open Run

variable {R : Recasting}

/-! ## Expressions -/

/-- The second caller does to recast values what the first one does to the values. -/
def Callers (f : Recast) (call call' : Caller) : Prop :=
  ∀ callee args paren, Recasts f (Value.recast f) (call callee args paren)
    (call' (callee.recast f) (args.map (Value.recast f)) paren)

section trees

variable {call call' : Caller}

mutual

theorem eval (hc : Callers R.body call call') (env : ScopeId) : (e : Expr (Option Nat)) →
    ∀ {e'}, e.Becomes R.tag e' →
    Recasts R.body (Value.recast R.body) (e.eval R.before call env) (e'.eval R.after call' env)
  | .literal v, _, h => by
    cases h
    rw [Expr.eval, Expr.eval]
    cases v <;> exact fun _ => rfl
  | .group e, _, h => by
    rw [Expr.eval]
    cases h with
    | group h =>
      rw [Expr.eval]
      exact eval hc env e h
    | ungroup h => exact eval hc env e h
  | .logical l op r, _, h => by
    cases h with | logical hl hr =>
    rw [Expr.eval, Expr.eval]
    refine recasts_bind (eval hc env l hl) fun left => ?_
    rw [Operator.settles_recast]
    by_cases hs : Operator.settles op left = true
    · rw [if_pos hs, if_pos hs]
      exact recasts_pure left
    · rw [if_neg hs, if_neg hs]
      exact eval hc env r hr
  | .unary op e, _, h => by
    cases h with | unary h =>
    rw [Expr.eval, Expr.eval]
    exact recasts_bind (eval hc env e h) fun v => Operator.unary_recasts op v
  | .binary l op r, _, h => by
    cases h with | binary hl hr =>
    rw [Expr.eval, Expr.eval]
    exact recasts_bind (eval hc env l hl) fun left =>
      recasts_bind (eval hc env r hr) fun right => Operator.binary_recasts op left right
  | .reference name t, _, h => by
    cases h with | reference h =>
    rw [Expr.eval, Expr.eval]
    exact R.lookUp env name h
  | .assign name t e, _, h => by
    cases h with | assign h he =>
    rw [Expr.eval, Expr.eval]
    exact recasts_bind (eval hc env e he) fun v =>
      recasts_bind (R.assign env name v h) fun _ => recasts_pure v
  | .call callee paren args, _, h => by
    cases h with | call hf hargs =>
    rw [Expr.eval, Expr.eval]
    exact recasts_bind (eval hc env callee hf) fun f =>
      recasts_bind (evalAll hc env args hargs) fun vs => hc f vs paren

theorem evalAll (hc : Callers R.body call call') (env : ScopeId) :
    (es : List (Expr (Option Nat))) → ∀ {es'}, Expr.AllBecomes R.tag es es' →
    Recasts R.body (List.map (Value.recast R.body)) (Expr.evalAll R.before call env es)
      (Expr.evalAll R.after call' env es')
  | [], _, h => by
    cases h
    rw [Expr.evalAll, Expr.evalAll]
    exact recasts_pure []
  | e :: es, _, h => by
    cases h with | cons h hs =>
    rw [Expr.evalAll, Expr.evalAll]
    exact recasts_bind (eval hc env e h) fun v =>
      recasts_bind (evalAll hc env es hs) fun vs => recasts_pure (v :: vs)

end

theorem evalOption (hc : Callers R.body call call') (env : ScopeId)
    {e e' : Option (Expr (Option Nat))} (h : Option.Rel (Expr.Becomes R.tag) e e') :
    Recasts R.body (Value.recast R.body) (evalOption R.before call env e)
      (RadixScript.evalOption R.after call' env e') := by
  cases h with
  | none => exact recasts_pure Value.null
  | some h => exact eval hc env _ h

/-! ## Statements -/

mutual

theorem exec (hc : Callers R.body call call') (env : ScopeId) : (s : Stmt (Option Nat)) →
    ∀ {s'}, s.Becomes R.body R.tag s' →
    Recasts R.body (Completion.recast R.body) (s.exec R.before call env)
      (s'.exec R.after call' env)
  | .expr e, _, h => by
    cases h with | expr h =>
    rw [Stmt.exec, Stmt.exec]
    exact recasts_bind (eval hc env e h) fun _ => recasts_pure Completion.normal
  | .letDecl name init type, _, h => by
    cases h with | letDecl h =>
    rw [Stmt.exec, Stmt.exec]
    exact recasts_bind (evalOption hc env h) fun v =>
      recasts_bind (defineName_recasts env name v) fun _ => recasts_pure Completion.normal
  | .block body, _, h => by
    cases h with | block h =>
    rw [Stmt.exec, Stmt.exec]
    exact recasts_bind (recasts_enter env) fun inner => execAll hc inner body h
  | .branch c t none, _, h => by
    cases h with | branch hcond ht =>
    rw [Stmt.exec, Stmt.exec]
    refine recasts_bind (eval hc env c hcond) fun v => ?_
    rw [Value.isTruthy_recast]
    by_cases hv : v.isTruthy = true
    · rw [if_pos hv, if_pos hv]
      exact exec hc env t ht
    · rw [if_neg hv, if_neg hv]
      exact recasts_pure Completion.normal
  | .branch c t (some e), _, h => by
    cases h with | branchElse hcond ht he =>
    rw [Stmt.exec, Stmt.exec]
    refine recasts_bind (eval hc env c hcond) fun v => ?_
    rw [Value.isTruthy_recast]
    by_cases hv : v.isTruthy = true
    · rw [if_pos hv, if_pos hv]
      exact exec hc env t ht
    · rw [if_neg hv, if_neg hv]
      exact exec hc env e he
  | .functionDecl name params body, _, h => by
    cases h
    rw [Stmt.exec, Stmt.exec]
    exact recasts_bind recasts_nextSerial fun serial =>
      recasts_bind (defineName_recasts env name (.closure ⟨name, params, body, env, serial⟩))
        fun _ => recasts_pure Completion.normal
  | .returnStmt keyword value, _, h => by
    cases h with | returnStmt h =>
    rw [Stmt.exec, Stmt.exec]
    exact recasts_bind (evalOption hc env h) fun v => recasts_pure (Completion.returned v)
  | .namespaceDecl name body, _, h => by
    cases h
    rw [Stmt.exec, Stmt.exec]
    exact recasts_pure Completion.normal

/-- **Statements that are recast end as before, on a recast machine.** -/
theorem execAll (hc : Callers R.body call call') (env : ScopeId) :
    (ss : List (Stmt (Option Nat))) → ∀ {ss'}, Stmt.AllBecomes R.body R.tag ss ss' →
    Recasts R.body (Completion.recast R.body) (Stmt.execAll R.before call env ss)
      (Stmt.execAll R.after call' env ss')
  | [], _, h => by
    cases h
    rw [Stmt.execAll, Stmt.execAll]
    exact recasts_pure Completion.normal
  | s :: ss, _, h => by
    rw [Stmt.execAll]
    cases h with
    | cons h hs =>
      rw [Stmt.execAll]
      refine recasts_bind (exec hc env s h) fun c => ?_
      cases c with
      | normal => exact execAll hc env ss hs
      | returned v => exact recasts_pure (Completion.returned v)
    | skip hs =>
      -- a namespace does nothing before the rest is executed
      rw [Stmt.exec]
      exact execAll hc env ss hs

end

end trees

/-! ## Calls -/

theorem withArity {f : Recast} {body body' : Run Value} (n : Nat) (args : List Value)
    (paren : Token) (h : Recasts f (Value.recast f) body body') :
    Recasts f (Value.recast f) (withArity n args paren body)
      (RadixScript.withArity n (args.map (Value.recast f)) paren body') := by
  rw [RadixScript.withArity, RadixScript.withArity, List.length_map]
  by_cases hn : args.length = n
  · rw [if_pos hn, if_pos hn]
    exact recasts_located paren h
  · rw [if_neg hn, if_neg hn]
    exact recasts_throw _

theorem callWith {f : Recast}
    {runBody runBody' : ScopeId → List (Stmt (Option Nat)) → Run Completion}
    (h : ∀ env ss, Recasts f (Completion.recast f) (runBody env ss) (runBody' env (f ss))) :
    Callers f (callWith runBody) (RadixScript.callWith runBody') := by
  intro callee args paren
  cases callee
  case native g s => exact withArity _ _ _ (g.run_recasts args)
  case closure c =>
    refine withArity _ _ _ ?_
    refine recasts_bind (recasts_enter c.scope) fun env =>
      recasts_bind (bindParams_recasts env c.params args) fun _ =>
        recasts_bind (h env c.body) fun completion => ?_
    cases completion with
    | normal => exact recasts_pure Value.null
    | returned v => exact recasts_pure v
  all_goals exact recasts_throw _

/-- Calls of recast functions end as before. -/
theorem ofDepth (R : Recasting) (depth : Nat) :
    Callers R.body (.ofDepth R.before depth) (.ofDepth R.after depth) := by
  induction depth with
  | zero => exact callWith fun _ _ => recasts_throw _
  | succ depth ih => exact callWith fun env ss => execAll ih env ss (R.bodies ss)

/-- **A program that is recast ends as before, on a recast machine.** -/
theorem program (R : Recasting) {p p' : Program (Option Nat)}
    (h : Stmt.AllBecomes R.body R.tag p p') (depth : Nat) (m : Machine) :
    Stmt.execAll R.after (.ofDepth R.after depth) globalScope p' (m.recast R.body) =
      recastResult R.body (Completion.recast R.body)
        (Stmt.execAll R.before (.ofDepth R.before depth) globalScope p m) :=
  execAll (R.ofDepth depth) globalScope p h m

end Recasting

end RadixScript
