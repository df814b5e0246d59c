import RadixScript.Proofs.Outcome.Operation
import RadixScript.Proofs.Scoping.Sessions

/-!
# Every fault has an operation that answers for it

`Reaches` says to which operations a run comes, in terms of the values that its parts have before.
A run that stops with a fault has come to an operation which stops with this fault and which
accounts for it (`Stmt.watchAll_explained`). The induction follows the tree, and goes on into the
bodies of closures by the depth of calls.

The runs are watched ones. What they have recorded about names rules out that a name with a tag is
undefined.
-/

namespace RadixScript

/-! ## Where a run comes -/

/-- A part of a program that is run. -/
inductive Task where
  | expr (e : Expr (Option Nat))
  | exprs (es : List (Expr (Option Nat)))
  | stmt (s : Stmt (Option Nat))
  | stmts (ss : List (Stmt (Option Nat)))
  | call (callee : Value) (args : List Value) (paren : Token)

/-- Creates the scope for a call of a closure and binds the parameters in it. -/
def Closure.entry (f : Closure) (args : List Value) : Run ScopeId := do
  let env ← Run.enter f.scope
  bindParams env f.params args
  pure env

/-- A task that is run in a scope, on a machine, comes to an operation, and to the machine right
before it. The number is that of the calls that may be nested. -/
inductive Reaches : Nat → ScopeId → Task → Machine → Operation → Machine → Prop
  | group {n env e m o m'} (h : Reaches n env (.expr e) m o m') :
    Reaches n env (.expr (.group e)) m o m'
  | logicalLeft {n env l op r m o m'} (h : Reaches n env (.expr l) m o m') :
    Reaches n env (.expr (.logical l op r)) m o m'
  | logicalRight {n env l op r m left m₁ o m'}
    (hl : Expr.eval .tagged (.ofDepth .tagged n) env l m = .ok left m₁)
    (hs : Operator.settles op left = false) (h : Reaches n env (.expr r) m₁ o m') :
    Reaches n env (.expr (.logical l op r)) m o m'
  | unaryOperand {n env op e m o m'} (h : Reaches n env (.expr e) m o m') :
    Reaches n env (.expr (.unary op e)) m o m'
  | unary {n env op e m v m₁} (he : Expr.eval .tagged (.ofDepth .tagged n) env e m = .ok v m₁) :
    Reaches n env (.expr (.unary op e)) m (.unary op v) m₁
  | binaryLeft {n env l op r m o m'} (h : Reaches n env (.expr l) m o m') :
    Reaches n env (.expr (.binary l op r)) m o m'
  | binaryRight {n env l op r m left m₁ o m'}
    (hl : Expr.eval .tagged (.ofDepth .tagged n) env l m = .ok left m₁)
    (h : Reaches n env (.expr r) m₁ o m') : Reaches n env (.expr (.binary l op r)) m o m'
  | binary {n env l op r m left m₁ right m₂}
    (hl : Expr.eval .tagged (.ofDepth .tagged n) env l m = .ok left m₁)
    (hr : Expr.eval .tagged (.ofDepth .tagged n) env r m₁ = .ok right m₂) :
    Reaches n env (.expr (.binary l op r)) m (.binary op left right) m₂
  | reference {n env name tag m} :
    Reaches n env (.expr (.reference name tag)) m (.read env name tag) m
  | assignValue {n env name tag e m o m'} (h : Reaches n env (.expr e) m o m') :
    Reaches n env (.expr (.assign name tag e)) m o m'
  | assign {n env name tag e m v m₁}
    (he : Expr.eval .tagged (.ofDepth .tagged n) env e m = .ok v m₁) :
    Reaches n env (.expr (.assign name tag e)) m (.assign env name tag v) m₁
  | callee {n env callee paren args m o m'} (h : Reaches n env (.expr callee) m o m') :
    Reaches n env (.expr (.call callee paren args)) m o m'
  | arguments {n env callee paren args m f m₁ o m'}
    (hf : Expr.eval .tagged (.ofDepth .tagged n) env callee m = .ok f m₁)
    (h : Reaches n env (.exprs args) m₁ o m') :
    Reaches n env (.expr (.call callee paren args)) m o m'
  | application {n env callee paren args m f m₁ vs m₂ o m'}
    (hf : Expr.eval .tagged (.ofDepth .tagged n) env callee m = .ok f m₁)
    (hvs : Expr.evalAll .tagged (.ofDepth .tagged n) env args m₁ = .ok vs m₂)
    (h : Reaches n env (.call f vs paren) m₂ o m') :
    Reaches n env (.expr (.call callee paren args)) m o m'
  | firstExpr {n env e es m o m'} (h : Reaches n env (.expr e) m o m') :
    Reaches n env (.exprs (e :: es)) m o m'
  | nextExprs {n env e es m v m₁ o m'}
    (he : Expr.eval .tagged (.ofDepth .tagged n) env e m = .ok v m₁)
    (h : Reaches n env (.exprs es) m₁ o m') : Reaches n env (.exprs (e :: es)) m o m'
  | call {n env f vs paren m} : Reaches n env (.call f vs paren) m (.call n f vs paren) m
  | body {n env f vs paren m i m₁ o m'} (hlength : vs.length = f.params.length)
    (hi : f.entry vs m = .ok i m₁) (h : Reaches n i (.stmts f.body) m₁ o m') :
    Reaches (n + 1) env (.call (.closure f) vs paren) m o m'
  | expr {n env e m o m'} (h : Reaches n env (.expr e) m o m') :
    Reaches n env (.stmt (.expr e)) m o m'
  | init {n env name e type m o m'} (h : Reaches n env (.expr e) m o m') :
    Reaches n env (.stmt (.letDecl name (some e) type)) m o m'
  | block {n env body m i m₁ o m'} (hi : Run.enter env m = .ok i m₁)
    (h : Reaches n i (.stmts body) m₁ o m') : Reaches n env (.stmt (.block body)) m o m'
  | condition {n env c t e m o m'} (h : Reaches n env (.expr c) m o m') :
    Reaches n env (.stmt (.branch c t e)) m o m'
  | thenBranch {n env c t e m v m₁ o m'}
    (hc : Expr.eval .tagged (.ofDepth .tagged n) env c m = .ok v m₁) (hv : v.isTruthy = true)
    (h : Reaches n env (.stmt t) m₁ o m') : Reaches n env (.stmt (.branch c t e)) m o m'
  | elseBranch {n env c t e m v m₁ o m'}
    (hc : Expr.eval .tagged (.ofDepth .tagged n) env c m = .ok v m₁) (hv : v.isTruthy = false)
    (h : Reaches n env (.stmt e) m₁ o m') : Reaches n env (.stmt (.branch c t (some e))) m o m'
  | result {n env keyword e m o m'} (h : Reaches n env (.expr e) m o m') :
    Reaches n env (.stmt (.returnStmt keyword (some e))) m o m'
  | firstStmt {n env s ss m o m'} (h : Reaches n env (.stmt s) m o m') :
    Reaches n env (.stmts (s :: ss)) m o m'
  | nextStmts {n env s ss m m₁ o m'}
    (hs : Stmt.exec .tagged (.ofDepth .tagged n) env s m = .ok .normal m₁)
    (h : Reaches n env (.stmts ss) m₁ o m') : Reaches n env (.stmts (s :: ss)) m o m'

/-! ## Explained results -/

open Watch

variable {α β : Type} {w w' : Watched} {frames : Frames} {name : Token} {tag : Option Nat}
  {v : Value} {reach reach' : Operation → Machine → Prop} {mid : α → Prop} {post : β → Prop}

/-- A result as required, on a proper machine, or a fault of an operation that accounts for it. -/
def Explained (reach : Operation → Machine → Prop) (post : α → Prop) :
    EStateM.Result Fault Watched α → Prop
  | .ok a w => w.machine.Proper ∧ post a
  | .error f w => (∀ v ∈ w.visits, v.Right False) →
    ∃ o m, reach o m ∧ o.FailsAt m f ∧ o.Accounts f

theorem explained_pure {a : α} (hw : w.machine.Proper) (ha : mid a) :
    Explained reach mid ((pure a : Watch α) w) := ⟨hw, ha⟩

theorem Explained.imp {r : EStateM.Result Fault Watched α} (h : Explained reach mid r)
    (hr : ∀ o m, reach o m → reach' o m) : Explained reach' mid r := by
  cases r with
  | ok a w => exact h
  | error f w =>
    intro hv
    obtain ⟨o, m, ho, hf⟩ := h hv
    exact ⟨o, m, hr o m ho, hf⟩

theorem explained_bind {x : Watch α} {g : α → Watch β} (hx : Explained reach mid (x w))
    (hg : ∀ a w₁, x w = .ok a w₁ → w₁.machine.Proper → mid a → Explained reach post (g a w₁)) :
    Explained reach post ((x >>= g) w) := by
  simp only [bind, EStateM.bind]
  cases hr : x w with
  | ok a w₁ =>
    rw [hr] at hx
    exact hg a w₁ hr hx.1 hx.2
  | error f w₁ =>
    rw [hr] at hx
    exact hx

/-- A call keeps the token of the fault. -/
theorem explained_located {x : Watch α} (t : Token) (h : Explained reach mid (x w)) :
    Explained reach mid (located t x w) := by
  rw [located]
  cases hr : x w with
  | ok a w' =>
    rw [hr] at h
    exact h
  | error f w' =>
    rw [hr] at h
    intro hv
    obtain ⟨o, m, ho, hf, ha⟩ := h hv
    rw [ha.locate_eq t]
    exact ⟨o, m, ho, hf, ha⟩

theorem Watch.Mirrors.ok {x : Watch α} {y : Run α} {a : α} (h : x.Mirrors .tagged y)
    (hx : x w = .ok a w') : y w.machine = .ok a w'.machine := by
  rw [h.follows w fun v _ => v.agrees_tagged, hx]
  rfl

/-! ## Proper machines -/

namespace Machine.Proper

variable {m : Machine} {i : ScopeId} {d : Nat} {x : Name}

theorem set (h : m.Proper) (i : ScopeId) (x : String) (hv : v.Proper) :
    Machine.Proper { m with scopes := m.scopes.set i x v } where
  values := by
    intro j y u hu
    rcases Scopes.own?_set_cases hu with ⟨_, _, rfl⟩ | hu
    · exact hv
    · exact h.values j y u hu
  input := h.input
  clock := h.clock

theorem create (h : m.Proper) (parent : Option ScopeId) :
    Machine.Proper { m with scopes := (m.scopes.create parent).2 } where
  values := by
    intro j y u hu
    rw [Scopes.own?_create] at hu
    exact h.values j y u hu
  input := h.input
  clock := h.clock

theorem get (h : m.Proper) (hv : m.scopes.get i x = .ok v) : v.Proper := by
  rw [Scopes.get, Scopes.get?_eq_owner?] at hv
  cases ho : m.scopes.owner? i x.text with
  | none =>
    rw [ho] at hv
    cases hv
  | some o =>
    obtain ⟨u, hu⟩ := Option.isSome_iff_exists.mp (Scopes.binds_of_owner? ho)
    rw [ho, Option.bind_some, hu] at hv
    cases hv
    exact h.values _ _ _ hu

theorem getAt (h : m.Proper) (hv : m.scopes.getAt i d x = .ok v) : v.Proper := by
  simp only [Scopes.getAt, bind, Except.bind] at hv
  split at hv
  · cases hv
  · split at hv
    · next u hu =>
      cases hv
      exact h.values _ _ _ hu
    · cases hv

end Machine.Proper

/-! ## Operations -/

/-- An operation, with what has been recorded about it before. -/
theorem explained_perform (o : Operation) (hr : reach o w.machine)
    (h : o.perform.EndsAt w.machine fun f => (∀ v ∈ w.visits, v.Right False) → o.Accounts f) :
    Explained reach Value.Proper (plain o.perform w) := by
  rw [Run.EndsAt] at h
  rw [plain]
  cases hx : o.perform w.machine with
  | ok v m =>
    rw [hx] at h
    exact ⟨h.2, h.1⟩
  | error f m =>
    rw [hx] at h
    exact fun hv => ⟨o, w.machine, hr, ⟨m, hx⟩, h hv⟩

section names

variable {m : Machine} {assigned? : Option Value}

/-- A name with a tag is bound where the tag leads to. -/
theorem Visit.Right.bound {d : Nat} (h : (Visit.mk frames name (some d) assigned? m).Right False) :
    ∃ a u, m.scopes.ancestor? frames.env d = some a ∧ m.scopes.own? a name.text = some u := by
  obtain ⟨frame, u, -, -, -, ha, hu⟩ := h.exists_frame rfl
  exact ⟨frame.scope, u, ha, hu⟩

theorem lookUp_endsAt (hm : m.Proper) :
    (lookUp frames.env name tag).EndsAt m fun f =>
      (Visit.mk frames name tag none m).Right False →
        Operation.Accounts (.read frames.env name tag) f := by
  rw [Run.EndsAt]
  cases tag with
  | none =>
    simp only [lookUp, Run.read_eq]
    cases hv : m.scopes.get globalScope (.ofToken name) with
    | ok v => exact ⟨hm.get hv, hm⟩
    | error f =>
      rw [Scopes.get] at hv
      split at hv
      · cases hv
      · cases hv
        exact fun _ => .undefinedRead
  | some d =>
    simp only [lookUp, Run.read_eq]
    cases hv : m.scopes.getAt frames.env d (.ofToken name) with
    | ok v => exact ⟨hm.getAt hv, hm⟩
    | error f =>
      intro h
      obtain ⟨a, u, ha, hu⟩ := h.bound
      rw [Scopes.getAt_eq_ok ha hu] at hv
      cases hv

theorem assign_endsAt (hm : m.Proper) (hv : v.Proper) :
    (Operation.perform (.assign frames.env name tag v)).EndsAt m fun f =>
      (Visit.mk frames name tag (some v) m).Right False →
        Operation.Accounts (.assign frames.env name tag v) f := by
  rw [Run.EndsAt, Operation.perform]
  cases tag with
  | none =>
    simp only [assignName, bind, EStateM.bind, Run.store_eq]
    cases ha : m.scopes.assignee globalScope (.ofToken name) with
    | ok a => exact ⟨hv, hm.set a name.text hv⟩
    | error f =>
      rw [Scopes.assignee] at ha
      split at ha
      · cases ha
      · cases ha
        exact fun _ => .undefinedAssign
  | some d =>
    simp only [assignName, bind, EStateM.bind, Run.store_eq]
    cases ha : m.scopes.assigneeAt frames.env d (.ofToken name) with
    | ok a => exact ⟨hv, hm.set a name.text hv⟩
    | error f =>
      intro h
      obtain ⟨a, u, ha', hu⟩ := h.bound
      rw [Scopes.assigneeAt_eq_ok ha' hu] at ha
      cases ha

end names

theorem explained_lookUp (hw : w.machine.Proper)
    (hr : reach (.read frames.env name tag) w.machine) :
    Explained reach Value.Proper (Watch.lookUp frames name tag w) := by
  let w₁ : Watched := { w with visits := ⟨frames, name, tag, none, w.machine⟩ :: w.visits }
  have h : Explained reach Value.Proper
      (plain (Operation.perform (.read frames.env name tag)) w₁) :=
    explained_perform _ hr ((lookUp_endsAt hw).imp fun f hf hv => hf (hv _ (List.mem_cons_self ..)))
  exact h

theorem explained_assign (hw : w.machine.Proper) (hv : v.Proper)
    (hr : reach (.assign frames.env name tag v) w.machine) :
    Explained reach Value.Proper ((do
      Watch.assign frames name v tag
      pure v : Watch Value) w) := by
  let w₁ : Watched := { w with visits := ⟨frames, name, tag, some v, w.machine⟩ :: w.visits }
  have h : Explained reach Value.Proper
      (plain (Operation.perform (.assign frames.env name tag v)) w₁) :=
    explained_perform _ hr
      ((assign_endsAt hw hv).imp fun f hf hv => hf (hv _ (List.mem_cons_self ..)))
  rw [Operation.perform, plain_bind] at h
  exact h

/-! ## Binding -/

section binding

variable {m : Machine} {env : ScopeId} {params : List Token} {args : List Value}

/-- Values of the language can be bound to every name. -/
theorem defineName_eq_ok (hv : v.Proper) :
    defineName env name v m = .ok () { m with scopes := m.scopes.set env name.text v } := by
  have hcheck : (Name.ofToken name).check v = .ok () := by
    cases v
    case foreign => exact hv.elim
    all_goals rfl
  rw [defineName, hcheck]
  rfl

theorem exists_bindParams_eq_ok (hm : m.Proper) (hargs : ∀ v ∈ args, v.Proper) :
    ∃ m', bindParams env params args m = .ok () m' ∧ m'.Proper := by
  induction params generalizing m args with
  | nil => exact ⟨m, by cases args <;> rfl, hm⟩
  | cons p ps ih =>
    cases args with
    | nil => exact ⟨m, rfl, hm⟩
    | cons v vs =>
      obtain ⟨hv, hvs⟩ := List.forall_mem_cons.mp hargs
      obtain ⟨m', hm', hproper⟩ := ih (hm.set env p.text hv) hvs
      refine ⟨m', ?_, hproper⟩
      simp only [bindParams, bind, EStateM.bind, defineName_eq_ok hv]
      exact hm'

/-- A closure can be entered, on proper arguments. -/
theorem Closure.exists_entry_eq_ok (f : Closure) (hm : m.Proper) (hargs : ∀ v ∈ args, v.Proper) :
    ∃ i m', f.entry args m = .ok i m' ∧ m'.Proper := by
  obtain ⟨m', hm', hproper⟩ := exists_bindParams_eq_ok (hm.create (some f.scope)) hargs
  refine ⟨m.scopes.all.size, m', ?_, hproper⟩
  simp only [Closure.entry, bind, EStateM.bind]
  rw [show Run.enter f.scope m = .ok m.scopes.all.size
    { m with scopes := (m.scopes.create (some f.scope)).2 } from rfl]
  simp only
  rw [hm']
  rfl

end binding

theorem explained_define {env : ScopeId} (hw : w.machine.Proper) (hv : v.Proper) :
    Explained reach (fun _ => True) (plain (defineName env name v) w) := by
  rw [plain, defineName_eq_ok hv]
  exact ⟨hw.set env name.text hv, trivial⟩

theorem explained_enter {parent : ScopeId} {plan : List String} (hw : w.machine.Proper) :
    Explained reach (fun _ => True) (Watch.enter parent plan w) := ⟨hw.create _, trivial⟩

theorem explained_nextSerial (hw : w.machine.Proper) :
    Explained reach (fun _ => True) (Watch.nextSerial frames w) :=
  ⟨hw.congr rfl rfl rfl, trivial⟩

/-! ## Expressions -/

/-- The faults of calls are explained, when `n` calls may be nested. -/
def Explains (n : Nat) : Prop :=
  ∀ f args paren env w, w.machine.Proper → f.Proper → (∀ v ∈ args, v.Proper) →
    Explained (Reaches n env (.call f args paren) w.machine) Value.Proper
      (Watcher.ofDepth n f args paren w)

section trees

variable {n : Nat}

mutual

theorem Expr.watch_explained (hc : Explains n) : (e : Expr (Option Nat)) → ∀ (frames) {w},
    e.Grammatical → w.machine.Proper →
    Explained (Reaches n frames.env (.expr e) w.machine) Value.Proper
      (e.watch (Watcher.ofDepth n) frames w)
  | .literal v, frames, w, _, hw => by
    rw [Expr.watch]
    refine explained_pure hw ?_
    cases v <;> trivial
  | .group e, frames, w, hg, hw => by
    rw [Expr.watch]
    exact (e.watch_explained hc frames hg hw).imp fun o m h => .group h
  | .logical l op r, frames, w, hg, hw => by
    rw [Expr.watch]
    obtain ⟨level, -, -, hl, -, hr, -⟩ := hg
    refine explained_bind ((l.watch_explained hc frames hl hw).imp fun o m h => .logicalLeft h) ?_
    intro left w₁ hx hw₁ hleft
    have heval := (Expr.watch_mirrors (Watcher.ofDepth_mirrors n) frames l).ok hx
    cases hs : Operator.settles op left with
    | true => exact explained_pure hw₁ hleft
    | false => exact (r.watch_explained hc frames hr hw₁).imp fun o m h => .logicalRight heval hs h
  | .unary op e, frames, w, hg, hw => by
    rw [Expr.watch]
    refine explained_bind
      ((e.watch_explained hc frames hg.2.1 hw).imp fun o m h => .unaryOperand h) ?_
    intro v w₁ hx hw₁ hv
    have heval := (Expr.watch_mirrors (Watcher.ofDepth_mirrors n) frames e).ok hx
    exact explained_perform (.unary op v) (.unary heval)
      ((Run.endsAt_lift (Operator.unary_ends hg.1 hv) hw₁).imp fun f hf _ => hf)
  | .binary l op r, frames, w, hg, hw => by
    rw [Expr.watch]
    obtain ⟨level, hop, hlogical, hl, -, hr, -⟩ := hg
    have hbinary : Operator.IsBinary op := ⟨by rw [hop]; exact Option.some_ne_none _, hlogical⟩
    refine explained_bind ((l.watch_explained hc frames hl hw).imp fun o m h => .binaryLeft h) ?_
    intro left w₁ hx₁ hw₁ hleft
    have hevalL := (Expr.watch_mirrors (Watcher.ofDepth_mirrors n) frames l).ok hx₁
    refine explained_bind
      ((r.watch_explained hc frames hr hw₁).imp fun o m h => .binaryRight hevalL h) ?_
    intro right w₂ hx₂ hw₂ hright
    have hevalR := (Expr.watch_mirrors (Watcher.ofDepth_mirrors n) frames r).ok hx₂
    exact explained_perform (.binary op left right) (.binary hevalL hevalR)
      ((Run.endsAt_lift (Operator.binary_ends hbinary hleft hright) hw₂).imp fun f hf _ => hf)
  | .reference name tag, frames, w, _, hw => by
    rw [Expr.watch]
    exact explained_lookUp hw .reference
  | .assign name tag e, frames, w, hg, hw => by
    rw [Expr.watch]
    refine explained_bind ((e.watch_explained hc frames hg.2 hw).imp fun o m h => .assignValue h) ?_
    intro v w₁ hx hw₁ hv
    have heval := (Expr.watch_mirrors (Watcher.ofDepth_mirrors n) frames e).ok hx
    exact explained_assign hw₁ hv (.assign heval)
  | .call callee paren args, frames, w, hg, hw => by
    rw [Expr.watch]
    obtain ⟨hcallee, -, -, -, hargs⟩ := hg
    refine explained_bind
      ((callee.watch_explained hc frames hcallee hw).imp fun o m h => .callee h) ?_
    intro f w₁ hx₁ hw₁ hf
    have hevalF := (Expr.watch_mirrors (Watcher.ofDepth_mirrors n) frames callee).ok hx₁
    refine explained_bind
      ((Expr.watchAll_explained hc args frames hargs hw₁).imp fun o m h => .arguments hevalF h) ?_
    intro vs w₂ hx₂ hw₂ hvs
    have hevalA := (Expr.watchAll_mirrors (Watcher.ofDepth_mirrors n) frames args).ok hx₂
    exact (hc f vs paren frames.env w₂ hw₂ hf hvs).imp fun o m h => .application hevalF hevalA h

theorem Expr.watchAll_explained (hc : Explains n) : (es : List (Expr (Option Nat))) →
    ∀ (frames) {w}, Expr.AllGrammatical es → w.machine.Proper →
    Explained (Reaches n frames.env (.exprs es) w.machine) (fun vs => ∀ v ∈ vs, v.Proper)
      (Expr.watchAll (Watcher.ofDepth n) frames es w)
  | [], frames, w, _, hw => by
    rw [Expr.watchAll]
    exact explained_pure hw nofun
  | e :: es, frames, w, hg, hw => by
    rw [Expr.watchAll]
    refine explained_bind ((e.watch_explained hc frames hg.1 hw).imp fun o m h => .firstExpr h) ?_
    intro v w₁ hx hw₁ hv
    have heval := (Expr.watch_mirrors (Watcher.ofDepth_mirrors n) frames e).ok hx
    refine explained_bind
      ((Expr.watchAll_explained hc es frames hg.2 hw₁).imp fun o m h => .nextExprs heval h) ?_
    intro vs w₂ _ hw₂ hvs
    exact explained_pure hw₂ (List.forall_mem_cons.mpr ⟨hv, hvs⟩)

end

/-! ## Statements -/

/-- A value to return is proper. -/
def Completion.Proper : Completion → Prop
  | .normal => True
  | .returned v => v.Proper

mutual

theorem Stmt.watch_explained (hc : Explains n) : (s : Stmt (Option Nat)) → ∀ (frames) {w},
    s.Grammatical → w.machine.Proper →
    Explained (Reaches n frames.env (.stmt s) w.machine) Completion.Proper
      (s.watch (Watcher.ofDepth n) frames w)
  | .expr e, frames, w, hg, hw => by
    rw [Stmt.watch]
    refine explained_bind ((e.watch_explained hc frames hg hw).imp fun o m h => .expr h) ?_
    intro v w₁ _ hw₁ _
    exact explained_pure hw₁ trivial
  | .letDecl name init type, frames, w, hg, hw => by
    rw [Stmt.watch]
    have hinit : Explained (Reaches n frames.env (.stmt (.letDecl name init type)) w.machine)
        Value.Proper (watchOption (Watcher.ofDepth n) frames init w) := by
      cases init with
      | none => exact explained_pure hw trivial
      | some e => exact (e.watch_explained hc frames (hg.2.1 e rfl) hw).imp fun o m h => .init h
    refine explained_bind hinit ?_
    intro v w₁ _ hw₁ hv
    refine explained_bind (explained_define hw₁ hv) ?_
    intro _ w₂ _ hw₂ _
    exact explained_pure hw₂ trivial
  | .block body, frames, w, hg, hw => by
    rw [Stmt.watch]
    refine explained_bind (explained_enter hw) ?_
    intro i w₁ hx hw₁ _
    have hi := (mirrors_enter frames.env (Stmt.allDeclaredNames body)).ok hx
    exact (Stmt.watchAll_explained hc body _ hg hw₁).imp fun o m h => .block hi h
  | .branch c t none, frames, w, hg, hw => by
    rw [Stmt.watch]
    refine explained_bind ((c.watch_explained hc frames hg.1 hw).imp fun o m h => .condition h) ?_
    intro v w₁ hx hw₁ _
    have heval := (Expr.watch_mirrors (Watcher.ofDepth_mirrors n) frames c).ok hx
    cases hv : v.isTruthy with
    | true => exact (t.watch_explained hc frames hg.2.1 hw₁).imp fun o m h => .thenBranch heval hv h
    | false => exact explained_pure hw₁ trivial
  | .branch c t (some e), frames, w, hg, hw => by
    rw [Stmt.watch]
    obtain ⟨hgc, hgt, -, -, hge, -⟩ := hg
    refine explained_bind ((c.watch_explained hc frames hgc hw).imp fun o m h => .condition h) ?_
    intro v w₁ hx hw₁ _
    have heval := (Expr.watch_mirrors (Watcher.ofDepth_mirrors n) frames c).ok hx
    cases hv : v.isTruthy with
    | true => exact (t.watch_explained hc frames hgt hw₁).imp fun o m h => .thenBranch heval hv h
    | false => exact (e.watch_explained hc frames hge hw₁).imp fun o m h => .elseBranch heval hv h
  | .functionDecl name params body, frames, w, hg, hw => by
    rw [Stmt.watch]
    refine explained_bind (explained_nextSerial hw) ?_
    intro serial w₁ _ hw₁ _
    have hf : (Value.closure ⟨name, params, body, frames.env, serial⟩).Proper := hg.2.2.2
    refine explained_bind (explained_define hw₁ hf) ?_
    intro _ w₂ _ hw₂ _
    exact explained_pure hw₂ trivial
  | .returnStmt keyword value, frames, w, hg, hw => by
    rw [Stmt.watch]
    have hvalue : Explained (Reaches n frames.env (.stmt (.returnStmt keyword value)) w.machine)
        Value.Proper (watchOption (Watcher.ofDepth n) frames value w) := by
      cases value with
      | none => exact explained_pure hw trivial
      | some e => exact (e.watch_explained hc frames (hg.2 e rfl) hw).imp fun o m h => .result h
    refine explained_bind hvalue ?_
    intro v w₁ _ hw₁ hv
    exact explained_pure hw₁ hv
  | .namespaceDecl name body, frames, w, _, hw => by
    rw [Stmt.watch]
    exact explained_pure hw trivial

theorem Stmt.watchAll_explained (hc : Explains n) : (ss : List (Stmt (Option Nat))) →
    ∀ (frames) {w}, Stmt.AllGrammatical ss → w.machine.Proper →
    Explained (Reaches n frames.env (.stmts ss) w.machine) Completion.Proper
      (Stmt.watchAll (Watcher.ofDepth n) frames ss w)
  | [], frames, w, _, hw => by
    rw [Stmt.watchAll]
    exact explained_pure hw trivial
  | s :: ss, frames, w, hg, hw => by
    rw [Stmt.watchAll]
    have hs := s.watch_explained hc (frames.before (Stmt.allDeclaredNames ss)) hg.1 hw
    rw [Frames.env_before] at hs
    refine explained_bind (hs.imp fun o m h => .firstStmt h) ?_
    intro c w₁ hx hw₁ hcompletion
    cases c with
    | returned v => exact explained_pure hw₁ hcompletion
    | normal =>
      have hexec := (Stmt.watch_mirrors (Watcher.ofDepth_mirrors n) _ s).ok hx
      rw [Frames.env_before] at hexec
      have hss := Stmt.watchAll_explained hc ss (frames.declareAll s.declaredNames) hg.2 hw₁
      rw [Frames.env_declareAll] at hss
      exact hss.imp fun o m h => .nextStmts hexec h

end

end trees

/-! ## Calls -/

section calls

variable {n : Nat} {args : List Value} {paren : Token} {f : Closure}

/-- A call that fails is an operation of its own. -/
theorem explained_call (w' : Watched) {g : Value} {r : Fault} {env : ScopeId}
    (h : Watcher.ofDepth n g args paren w = .error r w')
    (hr : Operation.Accounts (.call n g args paren) r) :
    Explained (Reaches n env (.call g args paren) w.machine) Value.Proper
      (Watcher.ofDepth n g args paren w) := by
  have hmirror : (Watcher.ofDepth n g args paren).Mirrors .tagged
      (Caller.ofDepth .tagged n g args paren) := Watcher.ofDepth_mirrors n g args paren
  have hfails : Operation.FailsAt (.call n g args paren) w.machine r := by
    refine ⟨w'.machine, ?_⟩
    rw [Operation.perform, hmirror.follows w fun v _ => v.agrees_tagged, h]
    rfl
  rw [h]
  exact fun _ => ⟨_, _, .call, hfails, hr⟩

theorem Watcher.exists_ofDepth_eq (n : Nat) : ∃ runBody, Watcher.ofDepth n = watchWith runBody := by
  cases n <;> exact ⟨_, rfl⟩

/-- Calls other than those of closures with the right number of arguments. -/
theorem Explains.of_closures
    (h : ∀ f args paren env w, w.machine.Proper → Stmt.AllGrammatical f.body →
      (∀ v ∈ args, v.Proper) → args.length = f.params.length →
      Explained (Reaches n env (.call (.closure f) args paren) w.machine) Value.Proper
        (Watcher.ofDepth n (.closure f) args paren w)) : Explains n := by
  intro f args paren env w hw hf hargs
  obtain ⟨runBody, hrun⟩ := Watcher.exists_ofDepth_eq n
  cases f
  case closure f =>
    by_cases hlength : args.length = f.params.length
    · exact h f args paren env w hw hf hargs hlength
    · refine explained_call w ?_ (.arity rfl hlength)
      rw [hrun, watchWith, watchArity, if_neg hlength]
      rfl
  case native g s =>
    by_cases hlength : args.length = g.arity
    · have hends := g.run_endsAt n s paren hlength hargs hw
      have hcall : Watcher.ofDepth n (.native g s) args paren w =
          located paren (plain (g.run args)) w := by
        rw [hrun, watchWith, watchArity, if_pos hlength]
      rw [Run.EndsAt] at hends
      cases hx : g.run args w.machine with
      | ok v m =>
        rw [hx] at hends
        rw [hcall, located, plain, hx]
        exact ⟨hends.2, hends.1⟩
      | error r m =>
        rw [hx] at hends
        refine explained_call { w with machine := m } ?_ hends
        rw [hcall, located, plain, hx]
    · refine explained_call w ?_ (.arity rfl hlength)
      rw [hrun, watchWith, watchArity, if_neg hlength]
      rfl
  all_goals
    refine explained_call w ?_ (.notCallable rfl)
    rw [hrun]
    rfl

/-- What a watched call does after it has entered the closure. -/
theorem Closure.watch_eq_of_entry {runBody : Frames → List (Stmt (Option Nat)) → Watch Completion}
    {i : ScopeId} {m : Machine} (h : f.entry args w.machine = .ok i m) :
    ∃ frames w₁, frames.env = i ∧ w₁.machine = m ∧
      f.watch runBody args w = (do
        match ← runBody frames f.body with
        | .normal => pure .null
        | .returned v => pure v : Watch Value) w₁ := by
  have henter : Run.enter f.scope w.machine = .ok w.machine.scopes.all.size
      { w.machine with scopes := (w.machine.scopes.create (some f.scope)).2 } := rfl
  simp only [Closure.entry, bind, EStateM.bind, henter] at h
  simp only [Closure.watch, bind, EStateM.bind, Watch.enter, henter, plain]
  split at h
  · next u m' hparams =>
    cases h
    rw [hparams]
    exact ⟨_, _, rfl, rfl, rfl⟩
  · cases h

/-- **The faults of calls are explained**, however deep they are nested. -/
theorem explains_all (n : Nat) : Explains n := by
  induction n with
  | zero =>
    refine .of_closures fun f args paren env w hw _ hargs hlength => ?_
    obtain ⟨i, m, hentry, -⟩ := f.exists_entry_eq_ok hw hargs
    obtain ⟨frames, w₁, -, -, hrun⟩ := Closure.watch_eq_of_entry hentry
    -- the closure can be entered, and then there is no room for its body
    refine explained_call w₁ ?_ .tooDeep
    rw [Watcher.ofDepth, watchWith, watchArity, if_pos hlength, located, hrun]
    rfl
  | succ n ih =>
    refine .of_closures fun f args paren env w hw hf hargs hlength => ?_
    obtain ⟨i, m, hentry, hm⟩ := f.exists_entry_eq_ok hw hargs
    obtain ⟨frames, w₁, rfl, rfl, hrun⟩ := Closure.watch_eq_of_entry hentry
    rw [Watcher.ofDepth, watchWith, watchArity, if_pos hlength]
    refine explained_located paren ?_
    rw [hrun]
    refine explained_bind ((Stmt.watchAll_explained ih f.body frames hf hm).imp
      fun o m h => .body hlength hentry h) ?_
    intro c w₂ _ hw₂ hc
    cases c with
    | normal => exact explained_pure hw₂ trivial
    | returned v => exact explained_pure hw₂ hc

end calls

end RadixScript
