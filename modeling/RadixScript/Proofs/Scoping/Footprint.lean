import RadixScript.Proofs.Scoping.Sessions

/-!
# What a run does to the scopes that were there

Evaluating an expression adds no name to any scope that was there before, whatever it calls. A
statement adds to the scope it is executed in the name that it declares itself, and to the others
nothing. Blocks and calls work in scopes of their own, which are new.

This holds on every machine and however the run ends, so it needs no invariant. What a failed
statement has added is nothing at all, and this makes the names of the globals after a text exact:
they are the ones from before and those of the statements that came to their end.
-/

namespace RadixScript

variable {δ α β : Type} {names : Names} {call : Caller} {env : ScopeId} {m : Machine}
  {gains : ScopeId → String → Prop}

open Scopes

/-! ## Own names -/

/-- The name that a declaration declares. Statements of other kinds have no name of their own. -/
def Stmt.ownNames : Stmt δ → List String
  | .letDecl name _ _ => [name.text]
  | .functionDecl name _ _ => [name.text]
  | _ => []

/-- Branches of an `if` declare nothing, so only declarations declare names. -/
theorem Stmt.declaredNames_eq_ownNames {s : Stmt δ} (hs : s.Grammatical) :
    s.declaredNames = s.ownNames := by
  cases s with
  | branch c t e => exact Stmt.declaredNames_eq_nil _ hs rfl
  | _ => rfl

/-! ## Runs -/

/-- From the machine `m` the run adds names only where `gains` allows it. -/
def Run.AddsAt (x : Run α) (m : Machine) (gains : ScopeId → String → Prop) : Prop :=
  m.scopes.Grows gains (machineAfter (x m)).scopes

namespace Run

theorem addsAt_pure (a : α) : (pure a : Run α).AddsAt m gains := Grows.refl _

theorem addsAt_throw (f : Fault) : (throw f : Run α).AddsAt m gains := Grows.refl _

theorem addsAt_bind {x : Run α} {f : α → Run β} (hx : x.AddsAt m gains)
    (hf : ∀ a m', x m = .ok a m' → (f a).AddsAt m' gains) : (x >>= f).AddsAt m gains := by
  simp only [AddsAt, bind, EStateM.bind] at hx ⊢
  cases hr : x m with
  | ok a m' =>
    rw [hr] at hx
    exact hx.trans (hf a m' hr)
  | error e m' =>
    rw [hr] at hx
    exact hx

theorem AddsAt.of_noGain {x : Run α} (h : x.AddsAt m noGain) : x.AddsAt m gains :=
  Grows.of_noGain h

theorem addsAt_lift (x : Except Fault α) : (lift x).AddsAt m gains := by
  cases x with
  | ok a => exact addsAt_pure a
  | error f => exact addsAt_throw f

theorem addsAt_read (f : Scopes → Except Fault α) : (read f).AddsAt m gains :=
  addsAt_bind (Grows.refl _) fun _ _ _ => addsAt_lift _

/-- Setting a name in a scope that has it already. -/
theorem addsAt_store {target : Scopes → Except Fault ScopeId} {x : String} {v : Value}
    (h : ∀ i, target m.scopes = .ok i → m.scopes.Binds i x) :
    (store target x v).AddsAt m gains := by
  have hread : read target m = lift (target m.scopes) m := rfl
  simp only [AddsAt, store, bind, EStateM.bind, hread]
  cases hi : target m.scopes with
  | ok i => exact (Grows.of_set_of_binds (h i hi) v).of_noGain
  | error f => exact Grows.refl _

theorem addsAt_located {x : Run α} (t : Token) (hx : x.AddsAt m gains) :
    (located t x).AddsAt m gains := by
  simp only [AddsAt, located] at hx ⊢
  cases hr : x m with
  | ok a m' =>
    rw [hr] at hx
    exact hx
  | error f m' =>
    rw [hr] at hx
    exact hx

theorem addsAt_native (f : Native) (args : List Value) : (f.run args).AddsAt m gains := by
  rw [AddsAt, (f.run_inert args m).1]
  exact Grows.refl _

end Run

open Run

/-- Finding a name adds no name. -/
structure Names.AddsNothing (names : Names) : Prop where
  lookUp : ∀ env name tag m, (names.lookUp env name tag).AddsAt m noGain
  assign : ∀ env name v tag m, (names.assign env name v tag).AddsAt m noGain

/-- A call adds no name. -/
def Caller.AddsNothing (call : Caller) : Prop :=
  ∀ f args paren m, (call f args paren).AddsAt m noGain

theorem Scopes.binds_of_assigneeAt {s : Scopes} {i a : ScopeId} {d : Nat} {x : Name}
    (h : s.assigneeAt i d x = .ok a) : s.Binds a x.text := by
  simp only [assigneeAt, bind, Except.bind] at h
  split at h
  · cases h
  · next a' _ =>
    split at h
    · next v hv =>
      cases h
      rw [Binds, hv]
      rfl
    · cases h

theorem Scopes.binds_of_assignee {s : Scopes} {i o : ScopeId} {x : Name}
    (h : s.assignee i x = .ok o) : s.Binds o x.text := by
  rw [assignee] at h
  split at h
  · next o' ho =>
    cases h
    exact binds_of_owner? ho
  · cases h

/-- An assignment changes a binding that is there. -/
theorem Names.tagged_addsNothing : Names.tagged.AddsNothing where
  lookUp := by
    intro env name tag m
    cases tag with
    | none => exact addsAt_read (·.get globalScope (.ofToken name))
    | some d => exact addsAt_read (·.getAt env d (.ofToken name))
  assign := by
    intro env name v tag m
    cases tag with
    | none => exact addsAt_store fun i hi => binds_of_assignee hi
    | some d => exact addsAt_store fun i hi => binds_of_assigneeAt hi

/-- A definition adds the name, or stops before it does anything. -/
theorem defineName_addsAt {name : Token} {v : Value} {xs : List String} (hx : name.text ∈ xs) :
    (defineName env name v).AddsAt m (gainIn env xs) := by
  rw [defineName]
  cases (Name.ofToken name).check v with
  | ok _ => exact Grows.of_set _ _ v hx
  | error f => exact Grows.refl _

theorem defineName_failed {name : Token} {v : Value} {f : Fault} {m' : Machine}
    (h : defineName env name v m = .error f m') : m' = m := by
  rw [defineName] at h
  cases hc : (Name.ofToken name).check v with
  | ok _ =>
    rw [hc] at h
    cases h
  | error g =>
    rw [hc] at h
    cases h
    rfl

theorem defineName_binds {name : Token} {v : Value} {u : Unit} {m' : Machine}
    (h : defineName env name v m = .ok u m') (henv : env < m.scopes.all.size) :
    m'.scopes.Binds env name.text := by
  rw [defineName] at h
  cases hc : (Name.ofToken name).check v with
  | ok _ =>
    rw [hc] at h
    cases h
    exact binds_set_self henv
  | error g =>
    rw [hc] at h
    cases h

/-! ## Expressions -/

mutual

/-- **Evaluation adds no name to a scope that was there before.** -/
theorem Expr.eval_addsAt (hn : names.AddsNothing) (hc : call.AddsNothing) (env : ScopeId) :
    (e : Expr (Option Nat)) → ∀ m, (e.eval names call env).AddsAt m noGain
  | .literal v, m => by rw [Expr.eval]; exact addsAt_pure _
  | .group e, m => by rw [Expr.eval]; exact e.eval_addsAt hn hc env m
  | .logical l op r, m => by
    rw [Expr.eval]
    refine addsAt_bind (l.eval_addsAt hn hc env m) fun left m₁ _ => ?_
    by_cases hs : Operator.settles op left = true
    · rw [if_pos hs]
      exact addsAt_pure _
    · rw [if_neg hs]
      exact r.eval_addsAt hn hc env m₁
  | .unary op e, m => by
    rw [Expr.eval]
    exact addsAt_bind (e.eval_addsAt hn hc env m) fun _ _ _ => addsAt_lift _
  | .binary l op r, m => by
    rw [Expr.eval]
    exact addsAt_bind (l.eval_addsAt hn hc env m) fun _ m₁ _ =>
      addsAt_bind (r.eval_addsAt hn hc env m₁) fun _ _ _ => addsAt_lift _
  | .reference name tag, m => by rw [Expr.eval]; exact hn.lookUp env name tag m
  | .assign name tag e, m => by
    rw [Expr.eval]
    exact addsAt_bind (e.eval_addsAt hn hc env m) fun v m₁ _ =>
      addsAt_bind (hn.assign env name v tag m₁) fun _ _ _ => addsAt_pure _
  | .call callee paren args, m => by
    rw [Expr.eval]
    exact addsAt_bind (callee.eval_addsAt hn hc env m) fun f m₁ _ =>
      addsAt_bind (Expr.evalAll_addsAt hn hc env args m₁) fun vs m₂ _ => hc f vs paren m₂

theorem Expr.evalAll_addsAt (hn : names.AddsNothing) (hc : call.AddsNothing) (env : ScopeId) :
    (es : List (Expr (Option Nat))) → ∀ m, (Expr.evalAll names call env es).AddsAt m noGain
  | [], m => by rw [Expr.evalAll]; exact addsAt_pure _
  | e :: es, m => by
    rw [Expr.evalAll]
    exact addsAt_bind (e.eval_addsAt hn hc env m) fun _ m₁ _ =>
      addsAt_bind (Expr.evalAll_addsAt hn hc env es m₁) fun _ _ _ => addsAt_pure _

end

theorem evalOption_addsAt (hn : names.AddsNothing) (hc : call.AddsNothing) (env : ScopeId)
    (e : Option (Expr (Option Nat))) (m : Machine) :
    (evalOption names call env e).AddsAt m noGain := by
  cases e with
  | none => exact addsAt_pure _
  | some e => exact e.eval_addsAt hn hc env m

/-! ## Statements -/

/-- What a statement has done to the scopes when it ends with `r`: it has added what it declares,
and nothing if it has failed; if it has not failed, its own name is bound. -/
structure Stmt.LeavesAt (s : Stmt (Option Nat)) (env : ScopeId) (m : Machine)
    (r : EStateM.Result Fault Machine Completion) : Prop where
  grows : m.scopes.Grows (gainIn env s.declaredNames) (machineAfter r).scopes
  failed : ∀ f m', r = .error f m' → m.scopes.Grows noGain m'.scopes
  bound : ∀ c m', r = .ok c m' → env < m.scopes.all.size →
    ∀ x ∈ s.ownNames, m'.scopes.Binds env x

/-- A statement without a name of its own that has added nothing. -/
theorem Stmt.LeavesAt.of_noGain {s : Stmt (Option Nat)}
    {r : EStateM.Result Fault Machine Completion} (hs : s.ownNames = [])
    (h : m.scopes.Grows noGain (machineAfter r).scopes) : s.LeavesAt env m r where
  grows := h.of_noGain
  failed := by
    rintro f m' rfl
    exact h
  bound := by
    intro c m' _ _ x hx
    rw [hs] at hx
    exact absurd hx List.not_mem_nil

/-- A condition, and then a statement. -/
theorem Stmt.LeavesAt.of_branch {s t : Stmt (Option Nat)} {m m' : Machine}
    {r : EStateM.Result Fault Machine Completion} (h : t.LeavesAt env m' r)
    (hm : m.scopes.Grows noGain m'.scopes) (hs : s.ownNames = [])
    (ht : t.declaredNames ⊆ s.declaredNames) : s.LeavesAt env m r where
  grows := hm.of_noGain.trans (h.grows.weaken fun _ _ _ hg => ⟨hg.1, ht hg.2⟩)
  failed := fun f m'' hr => hm.trans (h.failed f m'' hr)
  bound := by
    intro c m'' _ _ x hx
    rw [hs] at hx
    exact absurd hx List.not_mem_nil

/-- A definition at the end of a declaration, after a run that has added nothing. -/
theorem Stmt.LeavesAt.of_define {s : Stmt (Option Nat)} {x : Run α} {name : Token}
    (value : α → Value) (hs : s.ownNames = [name.text]) (hd : s.declaredNames = [name.text])
    (hx : x.AddsAt m noGain) :
    s.LeavesAt env m ((do
      let a ← x
      defineName env name (value a)
      pure Completion.normal : Run Completion) m) := by
  have hmem : name.text ∈ s.declaredNames := by rw [hd]; exact List.mem_singleton.mpr rfl
  constructor
  · exact addsAt_bind hx.of_noGain fun a m₁ _ =>
      addsAt_bind (defineName_addsAt hmem) fun _ _ _ => addsAt_pure _
  · intro f m' hr
    simp only [AddsAt, bind, EStateM.bind] at hx hr
    cases hxm : x m with
    | error g m₁ =>
      rw [hxm] at hx hr
      cases hr
      exact hx
    | ok a m₁ =>
      rw [hxm] at hx hr
      dsimp only at hr
      cases hdef : defineName env name (value a) m₁ with
      | error g m₂ =>
        rw [hdef] at hr
        cases hr
        rw [defineName_failed hdef]
        exact hx
      | ok u m₂ =>
        rw [hdef] at hr
        cases hr
  · intro c m' hr henv y hy
    rw [hs] at hy
    obtain rfl := List.mem_singleton.mp hy
    simp only [AddsAt, bind, EStateM.bind] at hx hr
    cases hxm : x m with
    | error g m₁ =>
      rw [hxm] at hr
      cases hr
    | ok a m₁ =>
      rw [hxm] at hx hr
      dsimp only at hr
      cases hdef : defineName env name (value a) m₁ with
      | error g m₂ =>
        rw [hdef] at hr
        cases hr
      | ok u m₂ =>
        rw [hdef] at hr
        cases hr
        exact defineName_binds hdef (Nat.lt_of_lt_of_le henv hx.size)

/-- Statements in a new scope, seen from outside. -/
theorem addsAt_enter {parent : ScopeId} {f : ScopeId → Run β} (xs : List String)
    (hf : ∀ i m', (f i).AddsAt m' (gainIn i xs)) : (enter parent >>= f).AddsAt m noGain := by
  have h : (enter parent >>= f).AddsAt m (gainIn m.scopes.all.size xs) := by
    refine addsAt_bind (Grows.of_create _ _).of_noGain fun i m' hi => ?_
    cases hi
    exact hf _ _
  exact h.forget

mutual

/-- **A statement adds what it declares to its own scope, and nothing else.** -/
theorem Stmt.exec_leavesAt (hn : names.AddsNothing) (hc : call.AddsNothing) :
    (s : Stmt (Option Nat)) → ∀ env m, s.LeavesAt env m (s.exec names call env m)
  | .expr e, env, m => by
    rw [Stmt.exec]
    exact .of_noGain rfl (addsAt_bind (e.eval_addsAt hn hc env m) fun _ _ _ => addsAt_pure _)
  | .letDecl name init type, env, m => by
    rw [Stmt.exec]
    exact Stmt.LeavesAt.of_define id rfl rfl (evalOption_addsAt hn hc env init m)
  | .block body, env, m => by
    rw [Stmt.exec]
    exact .of_noGain rfl (addsAt_enter _ fun i m' => Stmt.execAll_addsAt hn hc body i m')
  | .branch c t none, env, m => by
    rw [Stmt.exec]
    have hcond := c.eval_addsAt hn hc env m
    simp only [AddsAt, bind, EStateM.bind] at hcond ⊢
    cases hr : c.eval names call env m with
    | error f m₁ =>
      rw [hr] at hcond
      exact .of_noGain rfl hcond
    | ok v m₁ =>
      rw [hr] at hcond
      dsimp only
      by_cases hv : v.isTruthy = true
      · rw [if_pos hv]
        exact (t.exec_leavesAt hn hc env m₁).of_branch hcond rfl (List.Subset.refl _)
      · rw [if_neg hv]
        exact .of_noGain rfl hcond
  | .branch c t (some e), env, m => by
    rw [Stmt.exec]
    have hcond := c.eval_addsAt hn hc env m
    simp only [AddsAt, bind, EStateM.bind] at hcond ⊢
    cases hr : c.eval names call env m with
    | error f m₁ =>
      rw [hr] at hcond
      exact .of_noGain rfl hcond
    | ok v m₁ =>
      rw [hr] at hcond
      dsimp only
      by_cases hv : v.isTruthy = true
      · rw [if_pos hv]
        exact (t.exec_leavesAt hn hc env m₁).of_branch hcond rfl (List.subset_append_left ..)
      · rw [if_neg hv]
        exact (e.exec_leavesAt hn hc env m₁).of_branch hcond rfl (List.subset_append_right ..)
  | .functionDecl name params body, env, m => by
    rw [Stmt.exec]
    exact Stmt.LeavesAt.of_define (fun n => .closure ⟨name, params, body, env, n⟩) rfl rfl
      (Grows.refl _)
  | .returnStmt keyword value, env, m => by
    rw [Stmt.exec]
    exact .of_noGain rfl
      (addsAt_bind (evalOption_addsAt hn hc env value m) fun _ _ _ => addsAt_pure _)
  | .namespaceDecl name body, env, m => by
    rw [Stmt.exec]
    exact .of_noGain rfl (Grows.refl _)

theorem Stmt.execAll_addsAt (hn : names.AddsNothing) (hc : call.AddsNothing) :
    (ss : List (Stmt (Option Nat))) → ∀ env m,
      (Stmt.execAll names call env ss).AddsAt m (gainIn env (Stmt.allDeclaredNames ss))
  | [], env, m => by
    rw [Stmt.execAll]
    exact addsAt_pure _
  | s :: ss, env, m => by
    rw [Stmt.execAll]
    have hs : (s.exec names call env).AddsAt m (gainIn env (Stmt.allDeclaredNames (s :: ss))) :=
      (s.exec_leavesAt hn hc env m).grows.weaken
        fun _ _ _ hg => ⟨hg.1, List.mem_append_left _ hg.2⟩
    refine addsAt_bind hs fun c m₁ _ => ?_
    cases c with
    | normal =>
      exact (Stmt.execAll_addsAt hn hc ss env m₁).weaken
        fun _ _ _ hg => ⟨hg.1, List.mem_append_right _ hg.2⟩
    | returned v => exact addsAt_pure _

end

/-! ## Calls -/

theorem bindParams_addsAt (params : List Token) (args : List Value) :
    (bindParams env params args).AddsAt m (gainIn env (params.map Token.text)) := by
  induction params generalizing args m with
  | nil => cases args <;> exact addsAt_pure _
  | cons p ps ih =>
    cases args with
    | nil => exact addsAt_pure _
    | cons v vs =>
      refine addsAt_bind (defineName_addsAt (List.mem_cons_self ..)) fun _ m₁ _ => ?_
      exact (ih vs).weaken fun _ _ _ hg => ⟨hg.1, List.mem_cons_of_mem _ hg.2⟩

theorem withArity_addsAt {arity : Nat} {args : List Value} {paren : Token} {body : Run Value}
    (h : body.AddsAt m noGain) : (withArity arity args paren body).AddsAt m noGain := by
  rw [withArity]
  by_cases ha : args.length = arity
  · rw [if_pos ha]
    exact addsAt_located paren h
  · rw [if_neg ha]
    exact addsAt_throw _

theorem callWith_addsNothing {runBody : ScopeId → List (Stmt (Option Nat)) → Run Completion}
    (h : ∀ i body m, (runBody i body).AddsAt m (gainIn i (Stmt.allDeclaredNames body))) :
    (callWith runBody).AddsNothing := by
  intro f args paren m
  cases f
  case native f _ => exact withArity_addsAt (addsAt_native f args)
  case closure f =>
    -- parameters and body go into the scope of the call
    refine withArity_addsAt (addsAt_enter
      (f.params.map Token.text ++ Stmt.allDeclaredNames f.body) fun i m₁ => ?_)
    refine addsAt_bind ((bindParams_addsAt f.params args).weaken
      fun _ _ _ hg => ⟨hg.1, List.mem_append_left _ hg.2⟩) fun _ m₂ _ => ?_
    refine addsAt_bind ((h i f.body m₂).weaken
      fun _ _ _ hg => ⟨hg.1, List.mem_append_right _ hg.2⟩) fun c m₃ _ => ?_
    cases c <;> exact addsAt_pure _
  all_goals exact addsAt_throw _

/-- **Calls add nothing to the scopes that were there**, however deep they are nested. -/
theorem Caller.ofDepth_addsNothing (hn : names.AddsNothing) (depth : Nat) :
    (Caller.ofDepth names depth).AddsNothing := by
  induction depth with
  | zero => exact callWith_addsNothing fun _ _ _ => addsAt_throw _
  | succ depth ih =>
    exact callWith_addsNothing fun i body m => Stmt.execAll_addsAt hn ih body i m

/-! ## Texts -/

/-- The statements of a list that come to their end when the list is executed. -/
def Stmt.completed (names : Names) (call : Caller) (env : ScopeId) :
    List (Stmt (Option Nat)) → Machine → List (Stmt (Option Nat))
  | [], _ => []
  | s :: ss, m =>
    match s.exec names call env m with
    | .ok .normal m' => s :: Stmt.completed names call env ss m'
    | .ok (.returned _) _ => [s]
    | .error _ _ => []

/-- A scope has the names from before and the names of the statements that came to their end. -/
theorem Stmt.binds_execAll_iff (hn : names.AddsNothing) (hc : call.AddsNothing)
    {ss : List (Stmt (Option Nat))} (hg : Stmt.AllGrammatical ss)
    (henv : env < m.scopes.all.size) (x : String) :
    (machineAfter (Stmt.execAll names call env ss m)).scopes.Binds env x ↔
      m.scopes.Binds env x ∨ x ∈ (Stmt.completed names call env ss m).flatMap Stmt.ownNames := by
  induction ss generalizing m with
  | nil =>
    rw [Stmt.execAll, Stmt.completed]
    exact (or_iff_left List.not_mem_nil).symm
  | cons s ss ih =>
    have hs := s.exec_leavesAt hn hc env m
    rw [Stmt.execAll, Stmt.completed]
    simp only [bind, EStateM.bind]
    -- a statement that has not failed has bound its own name
    have hown : ∀ c m', s.exec names call env m = .ok c m' →
        (m'.scopes.Binds env x ↔ m.scopes.Binds env x ∨ x ∈ s.ownNames) := by
      intro c m' hr
      have hgrows := hs.grows
      rw [hr, Stmt.declaredNames_eq_ownNames hg.1] at hgrows
      constructor
      · intro hb
        exact (hgrows.gained env henv x hb).imp_right fun h => h.2
      · rintro (hb | hx)
        · exact hgrows.kept env x hb
        · exact hs.bound c m' hr henv x hx
    cases hr : s.exec names call env m with
    | ok c m' =>
      cases c with
      | normal =>
        have henv' : env < m'.scopes.all.size := by
          have hgrows := hs.grows
          rw [hr] at hgrows
          exact Nat.lt_of_lt_of_le henv hgrows.size
        dsimp only
        rw [ih hg.2 henv', hown _ _ hr, List.flatMap_cons, List.mem_append, or_assoc]
      | returned v =>
        dsimp only
        rw [List.flatMap_cons, List.flatMap_nil, List.append_nil]
        exact hown _ _ hr
    | error f m' =>
      have hgrows := hs.failed f m' hr
      dsimp only
      rw [List.flatMap_nil]
      refine ⟨fun hb => ?_, fun hb => hgrows.kept env x (hb.resolve_right List.not_mem_nil)⟩
      exact (hgrows.gained env henv x hb).imp_right False.elim

/-- The statements of a text that come to their end when it is run. -/
def Session.completed (depth : Nat) (source : String) (m : Machine) : List (Stmt (Option Nat)) :=
  match compileSource source with
  | .error _ => []
  | .ok p => Stmt.completed .tagged (Caller.ofDepth .tagged depth) globalScope p m

/-- The globals have no parent, so the names that are seen from them are their own. -/
theorem Scopes.mem_names_globalScope (s : Scopes) (x : String) :
    x ∈ s.names globalScope ↔ s.Binds globalScope x := by
  rw [Scopes.names, Scopes.parent?_globalScope, Scopes.Binds, Scopes.own?]
  cases s.scope? globalScope with
  | none => simp
  | some c => simp [Scope.names, Scope.get?, List.lookup_isSome_iff]

/-- **What a run does to the scopes that were there.** In every session,

* evaluating an expression, and calling a value, adds no name to a scope that was there;
* a statement adds to the scope it is executed in the name that it declares itself, and to the
  other scopes nothing, however it ends;
* after a text the globals have the names from before and the names that those of its statements
  declare which have come to their end. -/
theorem scopes_after_run (console : Console) (steps : List (Nat × String)) (depth : Nat)
    (source : String) :
    let call := Caller.ofDepth .tagged depth
    let m := (outcomes Session.run steps (.initial console)).2
    (∀ e env m₀, (Expr.eval .tagged call env e).AddsAt m₀ noGain) ∧
      (∀ f args paren m₀, (call f args paren).AddsAt m₀ noGain) ∧
      (∀ (s : Stmt (Option Nat)) env m₀, s.Grammatical →
        (s.exec .tagged call env).AddsAt m₀ (gainIn env s.ownNames)) ∧
      (∀ p, compileSource source = .ok p → Stmt.AllGrammatical p) ∧
      ∀ x, x ∈ (machineAfter (Session.run depth source m)).scopes.names globalScope ↔
        x ∈ m.scopes.names globalScope ∨
          x ∈ (Session.completed depth source m).flatMap Stmt.ownNames := by
  intro call m
  have hn := Names.tagged_addsNothing
  have hc : call.AddsNothing := Caller.ofDepth_addsNothing hn depth
  refine ⟨fun e env m₀ => e.eval_addsAt hn hc env m₀, hc, ?_, ?_, ?_⟩
  · intro s env m₀ hs
    rw [← Stmt.declaredNames_eq_ownNames hs]
    exact (s.exec_leavesAt hn hc env m₀).grows
  · exact fun p => grammatical_of_compileSource
  · intro x
    obtain ⟨w, hm, hw⟩ := exists_sound_watched console steps
    have hglobals : globalScope < m.scopes.all.size := by
      show globalScope < (outcomes Session.run steps (.initial console)).2.scopes.all.size
      rw [hm]
      exact hw.globals
    rw [Scopes.mem_names_globalScope, Scopes.mem_names_globalScope, Session.completed]
    cases hp : compileSource source with
    | error r =>
      rw [Session.run, Session.runWith_of_rejected hp, List.flatMap_nil]
      exact (or_iff_left List.not_mem_nil).symm
    | ok p =>
      have hrun : machineAfter (Session.run depth source m) =
          machineAfter (Stmt.execAll .tagged call globalScope p m) := by
        rw [Session.run, Session.runWith_of_compiled hp]
        cases Stmt.execAll .tagged (Caller.ofDepth .tagged depth) globalScope p m <;> rfl
      rw [hrun]
      exact Stmt.binds_execAll_iff hn hc (grammatical_of_compileSource hp) hglobals x

end RadixScript
