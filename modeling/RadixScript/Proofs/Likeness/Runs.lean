import RadixScript.Proofs.Likeness.Results

/-!
# Runs that are alike

Trees that are alike, run on machines that are alike, end alike (`Stmt.execAll_alike`). No step of a
run depends on where a token stands, and a local name matters only through the scope that its tag
leads to.

There is one way for a local name to become visible: the error that it is undefined. Resolution
rules it out, and to keep that argument apart the runs here find names in a way that has no such
error (`Names.sure`).
-/

namespace RadixScript

variable {ι : Type} {L : ι → Likeness} {i : ι} {W : World} {m m' : Machine} {env : ScopeId}
  {name name' : Token} {v v' : Value}

/-! ## Names -/

/-- A result; any fault stands for a chain of scopes that does not have the name. -/
def surely {α : Type} (d : Nat) : Except Fault α → Except Fault α
  | .ok a => .ok a
  | .error _ => .error (.shortChain d)

/-- Names are found by their tags. A name with a tag that is not found is a fault of the machine,
not an error that tells its name. -/
def Names.sure : Names where
  lookUp env name
    | some d => Run.read fun s => surely d (s.getAt env d (.ofToken name))
    | none => RadixScript.lookUp env name none
  assign env name v
    | some d => Run.store (fun s => surely d (s.assigneeAt env d (.ofToken name))) name.text v
    | none => assignName env name v none

theorem resultsAlike_store {target target' : Scopes → Except Fault ScopeId} {x x' : String}
    (hm : m.Alike L W m') (hv : v.Alike L W m.scopes.all.size v')
    (ht : OutcomesAlike L (fun a a' => a' = a ∧ x' = W a 0 x) (target m.scopes)
      (target' m'.scopes)) :
    ResultsAlike L W m.scopes.all.size (fun _ _ _ _ => True) (Run.store target x v m)
      (Run.store target' x' v' m') := by
  rw [Run.store_eq, Run.store_eq]
  cases ha : target m.scopes <;> cases ha' : target' m'.scopes <;> rw [ha, ha'] at ht
  case ok.ok a a' =>
    obtain ⟨rfl, hx⟩ := ht
    refine ⟨W, .refl _ W, ?_, hm.set hx hv, trivial⟩
    simp
  case error.error => exact resultsAlike_throw hm ht
  all_goals exact ht.elim

namespace Machine.Alike

variable {d : Nat} {tag : Option Nat}

/-- What a tagged name leads to, before and after renaming. -/
theorem getAt (hm : m.Alike L W m') (h : name'.text = W env d name.text) :
    OutcomesAlike L (Value.Alike L W m.scopes.all.size)
      (surely d (m.scopes.getAt env d (.ofToken name)))
      (surely d (m'.scopes.getAt env d (.ofToken name'))) := by
  simp only [Scopes.getAt, Scopes.ancestor, hm.ancestor?, bind, Except.bind]
  cases ha : m.scopes.ancestor? env d with
  | none => exact .limit trivial
  | some a =>
    have hown := hm.own? a name.text
    rw [← hm.renaming_eq ha, ← h] at hown
    dsimp only [Name.ofToken]
    generalize m.scopes.own? a name.text = o at hown
    generalize m'.scopes.own? a name'.text = o' at hown
    cases hown with
    | none => exact .limit trivial
    | some hv => exact hv

theorem assigneeAt (hm : m.Alike L W m') (h : name'.text = W env d name.text) :
    OutcomesAlike L (fun a a' => a' = a ∧ name'.text = W a 0 name.text)
      (surely d (m.scopes.assigneeAt env d (.ofToken name)))
      (surely d (m'.scopes.assigneeAt env d (.ofToken name'))) := by
  simp only [Scopes.assigneeAt, Scopes.ancestor, hm.ancestor?, bind, Except.bind]
  cases ha : m.scopes.ancestor? env d with
  | none => exact .limit trivial
  | some a =>
    have hown := hm.own? a name.text
    rw [← hm.renaming_eq ha, ← h] at hown
    dsimp only [Name.ofToken]
    generalize m.scopes.own? a name.text = o at hown
    generalize m'.scopes.own? a name'.text = o' at hown
    cases hown with
    | none => exact .limit trivial
    | some hv => exact ⟨rfl, hm.renaming_eq ha ▸ h⟩

/-- Global names are not renamed. -/
theorem own?_globalScope (hm : m.Alike L W m') (x : String) :
    Option.Rel (Value.Alike L W m.scopes.all.size) (m.scopes.own? globalScope x)
      (m'.scopes.own? globalScope x) := by
  have h := hm.own? globalScope x
  rw [hm.globals] at h
  exact h

theorem get (hm : m.Alike L W m') (h : (L i).token name name') :
    OutcomesAlike L (Value.Alike L W m.scopes.all.size)
      (m.scopes.get globalScope (.ofToken name)) (m'.scopes.get globalScope (.ofToken name')) := by
  have hown := hm.own?_globalScope name.text
  rw [Scopes.get, Scopes.get, Scopes.get?_globalScope, Scopes.get?_globalScope]
  dsimp only [Name.ofToken]
  rw [(L i).text_eq h]
  generalize m.scopes.own? globalScope name.text = o at hown
  generalize m'.scopes.own? globalScope name.text = o' at hown
  cases hown with
  | some hv => exact hv
  | none =>
    rw [Name.undefined, Name.undefined]
    exact .error (.some ⟨i, h⟩)

theorem assignee (hm : m.Alike L W m') (h : (L i).token name name') :
    OutcomesAlike L (fun a a' => a' = a ∧ name'.text = W a 0 name.text)
      (m.scopes.assignee globalScope (.ofToken name))
      (m'.scopes.assignee globalScope (.ofToken name')) := by
  have hown := hm.own?_globalScope name.text
  rw [Scopes.assignee, Scopes.assignee, Scopes.owner?_globalScope, Scopes.owner?_globalScope]
  dsimp only [Name.ofToken]
  rw [(L i).text_eq h]
  generalize m.scopes.own? globalScope name.text = o at hown
  generalize m'.scopes.own? globalScope name.text = o' at hown
  cases hown with
  | some hv =>
    refine ⟨rfl, ?_⟩
    rw [hm.globals]
    rfl
  | none =>
    rw [Name.undefined, Name.undefined]
    exact .error (.some ⟨i, h⟩)

theorem lookUp (hm : m.Alike L W m') (h : (L i).token (name.rename ((W env).ofTag tag)) name') :
    ResultsAlike L W m.scopes.all.size (Value.Alike L) (Names.sure.lookUp env name tag m)
      (Names.sure.lookUp env name' tag m') := by
  cases tag with
  | none =>
    exact resultsAlike_lift hm (hm.get h) fun _ _ _ hv => hv
  | some d =>
    have ht : name'.text = W env d name.text := (L i).text_eq h
    exact resultsAlike_lift hm (hm.getAt ht) fun _ _ _ hv => hv

theorem assign (hm : m.Alike L W m') (h : (L i).token (name.rename ((W env).ofTag tag)) name')
    (hv : v.Alike L W m.scopes.all.size v') :
    ResultsAlike L W m.scopes.all.size (fun _ _ _ _ => True) (Names.sure.assign env name v tag m)
      (Names.sure.assign env name' v' tag m') := by
  cases tag with
  | none => exact resultsAlike_store hm hv (hm.assignee h)
  | some d =>
    have ht : name'.text = W env d name.text := (L i).text_eq h
    exact resultsAlike_store hm hv (hm.assigneeAt ht)

end Machine.Alike

/-! ## Definitions and scopes -/

theorem defineName_alike (hm : m.Alike L W m') (h : name'.text = W env 0 name.text)
    (hv : v.Alike L W m.scopes.all.size v') :
    ResultsAlike L W m.scopes.all.size (fun _ _ _ _ => True) (defineName env name v m)
      (defineName env name' v' m') := by
  have hcheck : ∀ {u u' : Value} {x : Name}, u.Alike L W m.scopes.all.size u' →
      x.check u = .ok () ∧ x.check u' = .ok () := by
    intro u u' x hu
    cases hu with
    | closure => exact ⟨rfl, rfl⟩
    | inert hu =>
      cases u
      case foreign => exact hu.elim
      all_goals exact ⟨rfl, rfl⟩
  have htarget : OutcomesAlike L (fun a a' => a' = a ∧ name'.text = W a 0 name.text) (.ok env)
      (.ok env) := ⟨rfl, h⟩
  have hstore : ResultsAlike L W m.scopes.all.size (fun _ _ _ _ => True)
      (Run.store (fun _ => .ok env) name.text v m)
      (Run.store (fun _ => .ok env) name'.text v' m') := resultsAlike_store hm hv htarget
  rw [defineName, defineName, (hcheck hv).1, (hcheck hv).2]
  exact hstore

theorem bindParams_alike {ρ : Renaming} {params params' : List Token} {args args' : List Value}
    (hm : m.Alike L W m') (hρ : W env 0 = ρ)
    (hparams : List.Forall₂ (fun p p' => (L i).token (p.rename ρ) p') params params')
    (hargs : List.Forall₂ (Value.Alike L W m.scopes.all.size) args args')
    (henv : env < m.scopes.all.size) :
    ResultsAlike L W m.scopes.all.size (fun _ _ _ _ => True) (bindParams env params args m)
      (bindParams env params' args' m') := by
  induction hparams generalizing args args' W m m' with
  | nil => cases hargs <;> exact resultsAlike_pure hm trivial
  | cons hp _ ih =>
    cases hargs with
    | nil => exact resultsAlike_pure hm trivial
    | cons hv hvs =>
      have ht := (L i).text_eq hp
      refine resultsAlike_bind (defineName_alike hm (hρ ▸ ht) hv) ?_
      intro W₁ _ _ m₁ m₁' hW hn hm₁ _
      refine ih hm₁ ?_ (hvs.imp fun _ _ h => h.extend hW hn) (Nat.lt_of_lt_of_le henv hn)
      rw [hW env henv]
      exact hρ

/-- Entering a scope whose names are renamed. -/
theorem enter_alike (hm : m.Alike L W m') (henv : env < m.scopes.all.size) {ρ : Renaming}
    (hρ : (L i).renames ρ) :
    ResultsAlike L W m.scopes.all.size
      (fun W' n j j' => j' = j ∧ j < n ∧ W' j = (W env).enter ρ) (Run.enter env m)
      (Run.enter env m') := by
  refine ⟨W.create m.scopes.all.size env ρ, W.extends_create _ env ρ, ?_, hm.create henv ⟨i, hρ⟩,
    hm.size, ?_, World.create_self⟩
  · simp
  · simp

theorem nextSerial_alike (hm : m.Alike L W m') :
    ResultsAlike L W m.scopes.all.size (fun _ _ => Eq) (Run.nextSerial m) (Run.nextSerial m') := by
  have hclosures := hm.closures
  refine ⟨W, .refl _ W, Nat.le_refl _, { hm with closures := ?_ }, hclosures.symm⟩
  exact congrArg (· + 1) hclosures

/-! ## Expressions -/

/-- Calls of values that are alike, with arguments that are alike, end alike. -/
def Caller.KeepsLikeness (L : ι → Likeness) (call : Caller) : Prop :=
  ∀ ⦃W m m' f f' args args' i paren paren'⦄, m.Alike L W m' →
    f.Alike L W m.scopes.all.size f' →
    List.Forall₂ (Value.Alike L W m.scopes.all.size) args args' → (L i).token paren paren' →
    ResultsAlike L W m.scopes.all.size (Value.Alike L) (call f args paren m)
      (call f' args' paren' m')

section trees

variable {call : Caller}

mutual

/-- **Expressions that are alike have values that are alike.** -/
theorem Expr.eval_alike (hc : call.KeepsLikeness L) : (e : Expr (Option Nat)) →
    ∀ {e' i env W m m'}, e.Alike (L i) (W env) e' → m.Alike L W m' →
    env < m.scopes.all.size →
    ResultsAlike L W m.scopes.all.size (Value.Alike L) (e.eval .sure call env m)
      (e'.eval .sure call env m')
  | .literal v, _, i, env, W, m, m', h, hm, _ => by
    cases h
    rw [Expr.eval]
    refine resultsAlike_pure hm (.inert ?_)
    cases v <;> trivial
  | .group e, _, i, env, W, m, m', h, hm, henv => by
    cases h with | group h =>
    rw [Expr.eval, Expr.eval]
    exact e.eval_alike hc h hm henv
  | .logical l op r, _, i, env, W, m, m', h, hm, henv => by
    cases h with | @logical _ l' _ op' _ r' hl hop hr =>
    rw [Expr.eval, Expr.eval]
    refine resultsAlike_bind (l.eval_alike hc hl hm henv) ?_
    intro W₁ left left' m₁ m₁' hW hn hm₁ hleft
    have hsettles : Operator.settles op' left' = Operator.settles op left := by
      rw [Operator.settles, Operator.settles, (L i).kind_eq hop, hleft.isTruthy]
    rw [hsettles]
    by_cases hs : Operator.settles op left = true
    · rw [if_pos hs, if_pos hs]
      exact resultsAlike_pure hm₁ hleft
    · rw [if_neg hs, if_neg hs]
      exact r.eval_alike hc (hW env henv ▸ hr) hm₁ (Nat.lt_of_lt_of_le henv hn)
  | .unary op e, _, i, env, W, m, m', h, hm, henv => by
    cases h with | unary hop h =>
    rw [Expr.eval, Expr.eval]
    refine resultsAlike_bind (e.eval_alike hc h hm henv) ?_
    intro W₁ v v' m₁ m₁' _ _ hm₁ hv
    exact Operator.unary_alike hm₁ hop hv
  | .binary l op r, _, i, env, W, m, m', h, hm, henv => by
    cases h with | binary hl hop hr =>
    rw [Expr.eval, Expr.eval]
    refine resultsAlike_bind (l.eval_alike hc hl hm henv) ?_
    intro W₁ left left' m₁ m₁' hW₁ hn₁ hm₁ hleft
    refine resultsAlike_bind
      (r.eval_alike hc (hW₁ env henv ▸ hr) hm₁ (Nat.lt_of_lt_of_le henv hn₁)) ?_
    intro W₂ right right' m₂ m₂' hW₂ hn₂ hm₂ hright
    exact Operator.binary_alike hm₂ hop (hleft.extend hW₂ hn₂) hright
  | .reference name tag, _, i, env, W, m, m', h, hm, _ => by
    cases h with | reference h =>
    rw [Expr.eval, Expr.eval]
    exact hm.lookUp h
  | .assign name tag e, _, i, env, W, m, m', h, hm, henv => by
    cases h with | assign h he =>
    rw [Expr.eval, Expr.eval]
    refine resultsAlike_bind (e.eval_alike hc he hm henv) ?_
    intro W₁ v v' m₁ m₁' hW₁ hn₁ hm₁ hv
    refine resultsAlike_bind (hm₁.assign (hW₁ env henv ▸ h) hv) ?_
    intro W₂ _ _ m₂ m₂' hW₂ hn₂ hm₂ _
    exact resultsAlike_pure hm₂ (hv.extend hW₂ hn₂)
  | .call callee paren args, _, i, env, W, m, m', h, hm, henv => by
    cases h with | call hf hp hargs =>
    rw [Expr.eval, Expr.eval]
    refine resultsAlike_bind (callee.eval_alike hc hf hm henv) ?_
    intro W₁ f f' m₁ m₁' hW₁ hn₁ hm₁ hf
    refine resultsAlike_bind
      (Expr.evalAll_alike hc args (hW₁ env henv ▸ hargs) hm₁ (Nat.lt_of_lt_of_le henv hn₁)) ?_
    intro W₂ vs vs' m₂ m₂' hW₂ hn₂ hm₂ hvs
    exact hc hm₂ (hf.extend hW₂ hn₂) hvs hp

theorem Expr.evalAll_alike (hc : call.KeepsLikeness L) : (es : List (Expr (Option Nat))) →
    ∀ {es' i env W m m'}, Expr.AllAlike (L i) (W env) es es' → m.Alike L W m' →
    env < m.scopes.all.size →
    ResultsAlike L W m.scopes.all.size (fun W n => List.Forall₂ (Value.Alike L W n))
      (Expr.evalAll .sure call env es m) (Expr.evalAll .sure call env es' m')
  | [], _, i, env, W, m, m', h, hm, _ => by
    cases h
    rw [Expr.evalAll]
    exact resultsAlike_pure hm .nil
  | e :: es, _, i, env, W, m, m', h, hm, henv => by
    cases h with | cons h hs =>
    rw [Expr.evalAll, Expr.evalAll]
    refine resultsAlike_bind (e.eval_alike hc h hm henv) ?_
    intro W₁ v v' m₁ m₁' hW₁ hn₁ hm₁ hv
    refine resultsAlike_bind
      (Expr.evalAll_alike hc es (hW₁ env henv ▸ hs) hm₁ (Nat.lt_of_lt_of_le henv hn₁)) ?_
    intro W₂ vs vs' m₂ m₂' hW₂ hn₂ hm₂ hvs
    exact resultsAlike_pure hm₂ (.cons (hv.extend hW₂ hn₂) hvs)

end

theorem evalOption_alike (hc : call.KeepsLikeness L) {e e' : Option (Expr (Option Nat))}
    (h : Option.Rel (Expr.Alike (L i) (W env)) e e') (hm : m.Alike L W m')
    (henv : env < m.scopes.all.size) :
    ResultsAlike L W m.scopes.all.size (Value.Alike L) (evalOption .sure call env e m)
      (evalOption .sure call env e' m') := by
  cases h with
  | none => exact resultsAlike_pure hm (.inert trivial)
  | some h => exact Expr.eval_alike hc _ h hm henv

/-! ## Statements -/

/-- The statements end in the same way, and the values that they return are alike. -/
inductive Completion.Alike (L : ι → Likeness) (W : World) (n : Nat) : Completion → Completion → Prop
  | normal : Completion.Alike L W n .normal .normal
  | returned {u u'} (h : u.Alike L W n u') : Completion.Alike L W n (.returned u) (.returned u')

mutual

/-- **Statements that are alike end alike.** -/
theorem Stmt.exec_alike (hc : call.KeepsLikeness L) : (s : Stmt (Option Nat)) →
    ∀ {s' i env W m m'}, s.Alike (L i) (W env) s' → m.Alike L W m' → env < m.scopes.all.size →
    ResultsAlike L W m.scopes.all.size (Completion.Alike L) (s.exec .sure call env m)
      (s'.exec .sure call env m')
  | .expr e, _, i, env, W, m, m', h, hm, henv => by
    cases h with | expr h =>
    rw [Stmt.exec, Stmt.exec]
    refine resultsAlike_bind (e.eval_alike hc h hm henv) ?_
    intro W₁ _ _ m₁ m₁' _ _ hm₁ _
    exact resultsAlike_pure hm₁ .normal
  | .letDecl name init type, _, i, env, W, m, m', h, hm, henv => by
    cases h with | letDecl hname hinit _ =>
    rw [Stmt.exec, Stmt.exec]
    refine resultsAlike_bind (evalOption_alike hc hinit hm henv) ?_
    intro W₁ v v' m₁ m₁' hW₁ _ hm₁ hv
    have ht := (L i).text_eq hname
    refine resultsAlike_bind (defineName_alike hm₁ (hW₁ env henv ▸ ht) hv) ?_
    intro W₂ _ _ m₂ m₂' _ _ hm₂ _
    exact resultsAlike_pure hm₂ .normal
  | .block body, _, i, env, W, m, m', h, hm, henv => by
    cases h with | block ρ hρ h =>
    rw [Stmt.exec, Stmt.exec]
    refine resultsAlike_bind (enter_alike hm henv hρ) ?_
    rintro W₁ _ j m₁ m₁' _ _ hm₁ ⟨rfl, hj, hW₁⟩
    exact Stmt.execAll_alike hc body (hW₁ ▸ h) hm₁ hj
  | .branch c t none, _, i, env, W, m, m', h, hm, henv => by
    cases h with | branch hcond ht =>
    rw [Stmt.exec, Stmt.exec]
    refine resultsAlike_bind (c.eval_alike hc hcond hm henv) ?_
    intro W₁ v v' m₁ m₁' hW₁ hn₁ hm₁ hv
    rw [hv.isTruthy]
    by_cases htruthy : v.isTruthy = true
    · rw [if_pos htruthy, if_pos htruthy]
      exact t.exec_alike hc (hW₁ env henv ▸ ht) hm₁ (Nat.lt_of_lt_of_le henv hn₁)
    · rw [if_neg htruthy, if_neg htruthy]
      exact resultsAlike_pure hm₁ .normal
  | .branch c t (some e), _, i, env, W, m, m', h, hm, henv => by
    cases h with | branchElse hcond ht he =>
    rw [Stmt.exec, Stmt.exec]
    refine resultsAlike_bind (c.eval_alike hc hcond hm henv) ?_
    intro W₁ v v' m₁ m₁' hW₁ hn₁ hm₁ hv
    rw [hv.isTruthy]
    by_cases htruthy : v.isTruthy = true
    · rw [if_pos htruthy, if_pos htruthy]
      exact t.exec_alike hc (hW₁ env henv ▸ ht) hm₁ (Nat.lt_of_lt_of_le henv hn₁)
    · rw [if_neg htruthy, if_neg htruthy]
      exact e.exec_alike hc (hW₁ env henv ▸ he) hm₁ (Nat.lt_of_lt_of_le henv hn₁)
  | .functionDecl name params body, _, i, env, W, m, m', h, hm, henv => by
    cases h with | functionDecl ρ hρ hname hfixed hparams h =>
    rw [Stmt.exec, Stmt.exec]
    refine resultsAlike_bind (nextSerial_alike hm) ?_
    rintro W₁ serial _ m₁ m₁' hW₁ hn₁ hm₁ rfl
    have ht := (L i).text_eq hname
    rw [← hW₁ env henv] at h hfixed
    refine resultsAlike_bind (defineName_alike hm₁ (ht.trans hfixed.symm) (.closure i ?_)) ?_
    · exact ⟨rfl, Nat.lt_of_lt_of_le henv hn₁, rfl, hname, ρ, hρ, hparams, h⟩
    · intro W₂ _ _ m₂ m₂' _ _ hm₂ _
      exact resultsAlike_pure hm₂ .normal
  | .returnStmt keyword value, _, i, env, W, m, m', h, hm, henv => by
    cases h with | returnStmt _ h =>
    rw [Stmt.exec, Stmt.exec]
    refine resultsAlike_bind (evalOption_alike hc h hm henv) ?_
    intro W₁ v v' m₁ m₁' _ _ hm₁ hv
    exact resultsAlike_pure hm₁ (.returned hv)
  | .namespaceDecl name body, _, i, env, W, m, m', h, hm, _ => by
    cases h
    rw [Stmt.exec, Stmt.exec]
    exact resultsAlike_pure hm .normal

theorem Stmt.execAll_alike (hc : call.KeepsLikeness L) : (ss : List (Stmt (Option Nat))) →
    ∀ {ss' i env W m m'}, Stmt.AllAlike (L i) (W env) ss ss' → m.Alike L W m' →
    env < m.scopes.all.size →
    ResultsAlike L W m.scopes.all.size (Completion.Alike L) (Stmt.execAll .sure call env ss m)
      (Stmt.execAll .sure call env ss' m')
  | [], _, i, env, W, m, m', h, hm, _ => by
    cases h
    rw [Stmt.execAll]
    exact resultsAlike_pure hm .normal
  | s :: ss, _, i, env, W, m, m', h, hm, henv => by
    cases h with | cons h hs =>
    rw [Stmt.execAll, Stmt.execAll]
    refine resultsAlike_bind (s.exec_alike hc h hm henv) ?_
    intro W₁ c c' m₁ m₁' hW₁ hn₁ hm₁ hcompletion
    cases hcompletion with
    | normal =>
      exact Stmt.execAll_alike hc ss (hW₁ env henv ▸ hs) hm₁ (Nat.lt_of_lt_of_le henv hn₁)
    | returned hv => exact resultsAlike_pure hm₁ (.returned hv)

end

end trees

/-! ## Calls -/

theorem withArity_alike {n n' : Nat} {args args' : List Value} {paren paren' : Token}
    {body body' : Run Value} (hm : m.Alike L W m') (hn : n' = n)
    (hargs : args'.length = args.length) (hp : (L i).token paren paren')
    (h : args.length = n →
      ResultsAlike L W m.scopes.all.size (Value.Alike L) (body m) (body' m')) :
    ResultsAlike L W m.scopes.all.size (Value.Alike L) (withArity n args paren body m)
      (withArity n' args' paren' body' m') := by
  rw [withArity, withArity, hn, hargs]
  by_cases ha : args.length = n
  · rw [if_pos ha, if_pos ha]
    exact resultsAlike_located hp (h ha)
  · rw [if_neg ha, if_neg ha]
    exact resultsAlike_throw hm (.causeAt hp _)

theorem callWith_keepsLikeness {runBody : ScopeId → List (Stmt (Option Nat)) → Run Completion}
    (h : ∀ ⦃i env W m m' ss ss'⦄, Stmt.AllAlike (L i) (W env) ss ss' → m.Alike L W m' →
      env < m.scopes.all.size →
      ResultsAlike L W m.scopes.all.size (Completion.Alike L) (runBody env ss m)
        (runBody env ss' m')) :
    (callWith runBody).KeepsLikeness L := by
  intro W m m' f f' args args' i paren paren' hm hf hargs hp
  cases hf with
  | inert hf =>
    cases f
    case native g s =>
      exact withArity_alike hm rfl hargs.length_eq.symm hp fun _ => g.run_alike hm hargs
    case closure g => exact hf.elim
    all_goals exact resultsAlike_throw hm (.causeAt hp _)
  | @closure g g' j hg =>
    obtain ⟨ρ, hρ, hparams, hbody⟩ := hg.code
    refine withArity_alike hm hparams.length_eq.symm hargs.length_eq.symm hp fun _ => ?_
    rw [Closure.run, Closure.run, hg.scope]
    refine resultsAlike_bind (enter_alike hm hg.scope_lt hρ) ?_
    rintro W₁ _ k m₁ m₁' hW₁ hn₁ hm₁ ⟨rfl, hk, hWk⟩
    have hfirst : W₁ k 0 = ρ := by
      rw [hWk]
      rfl
    refine resultsAlike_bind (bindParams_alike hm₁ hfirst hparams
      (hargs.imp fun _ _ h => h.extend hW₁ hn₁) hk) ?_
    intro W₂ _ _ m₂ m₂' hW₂ hn₂ hm₂ _
    have hbody₂ : Stmt.AllAlike (L j) (W₂ k) g.body g'.body := by
      rw [hW₂ k hk, hWk]
      exact hbody
    refine resultsAlike_bind (h hbody₂ hm₂ (Nat.lt_of_lt_of_le hk hn₂)) ?_
    intro W₃ c c' m₃ m₃' _ _ hm₃ hcompletion
    cases hcompletion with
    | normal => exact resultsAlike_pure hm₃ (.inert trivial)
    | returned hv => exact resultsAlike_pure hm₃ hv

/-- **Calls keep likeness**, however deep they are nested. -/
theorem Caller.ofDepth_keepsLikeness (L : ι → Likeness) (depth : Nat) :
    (Caller.ofDepth .sure depth).KeepsLikeness L := by
  induction depth with
  | zero =>
    exact callWith_keepsLikeness fun _ _ _ _ _ _ _ _ hm _ =>
      resultsAlike_throw hm (.limit trivial)
  | succ depth ih =>
    exact callWith_keepsLikeness fun _ _ _ _ _ ss _ hss hm henv =>
      Stmt.execAll_alike ih ss hss hm henv

end RadixScript
