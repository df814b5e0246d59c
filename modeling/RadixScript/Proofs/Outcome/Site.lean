import RadixScript.Proofs.Laws.Code
import RadixScript.Proofs.Outcome.Classification
import RadixScript.Proofs.Pieces.Tokens
import RadixScript.Proofs.Scoping.Nearest

/-!
# Where errors are put

An error of a running program is put at the token of the expression that raises it: at the name, at
the operator or at the parenthesis that closes the call. A native function raises errors without a
token; they are put at the call that asked the native function, wherever this value came from. Calls
around it try to set a token as well, and find that there is one (`Reaches.fails`).

Since running adds no code, the expression is one of the text, and its token one of those that the
text is scanned as (`run_error_site`).
-/

namespace RadixScript

variable {δ : Type}

/-! ## Tokens of expressions -/

/-- The token of an expression itself, not of those inside of it. -/
def Expr.token? : Expr δ → Option Token
  | .literal _ | .group _ => none
  | .unary op _ | .binary _ op _ | .logical _ op _ => some op
  | .reference name _ | .assign name _ _ => some name
  | .call _ paren _ => some paren

mutual

theorem Expr.token_mem_tokens : (e : Expr δ) → ∀ {x t}, x ∈ e.nodes → x.token? = some t →
    t ∈ e.tokens
  | .literal v, x, t, h, ht => by
    obtain rfl := List.mem_singleton.mp h
    cases ht
  | .reference name d, x, t, h, ht => by
    obtain rfl := List.mem_singleton.mp h
    cases ht
    exact List.mem_singleton.mpr rfl
  | .group e, x, t, h, ht => by
    rcases List.mem_cons.mp h with rfl | h
    · cases ht
    · have := e.token_mem_tokens h ht
      simpa [Expr.tokens, Expr.symbols] using this
  | .unary op e, x, t, h, ht => by
    rw [Expr.tokens, Expr.symbols, Symbol.filterMap_token?_token]
    rcases List.mem_cons.mp h with rfl | h
    · cases ht
      exact List.mem_cons_self ..
    · exact List.mem_cons_of_mem _ (e.token_mem_tokens h ht)
  | .binary l op r, x, t, h, ht | .logical l op r, x, t, h, ht => by
    rw [Expr.tokens, Expr.symbols, List.filterMap_append, Symbol.filterMap_token?_token,
      List.mem_append, List.mem_cons]
    rcases List.mem_cons.mp h with rfl | h
    · cases ht
      exact .inr (.inl rfl)
    · rcases List.mem_append.mp h with h | h
      · exact .inl (l.token_mem_tokens h ht)
      · exact .inr (.inr (r.token_mem_tokens h ht))
  | .assign name d e, x, t, h, ht => by
    rw [Expr.tokens, Expr.symbols, Symbol.filterMap_token?_token, Symbol.filterMap_token?_mark]
    rcases List.mem_cons.mp h with rfl | h
    · cases ht
      exact List.mem_cons_self ..
    · exact List.mem_cons_of_mem _ (e.token_mem_tokens h ht)
  | .call callee paren args, x, t, h, ht => by
    rw [Expr.tokens, Expr.symbols, List.filterMap_append, Symbol.filterMap_token?_mark,
      List.filterMap_append, Symbol.filterMap_token?_commas, List.mem_append, List.mem_append]
    rcases List.mem_cons.mp h with rfl | h
    · cases ht
      exact .inr (.inr (List.mem_singleton.mpr rfl))
    · rcases List.mem_append.mp h with h | h
      · exact .inl (callee.token_mem_tokens h ht)
      · exact .inr (.inl (Expr.token_mem_symbolLists args h ht))

theorem Expr.token_mem_symbolLists : (es : List (Expr δ)) → ∀ {x t}, x ∈ Expr.allNodes es →
    x.token? = some t → t ∈ (Expr.symbolLists es).flatMap (List.filterMap Symbol.token?)
  | [], _, _, h, _ => nomatch h
  | e :: es, x, t, h, ht => by
    rw [Expr.symbolLists, List.flatMap_cons, List.mem_append]
    rcases List.mem_append.mp h with h | h
    · exact .inl (e.token_mem_tokens h ht)
    · exact .inr (Expr.token_mem_symbolLists es h ht)

end

theorem token_mem_initSymbols {e : Option (Expr δ)} {x : Expr δ} {t : Token}
    (h : x ∈ optionNodes e) (ht : x.token? = some t) :
    t ∈ (initSymbols e).filterMap Symbol.token? := by
  cases e with
  | none => cases h
  | some e => exact e.token_mem_tokens h ht

theorem token_mem_optionSymbols {e : Option (Expr δ)} {x : Expr δ} {t : Token}
    (h : x ∈ optionNodes e) (ht : x.token? = some t) :
    t ∈ (optionSymbols e).filterMap Symbol.token? := by
  cases e with
  | none => cases h
  | some e => exact e.token_mem_tokens h ht

mutual

theorem Stmt.token_mem_tokens : (s : Stmt δ) → ∀ {x t}, x ∈ s.nodes → x.token? = some t →
    t ∈ s.tokens
  | .expr e, x, t, h, ht => by
    rw [Stmt.tokens, Stmt.symbols, List.filterMap_append, List.mem_append]
    exact .inl (e.token_mem_tokens h ht)
  | .letDecl name init type, x, t, h, ht => by
    rw [Stmt.tokens, Stmt.symbols, ← List.singleton_append, List.filterMap_append,
      Symbol.filterMap_token?_token, List.filterMap_append, List.mem_append, List.mem_cons,
      List.mem_append]
    exact .inr (.inr (.inl (token_mem_initSymbols h ht)))
  | .block body, x, t, h, ht => by
    rw [Stmt.tokens, Stmt.symbols, Symbol.filterMap_token?_mark, List.filterMap_append,
      List.mem_append]
    exact .inl (Stmt.token_mem_allTokens body h ht)
  | .branch c s none, x, t, h, ht => by
    rw [Stmt.tokens, Stmt.symbols, Symbol.filterMap_token?_mark, Symbol.filterMap_token?_mark,
      List.filterMap_append, Symbol.filterMap_token?_mark, List.mem_append]
    rcases List.mem_append.mp h with h | h
    · exact .inl (c.token_mem_tokens h ht)
    · exact .inr (s.token_mem_tokens h ht)
  | .branch c s (some e), x, t, h, ht => by
    rw [Stmt.tokens, Stmt.symbols, Symbol.filterMap_token?_mark, Symbol.filterMap_token?_mark,
      List.filterMap_append, Symbol.filterMap_token?_mark, List.filterMap_append,
      Symbol.filterMap_token?_mark, List.mem_append, List.mem_append]
    rcases List.mem_append.mp h with h | h
    · exact .inl (c.token_mem_tokens h ht)
    · rcases List.mem_append.mp h with h | h
      · exact .inr (.inl (s.token_mem_tokens h ht))
      · exact .inr (.inr (e.token_mem_tokens h ht))
  | .returnStmt keyword value, x, t, h, ht => by
    rw [Stmt.tokens, Stmt.symbols, Symbol.filterMap_token?_token, List.filterMap_append,
      List.mem_cons, List.mem_append]
    exact .inr (.inl (token_mem_optionSymbols h ht))
  | .functionDecl name params body, x, t, h, ht => by
    have hbody := Stmt.token_mem_allTokens body h ht
    simp only [Stmt.tokens, Stmt.symbols, Symbol.filterMap_token?_mark,
      Symbol.filterMap_token?_token, List.filterMap_append, List.mem_cons, List.mem_append]
    exact .inr (.inr (.inl hbody))
  | .namespaceDecl _ _, _, _, h, _ => nomatch h

theorem Stmt.token_mem_allTokens : (ss : List (Stmt δ)) → ∀ {x t}, x ∈ Stmt.allNodes ss →
    x.token? = some t → t ∈ Stmt.allTokens ss
  | [], _, _, h, _ => nomatch h
  | s :: ss, x, t, h, ht => by
    rw [Stmt.allTokens, Stmt.allSymbols, List.filterMap_append, List.mem_append]
    rcases List.mem_append.mp h with h | h
    · exact .inl (s.token_mem_tokens h ht)
    · exact .inr (Stmt.token_mem_allTokens ss h ht)

end

/-! ## Expressions that perform operations -/

/-- The operation is the expression's own: evaluated in a scope, on a machine, the expression comes
to the end of its operands, and to the operation on the machine it has then. The number is that of
the calls that may be nested. -/
inductive Expr.Performs (n : Nat) (env : ScopeId) :
    Expr (Option Nat) → Machine → Operation → Machine → Prop
  | unary {op e m v m₁} (he : Expr.eval .tagged (.ofDepth .tagged n) env e m = .ok v m₁) :
    Performs n env (.unary op e) m (.unary op v) m₁
  | binary {l op r m left m₁ right m₂}
    (hl : Expr.eval .tagged (.ofDepth .tagged n) env l m = .ok left m₁)
    (hr : Expr.eval .tagged (.ofDepth .tagged n) env r m₁ = .ok right m₂) :
    Performs n env (.binary l op r) m (.binary op left right) m₂
  | reference {name tag m} : Performs n env (.reference name tag) m (.read env name tag) m
  | assign {name tag e m v m₁} (he : Expr.eval .tagged (.ofDepth .tagged n) env e m = .ok v m₁) :
    Performs n env (.assign name tag e) m (.assign env name tag v) m₁
  | call {callee paren args m f m₁ vs m₂}
    (hf : Expr.eval .tagged (.ofDepth .tagged n) env callee m = .ok f m₁)
    (hvs : Expr.evalAll .tagged (.ofDepth .tagged n) env args m₁ = .ok vs m₂) :
    Performs n env (.call callee paren args) m (.call n f vs paren) m₂

/-- An expression with the property performs the operation. -/
def Operation.IsOf (node : Expr (Option Nat) → Prop) (o : Operation) (m : Machine) : Prop :=
  ∃ x n env m₁, node x ∧ Expr.Performs n env x m₁ o m

section performed

variable {node : Expr (Option Nat) → Prop}

/-- The task consists of expressions with a property. -/
def Task.MadeOf (node : Expr (Option Nat) → Prop) : Task → Prop
  | .expr e => ∀ x ∈ e.nodes, node x
  | .exprs es => ∀ x ∈ Expr.allNodes es, node x
  | .stmt s => ∀ x ∈ s.nodes, node x
  | .stmts ss => ∀ x ∈ Stmt.allNodes ss, node x
  | .call f args _ => f.MadeOf node ∧ ∀ v ∈ args, v.MadeOf node

/-- An expression with the property performs the operation, unless the task is the operation. -/
def Task.Performs (node : Expr (Option Nat) → Prop) (n : Nat) (m : Machine) (o : Operation)
    (m' : Machine) : Task → Prop
  | .call f args paren => (o = .call n f args paren ∧ m' = m) ∨ o.IsOf node m'
  | _ => o.IsOf node m'

theorem Expr.eval_madeOf {e : Expr (Option Nat)} {n : Nat} {env : ScopeId} {m m' : Machine}
    {v : Value} (he : ∀ x ∈ e.nodes, node x) (hm : m.MadeOf node)
    (h : e.eval .tagged (.ofDepth .tagged n) env m = .ok v m') : m'.MadeOf node ∧ v.MadeOf node :=
  RunLaw.eval (L := codeLaw node) (RunLaw.ofDepth n) env e he m v m' hm h

theorem Closure.entry_madeOf {f : Closure} {args : List Value} {i : ScopeId} {m m' : Machine}
    (hargs : ∀ v ∈ args, v.MadeOf node) (hm : m.MadeOf node) (h : f.entry args m = .ok i m') :
    m'.MadeOf node := by
  let L := codeLaw node
  have hentry : L.Holds (fun _ => True) (f.entry args) :=
    L.bind (L.enter f.scope) fun env _ =>
      L.bind (RunLaw.bindParams env f.params hargs) fun _ _ => L.pure trivial
  exact (hentry m i m' hm h).1

/-- **Operations are performed by expressions of the code.** -/
theorem Reaches.performs {n : Nat} {env : ScopeId} {T : Task} {m : Machine} {o : Operation}
    {m' : Machine} (h : Reaches n env T m o m') :
    m.MadeOf node → T.MadeOf node → T.Performs node n m o m' := by
  induction h with
  | group _ ih => exact fun hm h => ih hm (List.forall_mem_cons.mp h).2
  | logicalLeft _ ih | binaryLeft _ ih =>
    exact fun hm h => ih hm (List.forall_mem_append.mp (List.forall_mem_cons.mp h).2).1
  | logicalRight hl _ _ ih | binaryRight hl _ ih =>
    intro hm h
    obtain ⟨hnl, hnr⟩ := List.forall_mem_append.mp (List.forall_mem_cons.mp h).2
    exact ih (Expr.eval_madeOf hnl hm hl).1 hnr
  | unaryOperand _ ih | assignValue _ ih => exact fun hm h => ih hm (List.forall_mem_cons.mp h).2
  | unary he => exact fun _ h => ⟨_, _, _, _, h _ (Expr.mem_nodes_self _), .unary he⟩
  | binary hl hr => exact fun _ h => ⟨_, _, _, _, h _ (Expr.mem_nodes_self _), .binary hl hr⟩
  | @reference n => exact fun _ h => ⟨_, n, _, _, h _ (Expr.mem_nodes_self _), .reference⟩
  | assign he => exact fun _ h => ⟨_, _, _, _, h _ (Expr.mem_nodes_self _), .assign he⟩
  | callee _ ih =>
    exact fun hm h => ih hm (List.forall_mem_append.mp (List.forall_mem_cons.mp h).2).1
  | arguments hf _ ih =>
    intro hm h
    obtain ⟨hcallee, hargs⟩ := List.forall_mem_append.mp (List.forall_mem_cons.mp h).2
    exact ih (Expr.eval_madeOf hcallee hm hf).1 hargs
  | @application n env callee paren args m f m₁ vs m₂ o m' hf hvs _ ih =>
    intro hm h
    obtain ⟨hcallee, hargs⟩ := List.forall_mem_append.mp (List.forall_mem_cons.mp h).2
    obtain ⟨hm₁, hnf⟩ := Expr.eval_madeOf hcallee hm hf
    obtain ⟨hm₂, hnvs⟩ := RunLaw.evalAll (L := codeLaw node) (RunLaw.ofDepth n) env args hargs
      m₁ vs m₂ hm₁ hvs
    rcases ih hm₂ ⟨hnf, hnvs⟩ with ⟨rfl, rfl⟩ | hperforms
    · -- the call of a value is the operation of the expression that calls it
      exact ⟨_, _, _, _, h _ (Expr.mem_nodes_self _), .call hf hvs⟩
    · exact hperforms
  | firstExpr _ ih | firstStmt _ ih => exact fun hm h => ih hm (List.forall_mem_append.mp h).1
  | nextExprs he _ ih =>
    intro hm h
    obtain ⟨hne, hnes⟩ := List.forall_mem_append.mp h
    exact ih (Expr.eval_madeOf hne hm he).1 hnes
  | call => exact fun _ _ => .inl ⟨rfl, rfl⟩
  | body _ hi _ ih => exact fun hm h => .inr (ih (Closure.entry_madeOf h.2 hm hi) h.1)
  | expr _ ih | init _ ih | result _ ih => exact fun hm h => ih hm h
  | block hi _ ih =>
    intro hm h
    cases hi
    exact ih (hm.create _) h
  | @condition n env c t e m o m' _ ih =>
    intro hm h
    cases e <;> exact ih hm (List.forall_mem_append.mp h).1
  | @thenBranch n env c t e m v m₁ o m' hc _ _ ih =>
    intro hm h
    cases e with
    | none =>
      obtain ⟨hnc, hnt⟩ := List.forall_mem_append.mp h
      exact ih (Expr.eval_madeOf hnc hm hc).1 hnt
    | some e =>
      obtain ⟨hnc, hbranches⟩ := List.forall_mem_append.mp h
      exact ih (Expr.eval_madeOf hnc hm hc).1 (List.forall_mem_append.mp hbranches).1
  | elseBranch hc _ _ ih =>
    intro hm h
    obtain ⟨hnc, hbranches⟩ := List.forall_mem_append.mp h
    exact ih (Expr.eval_madeOf hnc hm hc).1 (List.forall_mem_append.mp hbranches).2
  | @nextStmts n env s ss m m₁ o m' hs _ ih =>
    intro hm h
    obtain ⟨hns, hnss⟩ := List.forall_mem_append.mp h
    obtain ⟨hm₁, -⟩ := RunLaw.exec (L := codeLaw node) (RunLaw.ofDepth n) env s hns m .normal m₁
      hm hs
    exact ih hm₁ hnss

end performed

/-! ## Faults that pass through -/

section fails

variable {α β : Type} {m m₁ : Machine} {f : Fault}

/-- The run stops with a fault, on a machine. -/
def Run.FailsAt (x : Run α) (m : Machine) (f : Fault) : Prop := ∃ m', x m = .error f m'

theorem Run.FailsAt.bind {x : Run α} (h : x.FailsAt m f) (g : α → Run β) :
    (x >>= g).FailsAt m f := by
  obtain ⟨m', hx⟩ := h
  refine ⟨m', ?_⟩
  simp only [Bind.bind, EStateM.bind, hx]

theorem Run.FailsAt.after {x : Run α} {a : α} {g : α → Run β} (h : (g a).FailsAt m₁ f)
    (hx : x m = .ok a m₁) : (x >>= g).FailsAt m f := by
  obtain ⟨m', hg⟩ := h
  refine ⟨m', ?_⟩
  simp only [Bind.bind, EStateM.bind, hx]
  exact hg

/-- A fault that has its token passes a call as it is. -/
theorem Run.FailsAt.located {x : Run α} (h : x.FailsAt m f) {t : Token} (hf : f.locate t = f) :
    (Run.located t x).FailsAt m f := by
  obtain ⟨m', hx⟩ := h
  refine ⟨m', ?_⟩
  rw [Run.located, hx]
  exact congrArg (EStateM.Result.error · m') hf

/-- What a call does after it has entered the closure. -/
theorem Closure.run_failsAt_of_entry {g : Closure} {args : List Value} {i : ScopeId}
    {runBody : ScopeId → List (Stmt (Option Nat)) → Run Completion}
    (hi : g.entry args m = .ok i m₁) (h : (runBody i g.body).FailsAt m₁ f) :
    (g.run runBody args).FailsAt m f := by
  obtain ⟨finish, hrun⟩ : ∃ finish : Completion → Run Value,
      g.run runBody args = (g.entry args >>= fun i => runBody i g.body >>= finish) := by
    simp only [Closure.run, Closure.entry, bind_assoc, pure_bind]
    exact ⟨_, rfl⟩
  rw [hrun]
  exact .after (h.bind finish) hi

/-- The task stops with a fault, on a machine. -/
def Task.FailsAt (n : Nat) (env : ScopeId) (m : Machine) (f : Fault) : Task → Prop
  | .expr e => (e.eval .tagged (.ofDepth .tagged n) env).FailsAt m f
  | .exprs es => (Expr.evalAll .tagged (.ofDepth .tagged n) env es).FailsAt m f
  | .stmt s => (s.exec .tagged (.ofDepth .tagged n) env).FailsAt m f
  | .stmts ss => (Stmt.execAll .tagged (.ofDepth .tagged n) env ss).FailsAt m f
  | .call g args paren => (Operation.call n g args paren).FailsAt m f

/-- **A fault that has its token passes everything around the operation as it is.** In particular
no call out of which the operation is reached puts it at another token. -/
theorem Reaches.fails {n : Nat} {env : ScopeId} {T : Task} {o : Operation} {m' : Machine}
    (h : Reaches n env T m o m') (ho : o.FailsAt m' f) (hf : ∀ t, f.locate t = f) :
    T.FailsAt n env m f := by
  induction h with
  | group _ ih =>
    rw [Task.FailsAt, Expr.eval]
    exact ih ho
  | logicalLeft _ ih | unaryOperand _ ih | binaryLeft _ ih | assignValue _ ih | callee _ ih =>
    rw [Task.FailsAt, Expr.eval]
    exact (ih ho).bind _
  | logicalRight hl hs _ ih =>
    rw [Task.FailsAt, Expr.eval]
    refine .after ?_ hl
    rw [hs]
    exact ih ho
  | unary he =>
    rw [Task.FailsAt, Expr.eval]
    exact .after ho he
  | binaryRight hl _ ih =>
    rw [Task.FailsAt, Expr.eval]
    exact .after ((ih ho).bind _) hl
  | binary hl hr =>
    rw [Task.FailsAt, Expr.eval]
    exact .after (.after ho hr) hl
  | reference =>
    rw [Task.FailsAt, Expr.eval]
    exact ho
  | assign he =>
    rw [Task.FailsAt, Expr.eval]
    exact .after ho he
  | arguments hcallee _ ih =>
    rw [Task.FailsAt, Expr.eval]
    exact .after ((ih ho).bind _) hcallee
  | application hcallee hvs _ ih =>
    rw [Task.FailsAt, Expr.eval]
    exact .after (.after (ih ho) hvs) hcallee
  | firstExpr _ ih =>
    rw [Task.FailsAt, Expr.evalAll]
    exact (ih ho).bind _
  | nextExprs he _ ih =>
    rw [Task.FailsAt, Expr.evalAll]
    exact .after ((ih ho).bind _) he
  | call => exact ho
  | @body n env g vs paren m i m₁ o m' hlength hi _ ih =>
    rw [Task.FailsAt, Operation.FailsAt, Operation.perform, Caller.ofDepth, callWith, withArity,
      if_pos hlength]
    exact (Closure.run_failsAt_of_entry hi (ih ho)).located (hf paren)
  | expr _ ih | init _ ih | result _ ih =>
    rw [Task.FailsAt, Stmt.exec]
    exact (ih ho).bind _
  | block hi _ ih =>
    rw [Task.FailsAt, Stmt.exec]
    exact .after (ih ho) hi
  | @condition n env c t e m o m' _ ih =>
    cases e <;> (rw [Task.FailsAt, Stmt.exec]; exact (ih ho).bind _)
  | @thenBranch n env c t e m v m₁ o m' hc hv _ ih =>
    cases e <;> (rw [Task.FailsAt, Stmt.exec]; refine .after ?_ hc; rw [hv]; exact ih ho)
  | elseBranch hc hv _ ih =>
    rw [Task.FailsAt, Stmt.exec]
    refine .after ?_ hc
    rw [hv]
    exact ih ho
  | firstStmt _ ih =>
    rw [Task.FailsAt, Stmt.execAll]
    exact (ih ho).bind _
  | nextStmts hs _ ih =>
    rw [Task.FailsAt, Stmt.execAll]
    refine .after ?_ hs
    exact ih ho

end fails

/-! ## Native functions -/

/-- The fault is no error that has a token. -/
def Fault.IsUnplaced : Fault → Prop
  | .error e => e.token? = none
  | _ => True

namespace Native

theorem kindOf_unplaced (v : Value) : Ends (fun _ => True) Fault.IsUnplaced v.kindOf := by
  rw [Value.kindOf]
  split <;> trivial

theorem display_unplaced (v : Value) : Ends (fun _ => True) Fault.IsUnplaced (display v) := by
  rw [display]
  split <;> trivial

theorem toNumeral_unplaced (b : Base) (v : Value) :
    Ends (fun _ => True) Fault.IsUnplaced (toNumeral b v) := by
  unfold toNumeral
  split
  · trivial
  · refine ends_bind (kindOf_unplaced v) fun _ _ _ => ?_
    split
    · split
      · split
        · exact rfl
        · exact trivial
      · exact trivial
    · exact rfl

theorem toDecimal_unplaced (v : Value) :
    Ends (fun _ => True) Fault.IsUnplaced (toDecimal v) := by
  refine ends_bind (kindOf_unplaced v) fun _ _ _ => ?_
  split
  · trivial
  · trivial
  · split
    · trivial
    · dsimp only
      split
      · trivial
      · exact ends_bind (display_unplaced v) fun _ _ _ => rfl

/-- **Native functions raise errors without a token.** -/
theorem run_unplaced {g : Native} {args : List Value} {m m' : Machine} {f : Fault}
    (h : g.run args m = .error f m') : f.IsUnplaced := by
  have hlift : ∀ {x : Except Fault Value}, Ends (fun _ => True) Fault.IsUnplaced x →
      Run.lift x m = .error f m' → f.IsUnplaced := by
    intro x hx hr
    cases x with
    | ok v => cases hr
    | error f' =>
      cases hr
      exact hx
  have hdisplay := display_unplaced (args.headD .null)
  cases g with
  | clock =>
    simp only [run, Run.readClock, bind, EStateM.bind] at h
    split at h
    · cases h
    · next hr =>
      split at hr
      · cases hr
        cases h
        trivial
      · cases hr
  | read =>
    simp only [run, Run.readLine, bind, EStateM.bind] at h
    split at h
    · cases h
    · next hr =>
      split at hr
      · cases hr
      · split at hr
        · cases hr
          cases h
          trivial
        · cases hr
  | print | str =>
    simp only [run, bind, EStateM.bind] at h
    cases hd : display (args.headD .null) with
    | ok s =>
      rw [hd] at h
      cases h
    | error f' =>
      rw [hd] at h hdisplay
      cases h
      exact hdisplay
  | binary => exact hlift (toNumeral_unplaced .binary _) h
  | hexadecimal => exact hlift (toNumeral_unplaced .hexadecimal _) h
  | decimal => exact hlift (toDecimal_unplaced _) h

end Native

/-- A native function that is called with the right number of arguments, and an error that its body
raises. -/
theorem Native.run_failsAt_of_call {n s : Nat} {g : Native} {vs : List Value} {paren : Token}
    {m : Machine} {c : Cause}
    (h : (Operation.call n (.native g s) vs paren).FailsAt m (.causeAt paren c))
    (hc : c.family ≠ .arity) :
    vs.length = g.arity ∧ (g.run vs).FailsAt m (.cause c) := by
  obtain ⟨m', h⟩ := h
  have hcall : Caller.ofDepth .tagged n (.native g s) vs paren =
      withArity g.arity vs paren (g.run vs) := by cases n <;> rfl
  rw [Operation.perform, hcall, withArity] at h
  split at h
  · next hlength =>
    refine ⟨hlength, m', ?_⟩
    rw [Run.located] at h
    cases hr : g.run vs m with
    | ok v m₁ =>
      rw [hr] at h
      cases h
    | error f m₁ =>
      rw [hr] at h
      have hunplaced := Native.run_unplaced hr
      -- the token comes from the call
      cases f with
      | error e =>
        obtain ⟨cause, token⟩ := e
        cases hunplaced
        cases h
        rfl
      | _ => cases h
  · cases h
    exact absurd rfl hc

/-! ## Expressions that answer for errors -/

/-- The expression answers for an error: what it performs on the machine raises an error for the
cause, and the error is put at the token.

* A name that is not defined: the name.
* Operands that do not fit the operator: the operator.
* A call of what is no function, or with a wrong number of arguments: the parenthesis that closes
  the call.
* An error without a token that the body of a native function raises: the parenthesis that closes
  the call of this native function. -/
inductive Expr.AnswersFor : Expr (Option Nat) → Operation → Machine → Cause → Token → Prop
  | reference {name env m} :
    AnswersFor (.reference name none) (.read env name none) m (.undefined name.text) name
  | assign {name e env v m} :
    AnswersFor (.assign name none e) (.assign env name none v) m (.undefined name.text) name
  | unary {op e v m c} (hc : c.family = .type) : AnswersFor (.unary op e) (.unary op v) m c op
  | binary {l op r a b m c} (hc : c.family = .type) :
    AnswersFor (.binary l op r) (.binary op a b) m c op
  | notCallable {callee paren args n f vs m} (hf : f.arity? = none) :
    AnswersFor (.call callee paren args) (.call n f vs paren) m .notCallable paren
  | arity {callee paren args n f vs m k} (hf : f.arity? = some k) (hk : vs.length ≠ k) :
    AnswersFor (.call callee paren args) (.call n f vs paren) m (.arity k vs.length) paren
  | native {callee paren args n g s vs m c} (hc : c.family = .type ∨ c.family = .radix)
    (hlength : vs.length = g.arity) (h : (g.run vs).FailsAt m (.cause c)) :
    AnswersFor (.call callee paren args) (.call n (.native g s) vs paren) m c paren

theorem Expr.AnswersFor.token?_eq {x : Expr (Option Nat)} {o : Operation} {m : Machine} {c : Cause}
    {t : Token} (h : x.AnswersFor o m c t) : x.token? = some t := by
  cases h <;> rfl

/-- The expression that performs an operation answers for the errors of the operation. -/
theorem Expr.Performs.answersFor {x : Expr (Option Nat)} {n : Nat} {env : ScopeId} {m₁ m : Machine}
    {o : Operation} {e : RuntimeError} (h : x.Performs n env m₁ o m) (ho : o.Accounts (.error e))
    (hfails : o.FailsAt m (.error e)) : ∃ t, e.token? = some t ∧ x.AnswersFor o m e.cause t := by
  generalize hf : Fault.error e = f at ho hfails
  cases ho with
  | operand hc =>
    cases hf
    cases h
    exact ⟨_, rfl, .unary hc⟩
  | operands hc =>
    cases hf
    cases h
    exact ⟨_, rfl, .binary hc⟩
  | undefinedRead =>
    cases hf
    cases h
    exact ⟨_, rfl, .reference⟩
  | undefinedAssign =>
    cases hf
    cases h
    exact ⟨_, rfl, .assign⟩
  | notCallable hv =>
    cases hf
    cases h
    exact ⟨_, rfl, .notCallable hv⟩
  | arity hv hk =>
    cases hf
    cases h
    exact ⟨_, rfl, .arity hv hk⟩
  | native hc =>
    cases hf
    cases h
    obtain ⟨hlength, hrun⟩ := Native.run_failsAt_of_call hfails (by rw [hc]; decide)
    exact ⟨_, rfl, .native (.inl hc) hlength hrun⟩
  | negative hn hk =>
    cases hf
    cases h
    have hfamily : ErrorFamily.radix ≠ .arity := by decide
    obtain ⟨hlength, hrun⟩ := Native.run_failsAt_of_call hfails hfamily
    exact ⟨_, rfl, .native (.inr rfl) hlength hrun⟩
  | overflow | overlong | overlongNegative | tooDeep => cases hf

/-- **Errors are put at the innermost site.** When a text stops with an error in a new session, the
error is at a token, and this is one of those that the text is scanned as. There is an expression of
the text that answers for the error: the run has come to the operation of this expression, which
stops with this very error. Every call out of which the operation is reached stops with the same
error, at the same token. -/
theorem run_error_site {depth : Nat} {source stdin : String} {clock : Nat → Float}
    {e : RuntimeError} {m : Machine}
    (h : Session.run depth source (.initial (.ofInput stdin clock)) =
      .error (.fault (.error e)) m) :
    ∃ p ts eof t, compileSource source = .ok p ∧ scan source = some ⟨ts, eof, []⟩ ∧
      e.token? = some t ∧ t ∈ ts ∧
      ∃ o m', Reaches depth globalScope (.stmts p) (.initial (.ofInput stdin clock)) o m' ∧
        o.FailsAt m' (.error e) ∧
        (∃ x ∈ Stmt.allNodes p, (∃ n env m₁, x.Performs n env m₁ o m') ∧
          x.AnswersFor o m' e.cause t) ∧
        ∀ n env f vs paren m₁, Reaches n env (.call f vs paren) m₁ o m' →
          (Operation.call n f vs paren).FailsAt m₁ (.error e) := by
  cases hp : compileSource source with
  | error r =>
    rw [Session.run, Session.runWith_of_rejected hp] at h
    cases h
  | ok p =>
    obtain ⟨o, m', hreach, hfails, haccounts⟩ := exists_operation_of_run hp rfl rfl h
    obtain ⟨x, n, env, m₁, hx, hperforms⟩ : o.IsOf (· ∈ Stmt.allNodes p) m' :=
      hreach.performs (Machine.initial_madeOf _) fun _ hx => hx
    obtain ⟨t, ht, hanswers⟩ := hperforms.answersFor haccounts hfails
    obtain ⟨q, hq, -⟩ := compileSource_eq_ok_iff_readFrom.mp hp
    obtain ⟨eof, hscan⟩ := scan_eq_some_iff.mpr ⟨hq.clean, rfl⟩
    have hmem : t ∈ tokensOf source :=
      (allTokens_sublist_of_compileSource hp).subset
        (Stmt.token_mem_allTokens p hx hanswers.token?_eq)
    refine ⟨p, tokensOf source, eof, t, rfl, hscan, ht, hmem, o, m', hreach, hfails, ?_, ?_⟩
    · exact ⟨x, hx, ⟨n, env, m₁, hperforms⟩, hanswers⟩
    · intro n env f vs paren m₁ hcall
      exact hcall.fails hfails haccounts.locate_eq

/-! ### Samples

In the text `do f(g){g(true);}f(binary);` the native function `binary` is passed to a function,
which calls it. It does not take a truth value; the error is put at the parenthesis of `g(true)`.
-/

namespace Passed

open Captured (tok)

def source : String := "do f(g)\x7bg(true);\x7df(binary);"

/-- The parenthesis that closes `g(true)`. -/
def paren : Token := tok .rightParen ")" 14

def program : Program Unit :=
  [.functionDecl (tok .identifier "f" 3) [tok .identifier "g" 5]
      [.expr (.call (.reference (tok .identifier "g" 8) ()) paren [.literal (.bool true)])],
    .expr (.call (.reference (tok .identifier "f" 17) ()) (tok .rightParen ")" 25)
      [.reference (tok .identifier "binary" 19) ()])]

theorem compileSource_source : compileSource source = .ok program.resolve := by
  have hscan : scan source = some ⟨[tok .doWord "do" 0, tok .identifier "f" 3,
      tok .leftParen "(" 4, tok .identifier "g" 5, tok .rightParen ")" 6, tok .leftBrace "\x7b" 7,
      tok .identifier "g" 8, tok .leftParen "(" 9, tok .trueWord "true" 10, paren,
      tok .semicolon ";" 15, tok .rightBrace "\x7d" 16, tok .identifier "f" 17,
      tok .leftParen "(" 18, tok .identifier "binary" 19, tok .rightParen ")" 25,
      tok .semicolon ";" 26], .atEnd 1 27, []⟩ := by cbv
  obtain ⟨hclean, htokens⟩ := scan_eq_some_iff.mp ⟨_, hscan⟩
  refine compileSource_eq_ok_iff_readFrom.mpr ⟨program, ⟨hclean, ?_, ?_, rfl⟩, rfl⟩
  · simp [Program.Grammatical, program, Stmt.AllGrammatical, Stmt.Grammatical, Expr.Grammatical,
      Expr.AllGrammatical, Expr.strength, tok, paren, listLimit]
  · rw [← htokens]
    simp [Program.WrittenAs, program, Stmt.allSymbols, Stmt.symbols, Expr.symbols,
      Expr.symbolLists, Symbol.commas, paramSymbols, Symbol.Shows, Token.value?, tok, paren]

/-- The error that statements stop with, if they do. -/
def error? : EStateM.Result Fault Machine Completion → Option RuntimeError
  | .error (.error e) _ => some e
  | _ => none

end Passed

set_option maxRecDepth 10000 in
theorem passed_run_error_site :
    ∃ m ts eof, Session.run 1 Passed.source (.initial (.ofInput "" fun _ => 0)) =
        .error (.fault (.error ⟨.notConvertible, some Passed.paren⟩)) m ∧
      scan Passed.source = some ⟨ts, eof, []⟩ ∧ Passed.paren ∈ ts := by
  have herror : Passed.error? (Stmt.execAll .tagged (.ofDepth .tagged 1) globalScope
      Passed.program.resolve (.initial (.ofInput "" fun _ => 0))) =
      some ⟨.notConvertible, some Passed.paren⟩ := by with_unfolding_all rfl
  cases hrun : Stmt.execAll .tagged (.ofDepth .tagged 1) globalScope Passed.program.resolve
      (.initial (.ofInput "" fun _ => 0)) with
  | ok c m =>
    rw [hrun] at herror
    cases herror
  | error f m =>
    rw [hrun] at herror
    cases f with
    | error e =>
      cases herror
      have h : Session.run 1 Passed.source (.initial (.ofInput "" fun _ => 0)) =
          .error (.fault (.error ⟨.notConvertible, some Passed.paren⟩)) m := by
        rw [Session.run, Session.runWith_of_compiled Passed.compileSource_source, hrun]
        rfl
      obtain ⟨p, ts, eof, t, -, hscan, ht, hmem, -⟩ := run_error_site h
      cases ht
      exact ⟨m, ts, eof, h, hscan, hmem⟩
    | _ => cases herror

end RadixScript
