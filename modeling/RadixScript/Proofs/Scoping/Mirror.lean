import RadixScript.Proofs.Scoping.Watch

/-!
# Watched runs and runs

A watched run finds names by their tags. A run that finds names in another way goes the same way as
long as it gets the same answer at every use of a name, and the watched run has recorded all of
them: if the other way agrees with the tags at every visit of the record, then the run ends as the
watched run does, with the same result and the same machine (`outcomes_eq_of_agrees`). The tags
agree with themselves, so a watched run is the run itself.
-/

namespace RadixScript

variable {α β : Type} {names : Names}

/-- The state after a watched run, however it ended. -/
def watchedAfter {ε : Type} : EStateM.Result ε Watched α → Watched
  | .ok _ w => w
  | .error _ w => w

/-- What a watched run did to the machine. -/
def unwatched {ε : Type} : EStateM.Result ε Watched α → EStateM.Result ε Machine α
  | .ok a w => .ok a w.machine
  | .error f w => .error f w.machine

/-- The given way to find names has the result that the tag has. -/
def Visit.Agrees (names : Names) (v : Visit) : Prop :=
  match v.assigned? with
  | none => names.lookUp v.env v.name v.tag v.machine = lookUp v.env v.name v.tag v.machine
  | some a => names.assign v.env v.name a v.tag v.machine = assignName v.env v.name a v.tag v.machine

/-- The run does what the watched run does, if names are found alike at every visit. -/
structure Watch.Mirrors (names : Names) (x : Watch α) (y : Run α) : Prop where
  visits : ∀ w, w.visits ⊆ (watchedAfter (x w)).visits
  follows : ∀ w, (∀ v ∈ (watchedAfter (x w)).visits, v.Agrees names) →
    y w.machine = unwatched (x w)

/-- Every call does what the watched call does. -/
def Watcher.Mirrors (names : Names) (watcher : Watcher) (call : Caller) : Prop :=
  ∀ f args paren, (watcher f args paren).Mirrors names (call f args paren)

/-! ## Building blocks -/

namespace Watch

theorem mirrors_pure (a : α) : (pure a : Watch α).Mirrors names (pure a) where
  visits := fun _ => List.Subset.refl _
  follows := fun _ _ => rfl

theorem mirrors_throw (f : Fault) : (throw f : Watch α).Mirrors names (throw f) where
  visits := fun _ => List.Subset.refl _
  follows := fun _ _ => rfl

theorem mirrors_bind {x : Watch α} {y : Run α} {f : α → Watch β} {g : α → Run β}
    (h : x.Mirrors names y) (hf : ∀ a, (f a).Mirrors names (g a)) :
    (x >>= f).Mirrors names (y >>= g) := by
  constructor
  · intro w
    have hx := h.visits w
    simp only [bind, EStateM.bind]
    cases hr : x w with
    | ok a w' =>
      rw [hr] at hx
      exact fun v hv => (hf a).visits w' (hx hv)
    | error e w' =>
      rw [hr] at hx
      exact hx
  · intro w ha
    have hx := h.follows w
    simp only [bind, EStateM.bind] at ha ⊢
    cases hr : x w with
    | ok a w' =>
      rw [hr] at hx ha
      -- what the first part has visited is still in the record at the end
      rw [hx fun v hv => ha v ((hf a).visits w' hv)]
      exact (hf a).follows w' ha
    | error e w' =>
      rw [hr] at hx ha
      rw [hx ha]
      rfl

theorem mirrors_plain (x : Run α) : (plain x).Mirrors names x := by
  constructor
  · intro w
    rw [plain]
    cases x w.machine <;> exact List.Subset.refl _
  · intro w _
    rw [plain]
    cases x w.machine <;> rfl

theorem mirrors_located {x : Watch α} {y : Run α} (t : Token) (h : x.Mirrors names y) :
    (located t x).Mirrors names (Run.located t y) := by
  constructor
  · intro w
    have hx := h.visits w
    rw [located]
    cases hr : x w with
    | ok a w' =>
      rw [hr] at hx
      exact hx
    | error e w' =>
      rw [hr] at hx
      exact hx
  · intro w ha
    have hx := h.follows w
    rw [located] at ha ⊢
    rw [Run.located]
    cases hr : x w with
    | ok a w' =>
      rw [hr] at hx ha
      rw [hx ha]
      rfl
    | error e w' =>
      rw [hr] at hx ha
      rw [hx ha]
      rfl

theorem mirrors_enter (parent : ScopeId) (plan : List String) :
    (enter parent plan).Mirrors names (Run.enter parent) where
  visits := fun _ => List.Subset.refl _
  follows := fun _ _ => rfl

theorem mirrors_nextSerial (frames : Frames) :
    (nextSerial frames).Mirrors names Run.nextSerial where
  visits := fun _ => List.Subset.refl _
  follows := fun _ _ => rfl

/-- Looking at the record is no step of the run. -/
theorem mirrors_origin {f : Closure} {g : Frames → Watch β} {y : Run β}
    (h : ∀ frames, (g frames).Mirrors names y) : (origin f >>= g).Mirrors names y where
  visits := fun w => (h (w.origins f.serial)).visits w
  follows := fun w => (h (w.origins f.serial)).follows w

/-- A visit, and then what is done at it. -/
theorem mirrors_visit {frames : Frames} {name : Token} {tag : Option Nat} {assigned? : Option Value}
    {x y : Run β}
    (h : ∀ m, (Visit.mk frames name tag assigned? m).Agrees names → y m = x m) :
    (visit frames name tag assigned? >>= fun _ => plain x).Mirrors names y := by
  constructor
  · intro w v hv
    have hp : (plain x).Mirrors names x := mirrors_plain x
    exact hp.visits { w with visits := ⟨frames, name, tag, assigned?, w.machine⟩ :: w.visits }
      (List.mem_cons_of_mem _ hv)
  · intro w ha
    have hp : (plain x).Mirrors names x := mirrors_plain x
    let w' := { w with visits := ⟨frames, name, tag, assigned?, w.machine⟩ :: w.visits }
    have hv : (Visit.mk frames name tag assigned? w.machine).Agrees names :=
      ha _ (hp.visits w' (List.mem_cons_self ..))
    rw [h w.machine hv]
    exact hp.follows w' ha

theorem mirrors_lookUp (frames : Frames) (name : Token) (tag : Option Nat) :
    (lookUp frames name tag).Mirrors names (names.lookUp frames.env name tag) :=
  mirrors_visit fun _ h => h

theorem mirrors_assign (frames : Frames) (name : Token) (v : Value) (tag : Option Nat) :
    (assign frames name v tag).Mirrors names (names.assign frames.env name v tag) :=
  mirrors_visit fun _ h => h

end Watch

open Watch

/-! ## Expressions and statements -/

section trees

variable {watcher : Watcher} {call : Caller}

mutual

theorem Expr.watch_mirrors (hc : watcher.Mirrors names call) (frames : Frames) :
    (e : Expr (Option Nat)) → (e.watch watcher frames).Mirrors names (e.eval names call frames.env)
  | .literal v => by
    rw [Expr.watch, Expr.eval]
    exact mirrors_pure _
  | .group e => by
    rw [Expr.watch, Expr.eval]
    exact e.watch_mirrors hc frames
  | .logical l op r => by
    rw [Expr.watch, Expr.eval]
    refine mirrors_bind (l.watch_mirrors hc frames) fun left => ?_
    by_cases hs : Operator.settles op left = true
    · rw [if_pos hs, if_pos hs]
      exact mirrors_pure _
    · rw [if_neg hs, if_neg hs]
      exact r.watch_mirrors hc frames
  | .unary op e => by
    rw [Expr.watch, Expr.eval]
    exact mirrors_bind (e.watch_mirrors hc frames) fun _ => mirrors_plain _
  | .binary l op r => by
    rw [Expr.watch, Expr.eval]
    exact mirrors_bind (l.watch_mirrors hc frames) fun _ =>
      mirrors_bind (r.watch_mirrors hc frames) fun _ => mirrors_plain _
  | .reference name tag => by
    rw [Expr.watch, Expr.eval]
    exact mirrors_lookUp frames name tag
  | .assign name tag e => by
    rw [Expr.watch, Expr.eval]
    exact mirrors_bind (e.watch_mirrors hc frames) fun v =>
      mirrors_bind (mirrors_assign frames name v tag) fun _ => mirrors_pure v
  | .call callee paren args => by
    rw [Expr.watch, Expr.eval]
    exact mirrors_bind (callee.watch_mirrors hc frames) fun f =>
      mirrors_bind (Expr.watchAll_mirrors hc frames args) fun vs => hc f vs paren

theorem Expr.watchAll_mirrors (hc : watcher.Mirrors names call) (frames : Frames) :
    (es : List (Expr (Option Nat))) →
      (Expr.watchAll watcher frames es).Mirrors names (Expr.evalAll names call frames.env es)
  | [] => by
    rw [Expr.watchAll, Expr.evalAll]
    exact mirrors_pure _
  | e :: es => by
    rw [Expr.watchAll, Expr.evalAll]
    exact mirrors_bind (e.watch_mirrors hc frames) fun _ =>
      mirrors_bind (Expr.watchAll_mirrors hc frames es) fun _ => mirrors_pure _

end

theorem watchOption_mirrors (hc : watcher.Mirrors names call) (frames : Frames)
    (e : Option (Expr (Option Nat))) :
    (watchOption watcher frames e).Mirrors names (evalOption names call frames.env e) := by
  cases e with
  | none => exact mirrors_pure _
  | some e => exact e.watch_mirrors hc frames

@[simp] theorem Frames.env_before (frames : Frames) (later : List String) :
    (frames.before later).env = frames.env := by
  cases frames <;> rfl

@[simp] theorem Frames.env_declare (frames : Frames) (name : String) :
    (frames.declare name).env = frames.env := by
  cases frames <;> rfl

@[simp] theorem Frames.env_declareAll (frames : Frames) (xs : List String) :
    (frames.declareAll xs).env = frames.env := by
  induction xs generalizing frames with
  | nil => rfl
  | cons x xs ih => exact (ih (frames.declare x)).trans (frames.env_declare x)

mutual

theorem Stmt.watch_mirrors (hc : watcher.Mirrors names call) (frames : Frames) :
    (s : Stmt (Option Nat)) → (s.watch watcher frames).Mirrors names (s.exec names call frames.env)
  | .expr e => by
    rw [Stmt.watch, Stmt.exec]
    exact mirrors_bind (e.watch_mirrors hc frames) fun _ => mirrors_pure _
  | .letDecl name init type => by
    rw [Stmt.watch, Stmt.exec]
    exact mirrors_bind (watchOption_mirrors hc frames init) fun v =>
      mirrors_bind (mirrors_plain _) fun _ => mirrors_pure _
  | .block body => by
    rw [Stmt.watch, Stmt.exec]
    exact mirrors_bind (mirrors_enter _ _) fun inner =>
      Stmt.watchAll_mirrors hc (frames.enter inner []) body
  | .branch c t none => by
    rw [Stmt.watch, Stmt.exec]
    refine mirrors_bind (c.watch_mirrors hc frames) fun v => ?_
    by_cases hv : v.isTruthy = true
    · rw [if_pos hv, if_pos hv]
      exact t.watch_mirrors hc frames
    · rw [if_neg hv, if_neg hv]
      exact mirrors_pure _
  | .branch c t (some e) => by
    rw [Stmt.watch, Stmt.exec]
    refine mirrors_bind (c.watch_mirrors hc frames) fun v => ?_
    by_cases hv : v.isTruthy = true
    · rw [if_pos hv, if_pos hv]
      exact t.watch_mirrors hc frames
    · rw [if_neg hv, if_neg hv]
      exact e.watch_mirrors hc frames
  | .functionDecl name params body => by
    rw [Stmt.watch, Stmt.exec]
    exact mirrors_bind (mirrors_nextSerial _) fun serial =>
      mirrors_bind (mirrors_plain _) fun _ => mirrors_pure _
  | .returnStmt keyword value => by
    rw [Stmt.watch, Stmt.exec]
    exact mirrors_bind (watchOption_mirrors hc frames value) fun _ => mirrors_pure _
  | .namespaceDecl name body => by
    rw [Stmt.watch, Stmt.exec]
    exact mirrors_pure _

theorem Stmt.watchAll_mirrors (hc : watcher.Mirrors names call) (frames : Frames) :
    (ss : List (Stmt (Option Nat))) →
      (Stmt.watchAll watcher frames ss).Mirrors names (Stmt.execAll names call frames.env ss)
  | [] => by
    rw [Stmt.watchAll, Stmt.execAll]
    exact mirrors_pure _
  | s :: ss => by
    rw [Stmt.watchAll, Stmt.execAll]
    have hs := s.watch_mirrors hc (frames.before (Stmt.allDeclaredNames ss))
    rw [Frames.env_before] at hs
    refine mirrors_bind hs fun c => ?_
    cases c with
    | normal =>
      have hss := Stmt.watchAll_mirrors hc (frames.declareAll s.declaredNames) ss
      rw [Frames.env_declareAll] at hss
      exact hss
    | returned v => exact mirrors_pure _

end

end trees

/-! ## Calls -/

theorem watchArity_mirrors {arity : Nat} {args : List Value} {paren : Token} {x : Watch Value}
    {y : Run Value} (h : x.Mirrors names y) :
    (watchArity arity args paren x).Mirrors names (withArity arity args paren y) := by
  rw [watchArity, withArity]
  by_cases ha : args.length = arity
  · rw [if_pos ha, if_pos ha]
    exact mirrors_located paren h
  · rw [if_neg ha, if_neg ha]
    exact mirrors_throw _

theorem watchWith_mirrors {runBody : Frames → List (Stmt (Option Nat)) → Watch Completion}
    {runBody' : ScopeId → List (Stmt (Option Nat)) → Run Completion}
    (h : ∀ frames body, (runBody frames body).Mirrors names (runBody' frames.env body)) :
    (watchWith runBody).Mirrors names (callWith runBody') := by
  intro f args paren
  cases f
  case native f _ => exact watchArity_mirrors (mirrors_plain _)
  case closure f =>
    refine watchArity_mirrors (mirrors_bind (mirrors_enter _ _) fun env =>
      mirrors_bind (mirrors_plain _) fun _ => mirrors_origin fun outer => ?_)
    refine mirrors_bind (h (outer.enter env _) f.body) fun c => ?_
    cases c <;> exact mirrors_pure _
  all_goals exact mirrors_throw _

theorem Watcher.ofDepth_mirrors (depth : Nat) :
    (Watcher.ofDepth depth).Mirrors names (Caller.ofDepth names depth) := by
  induction depth with
  | zero => exact watchWith_mirrors fun _ _ => mirrors_throw _
  | succ depth ih =>
    exact watchWith_mirrors fun frames body => Stmt.watchAll_mirrors ih frames body

/-! ## Sessions -/

theorem Watched.visits_subset_run (depth : Nat) (source : String) (w : Watched) :
    w.visits ⊆ (watchedAfter (Watched.run depth source w)).visits := by
  rw [Watched.run]
  cases compileSource source with
  | error r => exact List.Subset.refl _
  | ok p =>
    have hc : (Watcher.ofDepth depth).Mirrors .tagged (Caller.ofDepth .tagged depth) :=
      Watcher.ofDepth_mirrors depth
    have h := (Stmt.watchAll_mirrors hc [] p).visits w
    dsimp only
    cases hr : Stmt.watchAll (Watcher.ofDepth depth) [] p w with
    | ok c w' =>
      rw [hr] at h
      exact h
    | error f w' =>
      rw [hr] at h
      exact h

/-- A text has the outcome that it has when it is watched. -/
theorem Session.runWith_eq_of_agrees {depth : Nat} {source : String} {w : Watched}
    (ha : ∀ v ∈ (watchedAfter (Watched.run depth source w)).visits, v.Agrees names) :
    Session.runWith names depth source w.machine = unwatched (Watched.run depth source w) := by
  rw [Watched.run] at ha ⊢
  simp only [Session.runWith, Session.compile, bind, EStateM.bind]
  cases hp : compileSource source with
  | error r => rfl
  | ok p =>
    rw [hp] at ha
    simp only [Session.accept, pure, EStateM.pure, Session.ofRun, Program.interpret]
    have hc : (Watcher.ofDepth depth).Mirrors names (Caller.ofDepth names depth) :=
      Watcher.ofDepth_mirrors depth
    have h := (Stmt.watchAll_mirrors hc [] p).follows w
    dsimp only at ha ⊢
    cases hr : Stmt.watchAll (Watcher.ofDepth depth) [] p w with
    | ok c w' =>
      rw [hr] at h ha
      rw [show globalScope = Frames.env [] from rfl, h ha]
      rfl
    | error f w' =>
      rw [hr] at h ha
      rw [show globalScope = Frames.env [] from rfl, h ha]
      cases f <;> rfl

theorem Watched.visits_subset_outcomes (steps : List (Nat × String)) (w : Watched) :
    w.visits ⊆ (outcomes Watched.run steps w).2.visits := by
  induction steps generalizing w with
  | nil => exact List.Subset.refl _
  | cons step rest ih =>
    obtain ⟨depth, source⟩ := step
    have h := Watched.visits_subset_run depth source w
    rw [outcomes]
    cases hr : Watched.run depth source w with
    | ok a w' =>
      rw [hr] at h
      exact fun v hv => ih w' (h hv)
    | error f w' =>
      rw [hr] at h
      exact fun v hv => ih w' (h hv)

/-- **A session that agrees with the tags at every visit ends as the watched session**: the
outcomes of all steps and the machine are the same. -/
theorem outcomes_eq_of_agrees (steps : List (Nat × String)) (w : Watched)
    (ha : ∀ v ∈ (outcomes Watched.run steps w).2.visits, v.Agrees names) :
    outcomes (Session.runWith names) steps w.machine =
      ((outcomes Watched.run steps w).1, (outcomes Watched.run steps w).2.machine) := by
  induction steps generalizing w with
  | nil => rfl
  | cons step rest ih =>
    obtain ⟨depth, source⟩ := step
    rw [outcomes] at ha ⊢
    rw [outcomes]
    -- the first step: all that it has visited is in the record of the whole session
    have h : (∀ v ∈ (watchedAfter (Watched.run depth source w)).visits, v.Agrees names) →
        Session.runWith names depth source w.machine = unwatched (Watched.run depth source w) :=
      Session.runWith_eq_of_agrees
    cases hr : Watched.run depth source w with
    | ok a w' =>
      rw [hr] at h ha
      rw [h fun v hv => ha v (Watched.visits_subset_outcomes rest w' hv)]
      simp only [unwatched]
      rw [ih w' ha]
    | error f w' =>
      rw [hr] at h ha
      rw [h fun v hv => ha v (Watched.visits_subset_outcomes rest w' hv)]
      simp only [unwatched]
      rw [ih w' ha]

theorem Visit.agrees_tagged (v : Visit) : v.Agrees .tagged := by
  rw [Visit.Agrees]
  split <;> rfl

/-- Watching changes nothing. -/
theorem outcomes_run_eq (steps : List (Nat × String)) (w : Watched) :
    outcomes Session.run steps w.machine =
      ((outcomes Watched.run steps w).1, (outcomes Watched.run steps w).2.machine) :=
  outcomes_eq_of_agrees steps w fun v _ => v.agrees_tagged

end RadixScript
