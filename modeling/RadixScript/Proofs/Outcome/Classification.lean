import RadixScript.Proofs.Outcome.Origin
import RadixScript.Proofs.Pieces.Shapes

/-!
# How a text can end

A text that is run in a new session is rejected, comes to its end or stops with a fault. When it
stops, it has come to an operation that stops with this fault, and the fault is one of those that
the operation accounts for (`run_outcome`). Everything else that a fault could be is thereby ruled
out: unknown operators, foreign values, chains of scopes that are too short, names with a tag that
are undefined.
-/

namespace RadixScript

/-! ## Literals that are too long -/

theorem exists_overlong_of_collect {fs : List Finding} (h : collect fs = none) :
    .overlong ∈ fs := by
  fun_induction collect fs with
  | case1 => cases h
  | case2 t fs ih => exact List.mem_cons_of_mem _ (ih (Option.map_eq_none_iff.mp h))
  | case3 d fs ih => exact List.mem_cons_of_mem _ (ih (Option.map_eq_none_iff.mp h))
  | case4 fs => exact List.mem_cons_self ..

theorem exists_overlong_of_locate {line offset : Nat} {ps : List Piece}
    (h : .overlong ∈ (locate line offset ps).1) : ∃ text, .overlong text ∈ ps := by
  fun_induction locate line offset ps with
  | case1 => cases h
  | case2 line offset p ps findings eof hlocate ih =>
    rw [hlocate] at ih
    rcases List.mem_append.mp h with h | h
    · cases p with
      | overlong text => exact ⟨text, List.mem_cons_self ..⟩
      | _ => simp [Piece.finding?] at h
    · obtain ⟨text, htext⟩ := ih h
      exact ⟨text, List.mem_cons_of_mem _ htext⟩

/-- A text is rejected as too long only if it has an integer literal that is. -/
theorem exists_overlong_of_compileSource {source : String}
    (h : compileSource source = .error .overlong) :
    ∃ text, .overlong text ∈ pieces source.toList ∧ Piece.IsOverlong text := by
  have hscan : scan source = none := by
    cases hs : scan source with
    | none => rfl
    | some s =>
      -- from here on there are only diagnostics
      simp only [compileSource, parseSource, hs, Except.bind] at h
      split at h
      · next r hr =>
        split at hr
        · cases hr
        · cases hr
          cases h
      · simp only [Program.compile] at h
        split at h <;> cases h
  have hcollect := exists_overlong_of_collect (Option.map_eq_none_iff.mp hscan)
  obtain ⟨text, htext⟩ := exists_overlong_of_locate hcollect
  exact ⟨text, htext, isOverlong_of_mem_pieces htext⟩

/-! ## Faults of a new session -/

theorem Machine.initial_proper {console : Console} (hinput : console.moreLines = false)
    (hclock : console.known? = none) : (Machine.initial console).Proper := by
  have hnatives : ∀ (fs : List Native) (s : Scopes) (i : ScopeId),
      (⟨s, 0, console⟩ : Machine).Proper →
      (⟨fs.foldl (fun s f => s.set i f.name (.native f ownSession)) s, 0, console⟩ :
        Machine).Proper := by
    intro fs
    induction fs with
    | nil => exact fun _ _ h => h
    | cons f fs ih => exact fun s i h => ih _ i (h.set i f.name trivial)
  have hempty : (⟨Scopes.empty, 0, console⟩ : Machine).Proper := by
    refine ⟨?_, hinput, hclock⟩
    intro i x v hv
    simp [Scopes.own?, Scopes.scope?, Scopes.empty] at hv
  unfold Machine.initial Scopes.initial
  dsimp only
  exact hnatives Native.all _ _ (hempty.create none)

/-- The faults that stop a run: an error at a token, which is not about an unknown operator, or a
limit of the machine. -/
def Fault.IsForeseen : Fault → Prop
  | .error e => e.cause.family ≠ .operator ∧ e.token? ≠ none
  | .overflow | .overlong | .tooDeep => True
  | _ => False

theorem Operation.Accounts.isForeseen {o : Operation} {f : Fault} (h : o.Accounts f) :
    f.IsForeseen := by
  cases h with
  | operand h | operands h | native h =>
    refine ⟨?_, Option.some_ne_none _⟩
    rw [h]
    decide
  | undefinedRead | undefinedAssign | notCallable | arity | negative =>
    exact ⟨nofun, Option.some_ne_none _⟩
  | _ => trivial

/-- A fault of a text is the fault of an operation that the run has come to. -/
theorem exists_operation_of_run {depth : Nat} {source : String} {console : Console}
    {p : Program (Option Nat)} {f : Fault} {m : Machine} (hp : compileSource source = .ok p)
    (hinput : console.moreLines = false) (hclock : console.known? = none)
    (h : Session.run depth source (.initial console) = .error (.fault f) m) :
    ∃ o m', Reaches depth globalScope (.stmts p) (.initial console) o m' ∧ o.FailsAt m' f ∧
      o.Accounts f := by
  let w : Watched := .initial console
  have hs : SourceSheltered False source := False.elim
  have hsound : (watchedAfter (Watched.run depth source w)).Sound False :=
    (Watched.run_sound (Watched.initial_sound console) hs).1
  have hrun : Session.run depth source w.machine = unwatched (Watched.run depth source w) :=
    Session.runWith_eq_of_agrees fun v _ => v.agrees_tagged
  have hexplained : Explained (Reaches depth globalScope (.stmts p) w.machine) Completion.Proper
      (Stmt.watchAll (Watcher.ofDepth depth) [] p w) :=
    Stmt.watchAll_explained (explains_all depth) p [] (grammatical_of_compileSource hp)
      (Machine.initial_proper hinput hclock)
  rw [Watched.run, hp] at hrun hsound
  dsimp only at hrun hsound
  rw [show Machine.initial console = w.machine from rfl, hrun] at h
  cases hw : Stmt.watchAll (Watcher.ofDepth depth) [] p w with
  | ok c w' =>
    rw [hw] at h
    cases h
  | error g w' =>
    rw [hw] at h hsound hexplained
    cases h
    exact hexplained hsound.visits

/-- **How a text can end in a new session.** It comes to its end; or it is rejected with
diagnostics, or for an integer literal with too many digits; or it stops with a fault of an
operation that accounts for it. -/
theorem run_outcome (depth : Nat) (source stdin : String) (clock : Nat → Float) :
    let m := Machine.initial (.ofInput stdin clock)
    match Session.run depth source m with
    | .ok _ _ => ∃ p, compileSource source = .ok p
    | .error (.rejected (.diagnostics ds)) m' =>
      compileSource source = .error (.diagnostics ds) ∧ ds ≠ [] ∧ m' = m
    | .error (.rejected .overlong) m' =>
      (∃ text, .overlong text ∈ pieces source.toList ∧ Piece.IsOverlong text) ∧ m' = m
    | .error (.fault f) _ => f.IsForeseen ∧ ∃ p, compileSource source = .ok p ∧
      ∃ o m', Reaches depth globalScope (.stmts p) m o m' ∧ o.FailsAt m' f ∧ o.Accounts f := by
  intro m
  cases hp : compileSource source with
  | error r =>
    rw [Session.run, Session.runWith_of_rejected hp]
    cases r with
    | overlong => exact ⟨exists_overlong_of_compileSource hp, rfl⟩
    | diagnostics ds => exact ⟨rfl, diagnostics_ne_nil_of_compileSource hp, rfl⟩
  | ok p =>
    cases hr : Session.run depth source m with
    | ok a m' => exact ⟨p, rfl⟩
    | error e m' =>
      cases e with
      | rejected r =>
        -- a program that is run is not rejected any more
        rw [Session.run, Session.runWith_of_compiled hp] at hr
        unfold Session.ofEnd at hr
        split at hr <;> cases hr
      | fault f =>
        obtain ⟨o, m', hreach, hfails, haccounts⟩ := exists_operation_of_run hp rfl rfl hr
        exact ⟨haccounts.isForeseen, p, rfl, o, m', hreach, hfails, haccounts⟩

end RadixScript
