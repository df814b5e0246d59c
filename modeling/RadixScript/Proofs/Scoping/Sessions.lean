import RadixScript.Proofs.Grammar.Resolved
import RadixScript.Proofs.Scoping.Preservation

/-!
# Watched sessions keep the invariant

A new session has the invariant, and every step keeps it, whether the text is accepted or not and
however its run ends. So all that is recorded in a session is right (`Watched.outcomes_sound`).

This is where the parser comes in: resolution treats the branches of an `if` as parts of the scope
around it, and this fits to the run only because no branch is a declaration. The trees that the
parser gives have this property.
-/

namespace RadixScript

variable {sheltered : Prop} {w : Watched}

/-! ## The start of a session -/

/-- There are globals, only they bind names, and none of these to a closure. -/
structure Scopes.IsInitial (s : Scopes) : Prop where
  globals : 0 < s.all.size
  inert : ∀ i x v, s.own? i x = some v → i = globalScope ∧ v.IsInert

theorem Scopes.IsInitial.set {s : Scopes} (h : s.IsInitial) (x : String) {v : Value}
    (hv : v.IsInert) : (s.set globalScope x v).IsInitial where
  globals := by
    rw [Scopes.size_set]
    exact h.globals
  inert := by
    intro i y u hu
    rcases Scopes.own?_set_cases hu with ⟨rfl, _, rfl⟩ | hu
    · exact ⟨rfl, hv⟩
    · exact h.inert i y u hu

theorem Scopes.IsInitial.natives {s : Scopes} (h : s.IsInitial) {i : ScopeId}
    (hi : i = globalScope) (fs : List Native) :
    (fs.foldl (fun s f => s.set i f.name (.native f ownSession)) s).IsInitial := by
  subst hi
  induction fs generalizing s with
  | nil => exact h
  | cons f fs ih =>
    have hf : (Value.native f ownSession).IsInert := trivial
    exact ih (h.set f.name hf)

theorem Scopes.initial_isInitial : Scopes.initial.IsInitial := by
  have hempty : (Scopes.empty.create none).2.IsInitial := by
    refine ⟨Nat.zero_lt_one, ?_⟩
    intro i x v hv
    rw [Scopes.own?_create] at hv
    simp [Scopes.own?, Scopes.scope?, Scopes.empty] at hv
  unfold Scopes.initial
  dsimp only
  exact hempty.natives rfl Native.all

theorem Watched.initial_sound (console : Console) :
    (Watched.initial console).Sound sheltered where
  globals := Scopes.initial_isInitial.globals
  values := fun i x v hv => (Scopes.initial_isInitial.inert i x v hv).2.rooted
  planned := by
    intro i x hi hb
    obtain ⟨v, hv⟩ := Option.isSome_iff_exists.mp hb
    exact absurd (Scopes.initial_isInitial.inert i x v hv).1 hi
  visits := by
    intro v hv
    exact absurd hv List.not_mem_nil

/-! ## The steps of a session -/

theorem grammatical_of_parseSource {source : String} {p : Program Unit}
    (h : parseSource source = .ok p) : Stmt.AllGrammatical p := by
  rw [parseSource] at h
  cases hs : scan source with
  | none =>
    rw [hs] at h
    cases h
  | some s =>
    rw [hs] at h
    dsimp only at h
    cases he : s.problems ++ (parseProgram s.eof s.tokens).2 with
    | nil =>
      rw [he] at h
      cases h
      exact (parseProgram_spells s.eof s.tokens (List.append_eq_nil_iff.mp he).2).1
    | cons d ds =>
      rw [he] at h
      cases h

/-- What is run is the resolution of what has been parsed. -/
theorem exists_of_compileSource {source : String} {p : Program (Option Nat)}
    (h : compileSource source = .ok p) :
    ∃ q, parseSource source = .ok q ∧ p = Stmt.resolveAll [] q := by
  rw [compileSource] at h
  cases hq : parseSource source with
  | error r =>
    rw [hq] at h
    cases h
  | ok q =>
    rw [hq] at h
    refine ⟨q, rfl, ?_⟩
    simp only [Except.bind, Program.compile] at h
    split at h
    · cases h
      rfl
    · cases h

/-- What is run is grammatical. -/
theorem grammatical_of_compileSource {source : String} {p : Program (Option Nat)}
    (h : compileSource source = .ok p) : Stmt.AllGrammatical p := by
  obtain ⟨q, hq, rfl⟩ := exists_of_compileSource h
  exact (Stmt.allGrammatical_resolveAll q []).mpr (grammatical_of_parseSource hq)

/-- A text that is sheltered, if it has to be. -/
def SourceSheltered (sheltered : Prop) (source : String) : Prop :=
  sheltered → ∀ p, parseSource source = .ok p → p.Sheltered

/-- The statements of a text can be executed among the globals. -/
theorem Stmt.AllPlaced.of_parseSource {source : String} {p : Program Unit}
    (h : parseSource source = .ok p) (hs : SourceSheltered sheltered source) :
    Stmt.AllPlaced sheltered w [] p where
  grammatical := grammatical_of_parseSource h
  ready := ⟨trivial, fun _ _ _ => nofun⟩
  planned := trivial
  shelter := fun hsheltered => hs hsheltered p h

theorem Watched.run_sound {depth : Nat} {source : String} (hw : w.Sound sheltered)
    (hs : SourceSheltered sheltered source) :
    (watchedAfter (Watched.run depth source w)).Sound sheltered ∧
      ∀ d w', Watched.run depth source w ≠ .error (.fault (.shortChain d)) w' := by
  rw [Watched.run]
  cases hp : compileSource source with
  | error r =>
    refine ⟨hw, ?_⟩
    intro d w' h
    cases h
  | ok p =>
    obtain ⟨q, hq, rfl⟩ := exists_of_compileSource hp
    have h := Stmt.watchAll_ensures (Watcher.ofDepth_sound depth) q hw (.of_parseSource hq hs)
    rw [show Frames.locals [] = [] from rfl] at h
    dsimp only
    cases hr : Stmt.watchAll (Watcher.ofDepth depth) [] (Stmt.resolveAll [] q) w with
    | ok c w' =>
      rw [hr] at h
      refine ⟨h.sound, ?_⟩
      intro d w' h
      cases h
    | error f w' =>
      rw [hr] at h
      refine ⟨h.sound, ?_⟩
      intro d w'' hd
      cases hd
      exact h.ends

/-- **A session keeps the invariant**, and no step of it stops because a chain of scopes is too
short. -/
theorem Watched.outcomes_sound {steps : List (Nat × String)} (hw : w.Sound sheltered)
    (hs : ∀ step ∈ steps, SourceSheltered sheltered step.2) :
    (outcomes Watched.run steps w).2.Sound sheltered ∧
      ∀ d, .error (.fault (.shortChain d)) ∉ (outcomes Watched.run steps w).1 := by
  induction steps generalizing w with
  | nil => exact ⟨hw, nofun⟩
  | cons step rest ih =>
    obtain ⟨depth, source⟩ := step
    obtain ⟨hsound, hne⟩ := Watched.run_sound hw (hs (depth, source) (List.mem_cons_self ..))
    have hrest : ∀ step ∈ rest, SourceSheltered sheltered step.2 :=
      fun step hstep => hs step (List.mem_cons_of_mem _ hstep)
    rw [outcomes]
    cases hr : Watched.run depth source w with
    | ok a w' =>
      rw [hr] at hsound
      obtain ⟨hfinal, houtcomes⟩ := ih hsound hrest
      refine ⟨hfinal, ?_⟩
      intro d hd
      rcases List.mem_cons.mp hd with hd | hd
      · cases hd
      · exact houtcomes d hd
    | error f w' =>
      rw [hr] at hsound
      obtain ⟨hfinal, houtcomes⟩ := ih hsound hrest
      refine ⟨hfinal, ?_⟩
      intro d hd
      rcases List.mem_cons.mp hd with hd | hd
      · cases hd
        exact hne d w' hr
      · exact houtcomes d hd

/-- A state that a session can reach is the machine of a watched session with the invariant. -/
theorem exists_sound_watched (console : Console) (steps : List (Nat × String)) :
    ∃ w : Watched, (outcomes Session.run steps (.initial console)).2 = w.machine ∧
      w.Sound False := by
  have hs : ∀ step ∈ steps, SourceSheltered False step.2 := fun _ _ => False.elim
  have hrun := outcomes_run_eq steps (.initial console)
  exact ⟨(outcomes Watched.run steps (.initial console)).2, congrArg Prod.snd hrun,
    (Watched.outcomes_sound (Watched.initial_sound console) hs).1⟩

end RadixScript
