import RadixScript.Proofs.Laws.Trees
import RadixScript.Session

/-!
# What a run does to the console

A run takes lines from the front of the input and appends to the output. Apart from that the console
does not matter: with another output, and with other lines after those that are taken, the run does
the same (`Framed`). There is one exception. A run that finds the end of the input takes notice of
it, so where no line is left there must not be any other either.

This holds of everything that is run (`frameLaw`), and so of the texts of a session
(`Session.run_framed`).
-/

namespace RadixScript

variable {ε α β : Type}

/-! ## Machines with other consoles -/

/-- The machine with other lines of input and another output. -/
def Machine.onConsole (m : Machine) (input : List String) (output : String) : Machine :=
  { m with console := { m.console with input := input, output := output } }

namespace Machine

variable (m : Machine) (input input' : List String) (output output' : String)

@[simp] theorem onConsole_output : (m.onConsole input output).console.output = output := rfl

@[simp] theorem onConsole_scopes : (m.onConsole input output).scopes = m.scopes := rfl

@[simp] theorem onConsole_onConsole :
    (m.onConsole input output).onConsole input' output' = m.onConsole input' output' := rfl

theorem onConsole_self : m.onConsole m.console.input m.console.output = m := rfl

end Machine

/-- The result with another machine. -/
def mapMachine (g : Machine → Machine) : EStateM.Result ε Machine α → EStateM.Result ε Machine α
  | .ok a m => .ok a (g m)
  | .error e m => .error e (g m)

@[simp] theorem machineAfter_mapMachine (g : Machine → Machine) (r : EStateM.Result ε Machine α) :
    machineAfter (mapMachine g r) = g (machineAfter r) := by
  cases r <;> rfl

/-! ## Frames -/

/-- Run on the machine, `x` takes the lines `used` and writes `printed`, and it does the same on
other consoles. -/
structure FramedAt (x : EStateM ε Machine α) (m : Machine) (used : List String)
    (printed : String) : Prop where
  input : m.console.input = used ++ (machineAfter (x m)).console.input
  output : (machineAfter (x m)).console.output = m.console.output ++ printed
  moreLines : (machineAfter (x m)).console.moreLines = m.console.moreLines
  frame : ∀ rest output, ((machineAfter (x m)).console.input = [] → rest = []) →
    x (m.onConsole (used ++ rest) output) =
      mapMachine (·.onConsole rest (output ++ printed)) (x m)

/-- On every machine `x` takes lines from the front of the input and appends to the output, and the
rest of the console does not matter. -/
def Framed (x : EStateM ε Machine α) : Prop := ∀ m, ∃ used printed, FramedAt x m used printed

/-- What does not touch input and output. -/
theorem framed_of_quiet {x : EStateM ε Machine α}
    (h : ∀ m input output,
      x (m.onConsole input output) = mapMachine (·.onConsole input output) (x m))
    (hmore : ∀ m, (machineAfter (x m)).console.moreLines = m.console.moreLines) : Framed x := by
  intro m
  have hself : x m = mapMachine (·.onConsole m.console.input m.console.output) (x m) := by
    rw [← h, Machine.onConsole_self]
  refine ⟨[], "", ?_, ?_, ?_, ?_⟩
  · rw [hself, machineAfter_mapMachine]
    rfl
  · rw [hself, machineAfter_mapMachine, Machine.onConsole_output, String.append_empty]
  · exact hmore m
  · intro rest output _
    rw [List.nil_append, String.append_empty]
    exact h m rest output

theorem framed_pure (a : α) : Framed (pure a : EStateM ε Machine α) :=
  framed_of_quiet (fun _ _ _ => rfl) fun _ => rfl

theorem framed_throw (e : ε) : Framed (throw e : EStateM ε Machine α) :=
  framed_of_quiet (fun _ _ _ => rfl) fun _ => rfl

/-- **Frames of steps that follow each other**: what the second takes comes after what the first
takes. -/
theorem framed_bind {x : EStateM ε Machine α} {f : α → EStateM ε Machine β} (hx : Framed x)
    (hf : ∀ m a m', x m = .ok a m' → Framed (f a)) : Framed (x >>= f) := by
  intro m
  obtain ⟨used₁, printed₁, hinput₁, houtput₁, hmore₁, hframe₁⟩ := hx m
  cases hr : x m with
  | error e m₁ =>
    have hbind : (x >>= f) m = .error e m₁ := by simp only [bind, EStateM.bind, hr]
    rw [hr] at hinput₁ houtput₁ hmore₁ hframe₁
    refine ⟨used₁, printed₁, ?_, ?_, ?_, ?_⟩
    · rw [hbind]
      exact hinput₁
    · rw [hbind]
      exact houtput₁
    · rw [hbind]
      exact hmore₁
    · intro rest output hrest
      rw [hbind] at hrest ⊢
      simp only [bind, EStateM.bind]
      rw [hframe₁ rest output hrest]
      rfl
  | ok a m₁ =>
    have hbind : (x >>= f) m = f a m₁ := by simp only [bind, EStateM.bind, hr]
    rw [hr] at hinput₁ houtput₁ hmore₁ hframe₁
    obtain ⟨used₂, printed₂, hinput₂, houtput₂, hmore₂, hframe₂⟩ := hf m a m₁ hr m₁
    refine ⟨used₁ ++ used₂, printed₁ ++ printed₂, ?_, ?_, ?_, ?_⟩
    · rw [hbind, hinput₁, machineAfter, hinput₂, List.append_assoc]
    · rw [hbind, houtput₂, ← String.append_assoc, ← houtput₁, machineAfter]
    · rw [hbind]
      exact hmore₂.trans hmore₁
    · intro rest output hrest
      rw [hbind] at hrest ⊢
      -- if the first step leaves nothing, the second takes nothing and leaves nothing
      have hmid : m₁.console.input = [] → used₂ ++ rest = [] := by
        intro hnil
        rw [hnil] at hinput₂
        obtain ⟨hused, hleft⟩ := List.append_eq_nil_iff.mp hinput₂.symm
        rw [hused, hrest hleft, List.append_nil]
      simp only [bind, EStateM.bind]
      rw [List.append_assoc, hframe₁ (used₂ ++ rest) output hmid]
      simp only [mapMachine]
      rw [hframe₂ rest (output ++ printed₁) hrest, String.append_assoc]
      rfl

namespace Run

theorem framed_lift (x : Except Fault α) : Framed (lift x) := by
  cases x with
  | ok a => exact framed_pure a
  | error f => exact framed_throw f

theorem framed_read (f : Scopes → Except Fault α) : Framed (read f) := by
  refine framed_of_quiet (fun m input output => ?_) fun m => ?_
  · rw [read_eq, read_eq, Machine.onConsole_scopes]
    cases f m.scopes <;> rfl
  · rw [read_eq]
    cases f m.scopes <;> rfl

theorem framed_store (target : Scopes → Except Fault ScopeId) (name : String) (v : Value) :
    Framed (store target name v) := by
  refine framed_of_quiet (fun m input output => ?_) fun m => ?_
  · rw [store_eq, store_eq, Machine.onConsole_scopes]
    cases target m.scopes <;> rfl
  · rw [store_eq]
    cases target m.scopes <;> rfl

theorem framed_enter (parent : ScopeId) : Framed (enter parent) :=
  framed_of_quiet (fun _ _ _ => rfl) fun _ => rfl

theorem framed_nextSerial : Framed nextSerial := framed_of_quiet (fun _ _ _ => rfl) fun _ => rfl

theorem framed_readClock : Framed readClock := by
  refine framed_of_quiet (fun m input output => ?_) fun m => ?_
  · obtain ⟨scopes, closures, input', moreLines, output', clock, known?, readings⟩ := m
    show (if known?.any (· ≤ readings) then _ else _) =
      mapMachine _ (if known?.any (· ≤ readings) then _ else _)
    cases known?.any (· ≤ readings) <;> rfl
  · rw [readClock]
    split <;> rfl

theorem framed_write (s : String) : Framed (write s) := by
  intro m
  refine ⟨[], s, rfl, rfl, rfl, ?_⟩
  intro rest output _
  rfl

theorem framed_readLine : Framed readLine := by
  intro m
  obtain ⟨scopes, closures, input, moreLines, output, clock, known?, readings⟩ := m
  cases input with
  | cons line rest =>
    refine ⟨[line], "", rfl, String.append_empty.symm, rfl, ?_⟩
    intro rest' output' _
    rw [String.append_empty]
    rfl
  | nil =>
    refine ⟨[], "", ?_, ?_, ?_, ?_⟩
    · cases moreLines <;> rfl
    · rw [String.append_empty]
      cases moreLines <;> rfl
    · cases moreLines <;> rfl
    · -- the run learns that there is no line
      intro rest output' hrest
      have hnil : rest = [] := hrest (by cases moreLines <;> rfl)
      rw [hnil, String.append_empty]
      cases moreLines <;> rfl

theorem framed_located {x : Run α} (t : Token) (hx : Framed x) : Framed (located t x) := by
  intro m
  obtain ⟨used, printed, hinput, houtput, hmore, hframe⟩ := hx m
  have hafter : machineAfter (located t x m) = machineAfter (x m) := by
    rw [located]
    cases x m <;> rfl
  refine ⟨used, printed, ?_, ?_, ?_, ?_⟩
  · rw [hafter]
    exact hinput
  · rw [hafter]
    exact houtput
  · rw [hafter]
    exact hmore
  · intro rest output hrest
    rw [hafter] at hrest
    rw [located, hframe rest output hrest, located]
    cases x m <;> rfl

end Run

open Run

/-! ## The law -/

theorem lookUp_framed (env : ScopeId) (name : Token) (tag : Option Nat) :
    Framed (lookUp env name tag) := by
  cases tag <;> (rw [lookUp]; exact framed_read _)

theorem assignName_framed (env : ScopeId) (name : Token) (v : Value) (tag : Option Nat) :
    Framed (assignName env name v tag) := by
  cases tag <;> (rw [assignName]; exact framed_store _ _ _)

theorem defineName_framed (env : ScopeId) (name : Token) (v : Value) :
    Framed (defineName env name v) :=
  framed_bind (framed_lift _) fun _ _ _ _ => framed_store _ _ _

theorem Native.run_framed (g : Native) (args : List Value) : Framed (g.run args) := by
  cases g
  · exact framed_bind framed_readClock fun _ _ _ _ => framed_pure _
  · exact framed_bind (framed_lift _) fun _ _ _ _ =>
      framed_bind (framed_write _) fun _ _ _ _ => framed_pure _
  · exact framed_bind (framed_lift _) fun _ _ _ _ => framed_pure _
  · exact framed_bind framed_readLine fun _ _ _ _ => framed_pure _
  all_goals exact framed_lift _

theorem Value.madeOf_true (v : Value) : v.MadeOf fun _ => True := by
  cases v
  case closure => exact fun _ _ => trivial
  all_goals trivial

/-- **Runs leave the rest of the console alone.** There is no condition on code. -/
def frameLaw : RunLaw where
  node := fun _ => True
  Holds := fun post x => Framed x ∧ ∀ m a m', x m = .ok a m' → post a
  pure := fun ha => ⟨framed_pure _, fun _ _ _ h => by cases h; exact ha⟩
  throw := fun f => ⟨framed_throw f, fun _ _ _ h => by cases h⟩
  bind := fun {_ _ _ _ x f} hx hf => by
    refine ⟨framed_bind hx.1 fun m a m' h => (hf a (hx.2 m a m' h)).1, fun m b m' h => ?_⟩
    simp only [bind, EStateM.bind] at h
    split at h
    · next a m₁ hr => exact (hf a (hx.2 m a m₁ hr)).2 m₁ b m' h
    · cases h
  located := fun {_ _ x} t hx => by
    refine ⟨framed_located t hx.1, fun m a m' h => ?_⟩
    rw [located] at h
    split at h
    · next hr =>
      cases h
      exact hx.2 m a m' hr
    · cases h
  lookUp := fun env name tag => ⟨lookUp_framed env name tag, fun _ v _ _ => v.madeOf_true⟩
  assign := fun env name v tag _ => ⟨assignName_framed env name v tag, fun _ _ _ _ => trivial⟩
  define := fun env name v _ => ⟨defineName_framed env name v, fun _ _ _ _ => trivial⟩
  enter := fun parent => ⟨framed_enter parent, fun _ _ _ _ => trivial⟩
  nextSerial := ⟨framed_nextSerial, fun _ _ _ _ => trivial⟩
  native := fun g args => ⟨g.run_framed args, fun _ v _ _ => v.madeOf_true⟩

/-- **The texts of a session leave the rest of the console alone.** -/
theorem Session.run_framed (depth : Nat) (source : String) : Framed (Session.run depth source) := by
  cases hp : compileSource source with
  | error r =>
    refine framed_of_quiet (fun m input output => ?_) fun m => ?_
    · rw [Session.run, Session.runWith_of_rejected hp, Session.runWith_of_rejected hp]
      rfl
    · rw [Session.run, Session.runWith_of_rejected hp]
      rfl
  | ok p =>
    intro m
    have hexec : frameLaw.Holds (Completion.MadeOf frameLaw.node)
        (Stmt.execAll .tagged (.ofDepth .tagged depth) globalScope p) :=
      RunLaw.execAll (RunLaw.ofDepth depth) globalScope p fun _ _ => trivial
    obtain ⟨used, printed, hinput, houtput, hmore, hframe⟩ := hexec.1 m
    have hend : ∀ r, machineAfter (Session.ofEnd r) = machineAfter r := by
      intro r
      cases r <;> rfl
    have hrun : ∀ m, Session.run depth source m =
        Session.ofEnd (Stmt.execAll .tagged (.ofDepth .tagged depth) globalScope p m) :=
      fun m => Session.runWith_of_compiled hp .tagged depth m
    refine ⟨used, printed, ?_, ?_, ?_, ?_⟩
    · rw [hrun, hend]
      exact hinput
    · rw [hrun, hend]
      exact houtput
    · rw [hrun, hend]
      exact hmore
    · intro rest output hrest
      rw [hrun, hend] at hrest
      rw [hrun, hrun, hframe rest output hrest]
      cases Stmt.execAll .tagged (.ofDepth .tagged depth) globalScope p m <;> rfl

end RadixScript
