import RadixScript.Proofs.Likeness.Runs
import RadixScript.Proofs.Likeness.Tokens
import RadixScript.Proofs.Scoping.Nearest

/-!
# Texts that are alike, run in one session

A session is run in the state that its earlier texts have left. What holds of such a state
(`Machine.Sound`) has two uses here: names with a tag are always found, so that a run with
`Names.sure` is the run itself (`Session.runWith_sure`), and the state is like itself
(`Machine.Sound.alike_self`).

So two programs that are alike end alike when they are run in one state (`endsLike_ofEnd`). This is
said in terms of what can be seen afterwards: the console, the globals and the fault.
-/

namespace RadixScript

variable {ι : Type} {L : ι → Likeness} {m m' : Machine}

/-! ## States of a session -/

/-- The machine of a watched session with the invariant. -/
def Machine.Sound (m : Machine) : Prop := ∃ w : Watched, m = w.machine ∧ w.Sound False

/-- Every state that a session can reach is sound. -/
theorem Machine.sound_outcomes (console : Console) (steps : List (Nat × String)) :
    (outcomes Session.run steps (.initial console)).2.Sound :=
  exists_sound_watched console steps

theorem Machine.Sound.globals (h : m.Sound) : globalScope < m.scopes.all.size := by
  obtain ⟨w, rfl, hw⟩ := h
  exact hw.globals

/-- A name with a tag is found. -/
theorem Visit.Right.agrees_sure {v : Visit} (h : v.Right False) : v.Agrees .sure := by
  rw [Visit.Agrees]
  cases hd : v.tag with
  | none => split <;> rfl
  | some d =>
    obtain ⟨frame, a, _, _, _, ha, hv⟩ := h.exists_frame hd
    split
    · show Run.read (fun s => surely d (s.getAt v.env d (.ofToken v.name))) v.machine =
        Run.read (·.getAt v.env d (.ofToken v.name)) v.machine
      refine Run.read_congr ?_
      rw [Scopes.getAt_eq_ok ha hv]
      rfl
    · refine Run.store_congr ?_
      rw [Scopes.assigneeAt_eq_ok ha hv]
      rfl

/-- A step of a session leads from a sound state to a sound state. -/
theorem Machine.Sound.run (h : m.Sound) (depth : Nat) (source : String) :
    (machineAfter (Session.run depth source m)).Sound := by
  obtain ⟨w, rfl, hw⟩ := h
  have hrun : Session.run depth source w.machine = unwatched (Watched.run depth source w) :=
    Session.runWith_eq_of_agrees fun v _ => v.agrees_tagged
  refine ⟨watchedAfter (Watched.run depth source w), ?_, (Watched.run_sound hw False.elim).1⟩
  rw [hrun]
  cases Watched.run depth source w <;> rfl

/-- In a sound state it makes no difference what happens to names that are not found. -/
theorem Session.runWith_sure (h : m.Sound) (depth : Nat) (source : String) :
    Session.runWith .sure depth source m = Session.run depth source m := by
  obtain ⟨w, rfl, hw⟩ := h
  have hsound : (watchedAfter (Watched.run depth source w)).Sound False :=
    (Watched.run_sound hw False.elim).1
  have hrun : Session.run depth source w.machine = unwatched (Watched.run depth source w) :=
    Session.runWith_eq_of_agrees fun v _ => v.agrees_tagged
  rw [hrun]
  exact Session.runWith_eq_of_agrees fun v hv => (hsound.visits v hv).agrees_sure

/-! ## Likeness of a state to itself -/

/-- The tokens of a function. -/
def Closure.tokens (f : Closure) : List Token := f.name :: (f.params ++ Stmt.allTokens f.body)

theorem Renamings.none_enter_refl : none.enter (Equiv.refl String) = none := by
  rw [enter_none, only_refl]

theorem Closure.alike_self {L : Likeness} {n : Nat} {f : Closure} (hL : L.Follows id)
    (hf : ∀ t ∈ f.tokens, L.token t t) (hscope : f.scope < n) :
    f.Alike L (fun _ => Renamings.none) n f := by
  simp only [Closure.tokens, List.forall_mem_cons, List.forall_mem_append] at hf
  refine ⟨rfl, hscope, rfl, hf.1, Equiv.refl String, L.renames_refl, ?_, ?_⟩
  · rw [List.forall₂_same]
    exact hf.2.1
  · have h := Stmt.allAlike_of_tokens hL f.body hf.2.2
    rw [Stmt.mapAllTokens_id] at h
    rw [Renamings.none_enter_refl]
    exact h

/-- **A state is like itself**, if its functions are. -/
theorem Machine.Sound.alike_self [Nonempty ι] (h : m.Sound)
    (hL : ∀ i x f, m.scopes.own? i x = some (.closure f) →
      ∃ k, (L k).Follows id ∧ ∀ t ∈ f.tokens, (L k).token t t) :
    m.Alike L (fun _ => Renamings.none) m where
  size := rfl
  parent := fun _ => rfl
  globals := rfl
  renames := fun _ _ => ⟨Classical.choice ‹_›, (L _).renames_refl⟩
  chain := fun _ _ _ _ => rfl
  bindings := by
    obtain ⟨w, rfl, hw⟩ := h
    intro i
    refine ⟨(List.map_id _).symm, fun x => ?_⟩
    show Option.Rel _ _ ((w.machine.scopes.bindings i).lookup x)
    rw [← Scopes.own?_eq_lookup]
    cases hv : w.machine.scopes.own? i x with
    | none => exact .none
    | some v =>
      have hrooted := hw.values i x v hv
      refine .some ?_
      cases v
      case closure f =>
        have hf : f.Rooted False w := hrooted
        obtain ⟨k, hfollows, htokens⟩ := hL i x f hv
        have hscope : f.scope < w.machine.scopes.all.size := hf.env ▸ hf.linked.env_lt hw.globals
        exact .closure k (Closure.alike_self hfollows htokens hscope)
      case foreign => exact hrooted.elim
      all_goals exact .inert trivial
  closures := rfl
  console := rfl

/-! ## What can be seen -/

/-- The same console, and the same names among the globals, with values that correspond. -/
structure Machine.LooksLike (same : Value → Value → Prop) (m m' : Machine) : Prop where
  console : m'.console = m.console
  globals : List.Forall₂ (fun b b' => b'.1 = b.1 ∧ same b.2 b'.2)
    (m.scopes.items globalScope) (m'.scopes.items globalScope)

/-- The text ends in the same way, and what can be seen afterwards corresponds. -/
def EndsLike (corresponds : Token → Token → Prop) (same : Value → Value → Prop) :
    EStateM.Result Failure Machine Unit → EStateM.Result Failure Machine Unit → Prop
  | .ok _ m, .ok _ m' => m.LooksLike same m'
  | .error (.fault f) m, .error (.fault f') m' => f.Alike corresponds f' ∧ m.LooksLike same m'
  | _, _ => False

theorem Scopes.items_globalScope (s : Scopes) :
    s.items globalScope = ((s.bindings globalScope).map Prod.fst).filterMap fun x =>
      ((s.bindings globalScope).lookup x).map fun v => (x, v) := by
  have hnames : s.names globalScope = (s.bindings globalScope).map Prod.fst := by
    rw [Scopes.names, Scopes.parent?_globalScope, Scopes.bindings]
    cases s.scope? globalScope <;> rfl
  simp only [Scopes.items, hnames, Scopes.get?_globalScope, Scopes.own?_eq_lookup]

theorem Machine.Alike.looksLike {W : World} {same : Value → Value → Prop} (hm : m.Alike L W m')
    (hsame : ∀ v v', v.Alike L W m.scopes.all.size v' → same v v') : m.LooksLike same m' := by
  refine ⟨hm.console, ?_⟩
  obtain ⟨hnames, hlookup⟩ := hm.bindings globalScope
  rw [hm.globals] at hnames hlookup
  rw [Scopes.items_globalScope, Scopes.items_globalScope, hnames]
  show List.Forall₂ _ _ (((((m.scopes.bindings globalScope).map Prod.fst).map id)).filterMap _)
  rw [List.map_id]
  generalize (m.scopes.bindings globalScope).map Prod.fst = names
  induction names with
  | nil => exact .nil
  | cons x names ih =>
    have hx := hlookup x
    rw [List.filterMap_cons, List.filterMap_cons]
    change Option.Rel _ _ ((m'.scopes.bindings globalScope).lookup x) at hx
    generalize (m.scopes.bindings globalScope).lookup x = o at hx ⊢
    generalize (m'.scopes.bindings globalScope).lookup x = o' at hx ⊢
    cases hx with
    | none => exact ih
    | some hv => exact .cons ⟨rfl, hsame _ _ hv⟩ ih

/-- Statements that are alike end alike, also in what can be seen. -/
theorem endsLike_ofEnd {W : World} {depth : Nat} {p p' : Program (Option Nat)} {k : ι}
    {corresponds : Token → Token → Prop} {same : Value → Value → Prop} (hm : m.Alike L W m')
    (hglobals : globalScope < m.scopes.all.size) (hp : Stmt.AllAlike (L k) Renamings.none p p')
    (hcorresponds : ∀ t t' k, (L k).token t t' → corresponds t t')
    (hsame : ∀ W n v v', (∀ i d, ∃ k, (L k).renames (W i d)) → v.Alike L W n v' → same v v') :
    EndsLike corresponds same
      (Session.ofEnd (Stmt.execAll .sure (Caller.ofDepth .sure depth) globalScope p m))
      (Session.ofEnd (Stmt.execAll .sure (Caller.ofDepth .sure depth) globalScope p' m')) := by
  rw [← hm.globals] at hp
  have h := Stmt.execAll_alike (Caller.ofDepth_keepsLikeness L depth) p hp hm hglobals
  generalize Stmt.execAll .sure (Caller.ofDepth .sure depth) globalScope p m = r at h ⊢
  generalize Stmt.execAll .sure (Caller.ofDepth .sure depth) globalScope p' m' = r' at h ⊢
  cases r <;> cases r'
  case ok.ok =>
    obtain ⟨W', _, _, hend, _⟩ := h
    exact hend.looksLike fun v v' => hsame W' _ v v' hend.renames
  case error.error =>
    obtain ⟨W', _, _, hend, hf⟩ := h
    refine ⟨hf.imp ?_, hend.looksLike fun v v' => hsame W' _ v v' hend.renames⟩
    rintro t t' ⟨k, ht⟩
    exact hcorresponds t t' k ht
  all_goals exact h.elim

end RadixScript
