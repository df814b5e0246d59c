import RadixScript.Proofs.Laws.Trees
import RadixScript.Proofs.Scoping.Growth

/-!
# Running adds no code

Every closure of a running program has code of this program: if the closures that are bound before a
run, and the tree that is run, consist of expressions with a property, so do the closures that are
bound after it (`codeLaw`). In a new session there are no closures at all, so there every expression
that is ever evaluated is one of the text.
-/

namespace RadixScript

variable {node : Expr (Option Nat) → Prop}

/-! ## Values that are found -/

theorem Scopes.exists_own?_of_get {s : Scopes} {i : ScopeId} {x : Name} {v : Value}
    (h : s.get i x = .ok v) : ∃ j, s.own? j x.text = some v := by
  rw [Scopes.get, Scopes.get?_eq_owner?] at h
  cases ho : s.owner? i x.text with
  | none =>
    rw [ho] at h
    cases h
  | some o =>
    obtain ⟨u, hu⟩ := Option.isSome_iff_exists.mp (Scopes.binds_of_owner? ho)
    rw [ho, Option.bind_some, hu] at h
    cases h
    exact ⟨o, hu⟩

theorem Scopes.exists_own?_of_getAt {s : Scopes} {i : ScopeId} {d : Nat} {x : Name} {v : Value}
    (h : s.getAt i d x = .ok v) : ∃ j, s.own? j x.text = some v := by
  simp only [Scopes.getAt, bind, Except.bind] at h
  split at h
  · cases h
  · next a _ =>
    split at h
    · next u hu =>
      cases h
      exact ⟨a, hu⟩
    · cases h

/-! ## Machines -/

/-- All closures that are bound have code that consists of expressions with a property. -/
def Machine.MadeOf (node : Expr (Option Nat) → Prop) (m : Machine) : Prop :=
  ∀ i x v, m.scopes.own? i x = some v → v.MadeOf node

namespace Machine.MadeOf

variable {m : Machine} {v : Value}

theorem set (h : m.MadeOf node) (i : ScopeId) (x : String) (hv : v.MadeOf node) :
    Machine.MadeOf node { m with scopes := m.scopes.set i x v } := by
  intro j y u hu
  rcases Scopes.own?_set_cases hu with ⟨_, _, rfl⟩ | hu
  · exact hv
  · exact h j y u hu

theorem create (h : m.MadeOf node) (parent : Option ScopeId) :
    Machine.MadeOf node { m with scopes := (m.scopes.create parent).2 } := by
  intro j y u hu
  rw [Scopes.own?_create] at hu
  exact h j y u hu

end Machine.MadeOf

/-- In a new session no closure is bound. -/
theorem Machine.initial_madeOf (console : Console) : (Machine.initial console).MadeOf node := by
  have hnatives : ∀ (fs : List Native) (s : Scopes) (i : ScopeId),
      (⟨s, 0, console⟩ : Machine).MadeOf node →
      (⟨fs.foldl (fun s f => s.set i f.name (.native f ownSession)) s, 0, console⟩ :
        Machine).MadeOf node := by
    intro fs
    induction fs with
    | nil => exact fun _ _ h => h
    | cons f fs ih => exact fun s i h => ih _ i (h.set i f.name trivial)
  have hempty : (⟨Scopes.empty, 0, console⟩ : Machine).MadeOf node := by
    intro i x v hv
    simp [Scopes.own?, Scopes.scope?, Scopes.empty] at hv
  unfold Machine.initial Scopes.initial
  dsimp only
  exact hnatives Native.all _ _ (hempty.create none)

/-! ## The law -/

section law

variable {α β : Type}

/-- A run that comes to its end leaves only such code, and gives a result as required. -/
def Run.KeepsCode (node : Expr (Option Nat) → Prop) (post : α → Prop) (x : Run α) : Prop :=
  ∀ m a m', m.MadeOf node → x m = .ok a m' → m'.MadeOf node ∧ post a

namespace Run

theorem keepsCode_bind {mid : α → Prop} {post : β → Prop} {x : Run α} {f : α → Run β}
    (hx : x.KeepsCode node mid) (hf : ∀ a, mid a → (f a).KeepsCode node post) :
    (x >>= f).KeepsCode node post := by
  intro m b m' hm h
  simp only [bind, EStateM.bind] at h
  cases hr : x m with
  | ok a m₁ =>
    rw [hr] at h
    obtain ⟨hm₁, ha⟩ := hx m a m₁ hm hr
    exact hf a ha m₁ b m' hm₁ h
  | error e m₁ =>
    rw [hr] at h
    cases h

theorem keepsCode_located {post : α → Prop} {x : Run α} (t : Token) (hx : x.KeepsCode node post) :
    (located t x).KeepsCode node post := by
  intro m a m' hm h
  rw [located] at h
  cases hr : x m with
  | ok b m₁ =>
    rw [hr] at h
    cases h
    exact hx m a m' hm hr
  | error e m₁ =>
    rw [hr] at h
    cases h

theorem keepsCode_lift (x : Except Fault α) : (lift x).KeepsCode node fun _ => True := by
  intro m a m' hm h
  cases x with
  | ok b =>
    cases h
    exact ⟨hm, trivial⟩
  | error e => cases h

theorem keepsCode_read {post : α → Prop} {f : Scopes → Except Fault α}
    (h : ∀ m : Machine, m.MadeOf node → ∀ a, f m.scopes = .ok a → post a) :
    (read f).KeepsCode node post := by
  intro m a m' hm hr
  rw [read_eq] at hr
  cases hf : f m.scopes with
  | ok b =>
    rw [hf] at hr
    cases hr
    exact ⟨hm, h m hm a hf⟩
  | error e =>
    rw [hf] at hr
    cases hr

theorem keepsCode_store {target : Scopes → Except Fault ScopeId} {name : String} {v : Value}
    (hv : v.MadeOf node) : (store target name v).KeepsCode node fun _ => True := by
  intro m a m' hm hr
  rw [store_eq] at hr
  cases ht : target m.scopes with
  | ok i =>
    rw [ht] at hr
    cases hr
    exact ⟨hm.set i name hv, trivial⟩
  | error e =>
    rw [ht] at hr
    cases hr

theorem Inert.keepsCode {x : Run Value} (h : x.Inert) : x.KeepsCode node (Value.MadeOf node) := by
  intro m v m' hm hr
  obtain ⟨hscopes, -, hv⟩ := h m
  rw [hr] at hscopes hv
  refine ⟨?_, hv.madeOf⟩
  rw [Machine.MadeOf, show m'.scopes = m.scopes from hscopes]
  exact hm

end Run

end law

open Run

theorem lookUp_keepsCode (env : ScopeId) (name : Token) (tag : Option Nat) :
    (lookUp env name tag).KeepsCode node (Value.MadeOf node) := by
  cases tag with
  | none =>
    rw [lookUp]
    refine keepsCode_read fun m hm v hv => ?_
    obtain ⟨j, hj⟩ := Scopes.exists_own?_of_get hv
    exact hm j _ v hj
  | some d =>
    rw [lookUp]
    refine keepsCode_read fun m hm v hv => ?_
    obtain ⟨j, hj⟩ := Scopes.exists_own?_of_getAt hv
    exact hm j _ v hj

theorem assignName_keepsCode (env : ScopeId) (name : Token) {v : Value} (tag : Option Nat)
    (hv : v.MadeOf node) : (assignName env name v tag).KeepsCode node fun _ => True := by
  cases tag <;> exact keepsCode_store hv

theorem defineName_keepsCode (env : ScopeId) (name : Token) {v : Value} (hv : v.MadeOf node) :
    (defineName env name v).KeepsCode node fun _ => True :=
  keepsCode_bind (keepsCode_lift _) fun _ _ => keepsCode_store hv

/-- **Running adds no code.** -/
def codeLaw (node : Expr (Option Nat) → Prop) : RunLaw where
  node := node
  Holds := KeepsCode node
  pure := fun ha m b m' hm h => by
    cases h
    exact ⟨hm, ha⟩
  throw := fun f m b m' hm h => by cases h
  bind := keepsCode_bind
  located := keepsCode_located
  lookUp := lookUp_keepsCode
  assign := assignName_keepsCode
  define := defineName_keepsCode
  enter := fun parent m i m' hm h => by
    cases h
    exact ⟨hm.create (some parent), trivial⟩
  nextSerial := fun m i m' hm h => by
    cases h
    exact ⟨hm, trivial⟩
  native := fun g args => (Native.run_inert g args).keepsCode

end RadixScript
