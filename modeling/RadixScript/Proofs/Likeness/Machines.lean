import RadixScript.Proofs.Likeness.Trees
import RadixScript.Proofs.Scoping.Growth
import RadixScript.Proofs.Scoping.Inert

/-!
# Machines that are alike

Two machines are alike when they have the same scopes, with the same parents and with the same
bindings up to renaming, and agree in everything else. Of two closures that are alike the bodies are
alike, given the renamings of the scopes around their declaration.

A `World` has these renamings for every scope. It is extended when a scope is created and otherwise
stays, so what is alike stays alike.
-/

namespace RadixScript

variable {ι : Type} {L : ι → Likeness}

/-! ## Values -/

/-- For every scope the renamings that hold in it: of its own names first, then of those of its
parent, and so on. -/
abbrev World := ScopeId → Renamings

/-- The second world has the same renamings for the first `n` scopes. -/
def World.Extends (n : Nat) (W W' : World) : Prop := ∀ i < n, W' i = W i

theorem World.Extends.refl (n : Nat) (W : World) : W.Extends n W := fun _ _ => rfl

theorem World.Extends.trans {n n' : Nat} {W W' W'' : World} (h : W.Extends n W')
    (h' : W'.Extends n' W'') (hn : n ≤ n') : W.Extends n W'' :=
  fun i hi => (h' i (Nat.lt_of_lt_of_le hi hn)).trans (h i hi)

/-- The world with one more scope, the `n`-th, inside another one. -/
def World.create (W : World) (n : Nat) (parent : ScopeId) (ρ : Renaming) : World :=
  fun i => if i = n then (W parent).enter ρ else W i

theorem World.create_self {W : World} {n : Nat} {parent : ScopeId} {ρ : Renaming} :
    W.create n parent ρ n = (W parent).enter ρ := if_pos rfl

theorem World.create_of_ne {W : World} {n : Nat} {parent i : ScopeId} {ρ : Renaming} (h : i ≠ n) :
    W.create n parent ρ i = W i := if_neg h

theorem World.extends_create (W : World) (n : Nat) (parent : ScopeId) (ρ : Renaming) :
    W.Extends n (W.create n parent ρ) := fun _ hi => World.create_of_ne (Nat.ne_of_lt hi)

/-- Two closures of one scope among the first `n`, made at the same point of the run, whose trees
are alike. -/
structure Closure.Alike (L : Likeness) (W : World) (n : Nat) (f f' : Closure) : Prop where
  scope : f'.scope = f.scope
  scope_lt : f.scope < n
  serial : f'.serial = f.serial
  name : L.token f.name f'.name
  code : ∃ ρ, L.renames ρ ∧
    List.Forall₂ (fun p p' => L.token (p.rename ρ) p') f.params f'.params ∧
    Stmt.AllAlike L ((W f.scope).enter ρ) f.body f'.body

/-- The same value, or two closures that are alike. -/
inductive Value.Alike (L : ι → Likeness) (W : World) (n : Nat) : Value → Value → Prop
  | inert {v} (h : v.IsInert) : Value.Alike L W n v v
  | closure {f f'} (i : ι) (h : f.Alike (L i) W n f') :
    Value.Alike L W n (.closure f) (.closure f')

theorem Value.Alike.extend {W W' : World} {n n' : Nat} {v v' : Value} (h : v.Alike L W n v')
    (hW : W.Extends n W') (hn : n ≤ n') : v.Alike L W' n' v' := by
  cases h with
  | inert h => exact .inert h
  | closure i h =>
    refine .closure i { h with scope_lt := Nat.lt_of_lt_of_le h.scope_lt hn, code := ?_ }
    rw [hW _ h.scope_lt]
    exact h.code

/-! ## Bindings -/

/-- The same names up to renaming, in the same order, with values that are alike. -/
structure BindingsAlike (L : ι → Likeness) (W : World) (n : Nat) (ρ : Renaming)
    (bs bs' : List (String × Value)) : Prop where
  names : bs'.map Prod.fst = (bs.map Prod.fst).map ρ
  lookup : ∀ x, Option.Rel (Value.Alike L W n) (bs.lookup x) (bs'.lookup (ρ x))

section bindings

variable {W : World} {n : Nat} {ρ : Renaming} {bs bs' : List (String × Value)} {v v' : Value}

theorem BindingsAlike.nil : BindingsAlike L W n ρ [] [] := ⟨rfl, fun _ => .none⟩

theorem BindingsAlike.extend {W' : World} {n' : Nat} (h : BindingsAlike L W n ρ bs bs')
    (hW : W.Extends n W') (hn : n ≤ n') : BindingsAlike L W' n' ρ bs bs' := by
  refine ⟨h.names, fun x => ?_⟩
  have hx := h.lookup x
  revert hx
  generalize bs.lookup x = o
  generalize bs'.lookup (ρ x) = o'
  rintro (hv | _)
  · exact .some (hv.extend hW hn)
  · exact .none

theorem BindingsAlike.setBinding (h : BindingsAlike L W n ρ bs bs') (x : String)
    (hv : v.Alike L W n v') :
    BindingsAlike L W n ρ (Scope.setBinding x v bs) (Scope.setBinding (ρ x) v' bs') := by
  constructor
  · rw [Scope.map_fst_setBinding, Scope.map_fst_setBinding, h.names]
    by_cases hx : x ∈ bs.map Prod.fst
    · rw [if_pos hx, if_pos (List.mem_map_of_mem hx)]
    · -- a renaming keeps names apart
      have hx' : ρ x ∉ (bs.map Prod.fst).map ρ := fun hc =>
        hx ((List.mem_map_of_injective ρ.injective).mp hc)
      rw [if_neg hx, if_neg hx', List.map_append, List.map_singleton]
  · intro y
    rw [Scope.lookup_setBinding, Scope.lookup_setBinding]
    by_cases hy : y = x
    · rw [if_pos hy, if_pos (congrArg ρ hy)]
      exact .some hv
    · rw [if_neg hy, if_neg fun hc => hy (ρ.injective hc)]
      exact h.lookup y

end bindings

/-- The bindings of a scope; none if there is no such scope. -/
def Scopes.bindings (s : Scopes) (i : ScopeId) : List (String × Value) :=
  ((s.scope? i).map Scope.bindings).getD []

namespace Scopes

@[simp] theorem size_create (s : Scopes) (parent : Option ScopeId) :
    (s.create parent).2.all.size = s.all.size + 1 := by
  simp [create]

theorem parent?_create_of_gt {s : Scopes} {j : ScopeId} {parent : Option ScopeId}
    (h : s.all.size < j) : (s.create parent).2.parent? j = none := by
  have hj : (s.create parent).2.scope? j = none := by
    rw [scope?, Array.getElem?_eq_none]
    rw [size_create]
    exact h
  simp only [parent?, hj, Option.bind_none]

theorem bindings_of_le {s : Scopes} {j : ScopeId} (h : s.all.size ≤ j) : s.bindings j = [] := by
  rw [bindings, scope?, Array.getElem?_eq_none h]
  rfl

theorem own?_eq_lookup (s : Scopes) (i : ScopeId) (x : String) :
    s.own? i x = (s.bindings i).lookup x := by
  rw [own?, bindings]
  cases s.scope? i <;> rfl

theorem bindings_set (s : Scopes) (i j : ScopeId) (x : String) (v : Value) :
    (s.set i x v).bindings j =
      if i = j ∧ j < s.all.size then Scope.setBinding x v (s.bindings j) else s.bindings j := by
  rw [bindings, scope?_set, bindings]
  by_cases hij : i = j
  · rw [if_pos hij]
    by_cases hj : j < s.all.size
    · rw [if_pos ⟨hij, hj⟩]
      simp [scope?, hj, Scope.set]
    · rw [if_neg fun h => hj h.2]
      simp [scope?, hj]
  · rw [if_neg hij, if_neg fun h => hij h.1]

theorem bindings_create (s : Scopes) (parent : Option ScopeId) (j : ScopeId) :
    (s.create parent).2.bindings j = s.bindings j := by
  rcases Nat.lt_trichotomy j s.all.size with h | h | h
  · rw [bindings, scope?_create_of_lt h, bindings]
  · subst h
    rw [bindings, scope?_create_self, bindings]
    simp [scope?]
  · simp [bindings, scope?, create, Array.getElem?_push, Nat.ne_of_gt h, Nat.le_of_lt h]

end Scopes

/-! ## Machines -/

/-- The machines agree up to renaming. The globals are not renamed, what is renamed in a parent is
renamed in the same way where it is seen from a child, and all renamings are allowed. -/
structure Machine.Alike (L : ι → Likeness) (W : World) (m m' : Machine) : Prop where
  size : m'.scopes.all.size = m.scopes.all.size
  parent : ∀ i, m'.scopes.parent? i = m.scopes.parent? i
  globals : W globalScope = Renamings.none
  renames : ∀ i d, ∃ k, (L k).renames (W i d)
  chain : ∀ i p, m.scopes.parent? i = some p → ∀ d, W i (d + 1) = W p d
  bindings : ∀ i, BindingsAlike L W m.scopes.all.size (W i 0) (m.scopes.bindings i)
    (m'.scopes.bindings i)
  closures : m'.closures = m.closures
  console : m'.console = m.console

namespace Machine.Alike

variable {W : World} {m m' : Machine} {i : ScopeId} {d : Nat}

theorem own? (h : m.Alike L W m') (i : ScopeId) (x : String) :
    Option.Rel (Value.Alike L W m.scopes.all.size) (m.scopes.own? i x)
      (m'.scopes.own? i (W i 0 x)) := by
  rw [Scopes.own?_eq_lookup, Scopes.own?_eq_lookup]
  exact (h.bindings i).lookup x

theorem ancestor? (h : m.Alike L W m') (i : ScopeId) (d : Nat) :
    m'.scopes.ancestor? i d = m.scopes.ancestor? i d := by
  induction d generalizing i with
  | zero => rfl
  | succ d ih =>
    rw [Scopes.ancestor?, Scopes.ancestor?, h.parent]
    cases m.scopes.parent? i with
    | none => rfl
    | some p => exact ih p

/-- Seen from a scope, the names of the scope at a distance are renamed as they are there. -/
theorem renaming_eq (h : m.Alike L W m') {a : ScopeId} (ha : m.scopes.ancestor? i d = some a) :
    W i d = W a 0 := by
  induction d generalizing i with
  | zero =>
    cases ha
    rfl
  | succ d ih =>
    rw [Scopes.ancestor?] at ha
    cases hp : m.scopes.parent? i with
    | none =>
      rw [hp] at ha
      cases ha
    | some p =>
      rw [hp] at ha
      rw [h.chain i p hp]
      exact ih ha

theorem set (h : m.Alike L W m') {i : ScopeId} {x x' : String} {v v' : Value}
    (hx : x' = W i 0 x) (hv : v.Alike L W m.scopes.all.size v') :
    Machine.Alike L W { m with scopes := m.scopes.set i x v }
      { m' with scopes := m'.scopes.set i x' v' } where
  size := by
    rw [Scopes.size_set, Scopes.size_set]
    exact h.size
  parent := fun j => by
    rw [Scopes.parent?_set, Scopes.parent?_set]
    exact h.parent j
  globals := h.globals
  renames := h.renames
  chain := fun j p hp => by
    rw [Scopes.parent?_set] at hp
    exact h.chain j p hp
  bindings := by
    intro j
    rw [Scopes.size_set, Scopes.bindings_set, Scopes.bindings_set, h.size]
    by_cases hj : i = j ∧ j < m.scopes.all.size
    · rw [if_pos hj, if_pos hj, hx, hj.1]
      exact (h.bindings j).setBinding x hv
    · rw [if_neg hj, if_neg hj]
      exact h.bindings j
  closures := h.closures
  console := h.console

/-- A new scope inside another one, with a renaming of its own. -/
theorem create (h : m.Alike L W m') {parent : ScopeId} (hp : parent < m.scopes.all.size)
    {ρ : Renaming} (hρ : ∃ k, (L k).renames ρ) :
    Machine.Alike L (W.create m.scopes.all.size parent ρ)
      { m with scopes := (m.scopes.create (some parent)).2 }
      { m' with scopes := (m'.scopes.create (some parent)).2 } where
  size := by
    simp only [Scopes.size_create]
    rw [h.size]
  parent := by
    intro j
    rcases Nat.lt_trichotomy j m.scopes.all.size with hj | rfl | hj
    · rw [Scopes.parent?_create_of_lt hj, Scopes.parent?_create_of_lt (h.size ▸ hj), h.parent]
    · -- the new scope has the same number in both machines
      have hnew : ∀ n, n = m'.scopes.all.size → ∀ hn : parent < n,
          (m'.scopes.create (some parent)).2.parent? n = some ⟨parent, hn⟩ := by
        rintro n rfl hn
        exact Scopes.parent?_create_self hn
      rw [hnew _ h.size.symm hp, Scopes.parent?_create_self hp]
    · rw [Scopes.parent?_create_of_gt hj, Scopes.parent?_create_of_gt (h.size ▸ hj)]
  globals := by
    have hne : globalScope ≠ m.scopes.all.size :=
      Nat.ne_of_lt (Nat.lt_of_le_of_lt (Nat.zero_le _) hp)
    rw [World.create_of_ne hne]
    exact h.globals
  renames := by
    intro j d
    by_cases hj : j = m.scopes.all.size
    · subst hj
      rw [World.create_self]
      cases d with
      | zero => exact hρ
      | succ d => exact h.renames parent d
    · rw [World.create_of_ne hj]
      exact h.renames j d
  chain := by
    intro j p hj d
    rcases Nat.lt_trichotomy j m.scopes.all.size with hlt | rfl | hgt
    · rw [Scopes.parent?_create_of_lt hlt] at hj
      rw [World.create_of_ne (Nat.ne_of_lt hlt),
        World.create_of_ne (Nat.ne_of_lt (Nat.lt_trans p.2 hlt))]
      exact h.chain j p hj d
    · rw [Scopes.parent?_create_self hp] at hj
      cases hj
      rw [World.create_self, World.create_of_ne (Nat.ne_of_lt hp)]
      rfl
    · rw [Scopes.parent?_create_of_gt hgt] at hj
      cases hj
  bindings := by
    intro j
    simp only [Scopes.bindings_create]
    by_cases hj : j = m.scopes.all.size
    · -- the new scope has no bindings yet
      subst hj
      rw [Scopes.bindings_of_le (Nat.le_refl _), Scopes.bindings_of_le (Nat.le_of_eq h.size)]
      exact .nil
    · rw [World.create_of_ne hj]
      refine (h.bindings j).extend (W.extends_create _ parent ρ) ?_
      simp only [Scopes.size_create]
      exact Nat.le_succ _
  closures := h.closures
  console := h.console

end Machine.Alike

end RadixScript
