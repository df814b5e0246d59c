import RadixScript.Run.Machine

/-!
# How scopes grow

Scopes are changed in two ways only: a scope is created, or a name is set in one. Neither takes a
name away or moves a scope to another parent. `Scopes.Grows` says so for a whole run, and names the
places where the scopes that were there before may have gained names.
-/

namespace RadixScript

/-! ## One scope -/

theorem Scope.lookup_setBinding (name other : String) (v : Value) (bs : List (String × Value)) :
    (Scope.setBinding name v bs).lookup other =
      if other = name then some v else bs.lookup other := by
  induction bs with
  | nil =>
    rw [Scope.setBinding, List.lookup_cons]
    by_cases h : other = name
    · simp [h]
    · simp [h, beq_eq_false_iff_ne.mpr h]
  | cons b bs ih =>
    obtain ⟨first, old⟩ := b
    rw [Scope.setBinding]
    by_cases hf : first = name
    · rw [if_pos hf, List.lookup_cons, List.lookup_cons, hf]
      by_cases h : other = name
      · simp [h]
      · simp [h, beq_eq_false_iff_ne.mpr h]
    · rw [if_neg hf, List.lookup_cons, List.lookup_cons, ih]
      by_cases h : other = first
      · -- the first binding is in the way of both searches
        have hn : other ≠ name := fun hc => hf (h.symm.trans hc)
        rw [beq_iff_eq.mpr h]
        exact (if_neg hn).symm
      · rw [beq_eq_false_iff_ne.mpr h]

/-- Setting a name keeps its place, or puts it at the end. -/
theorem Scope.map_fst_setBinding (x : String) (v : Value) (bs : List (String × Value)) :
    (Scope.setBinding x v bs).map Prod.fst =
      if x ∈ bs.map Prod.fst then bs.map Prod.fst else bs.map Prod.fst ++ [x] := by
  induction bs with
  | nil => rfl
  | cons b bs ih =>
    obtain ⟨y, u⟩ := b
    rw [Scope.setBinding]
    by_cases hy : y = x
    · simp [hy]
    · have hne : x ≠ y := fun h => hy h.symm
      rw [if_neg hy, List.map_cons, List.map_cons, ih]
      by_cases hx : x ∈ bs.map Prod.fst
      · rw [if_pos hx, if_pos (List.mem_cons_of_mem _ hx)]
      · rw [if_neg hx, if_neg (by simp [hne, hx]), List.cons_append]

namespace Scopes

variable {s s' s'' : Scopes} {i j : ScopeId} {x y : String} {v : Value}

/-- A scope itself binds a name. -/
def Binds (s : Scopes) (i : ScopeId) (x : String) : Prop := (s.own? i x).isSome = true

theorem lt_size_of_binds (h : s.Binds i x) : i < s.all.size := by
  rcases Nat.lt_or_ge i s.all.size with hi | hi
  · exact hi
  · have hn : s.own? i x = none := by simp [own?, scope?, hi]
    rw [Binds, hn] at h
    simp at h

theorem lt_size_of_parent? {p : { p : ScopeId // p < i }} (h : s.parent? i = some p) :
    i < s.all.size := by
  rcases Nat.lt_or_ge i s.all.size with hi | hi
  · exact hi
  · have hn : s.parent? i = none := by simp [parent?, scope?, hi]
    rw [hn] at h
    simp at h

/-! ## Setting a name -/

@[simp] theorem size_set (s : Scopes) (i : ScopeId) (x : String) (v : Value) :
    (s.set i x v).all.size = s.all.size := by
  simp [set]

theorem scope?_set (s : Scopes) (i j : ScopeId) (x : String) (v : Value) :
    (s.set i x v).scope? j =
      if i = j then (s.scope? j).map (·.set x v) else s.scope? j := by
  simp [set, scope?, Array.getElem?_modify]

@[simp] theorem parent?_set (s : Scopes) (i j : ScopeId) (x : String) (v : Value) :
    (s.set i x v).parent? j = s.parent? j := by
  have h : ((s.set i x v).scope? j).bind (·.parent?) = (s.scope? j).bind (·.parent?) := by
    rw [scope?_set]
    by_cases hij : i = j
    · rw [if_pos hij]
      cases s.scope? j <;> rfl
    · rw [if_neg hij]
  simp only [parent?, h]

theorem own?_set_of_ne (h : i ≠ j) : (s.set i x v).own? j y = s.own? j y := by
  rw [own?, scope?_set, if_neg h, own?]

theorem own?_set_self (h : i < s.all.size) :
    (s.set i x v).own? i y = if y = x then some v else s.own? i y := by
  have hs : s.scope? i = some (s.all[i]) := by simp [scope?, h]
  rw [own?, own?, scope?_set, if_pos rfl, hs]
  exact Scope.lookup_setBinding x y v _

/-- What a scope has after a name is set is what it had, or the new value. -/
theorem own?_set_cases {w : Value} (h : (s.set i x v).own? j y = some w) :
    (j = i ∧ y = x ∧ w = v) ∨ s.own? j y = some w := by
  by_cases hij : i = j
  · subst hij
    have hi : i < s.all.size := by
      have hb : (s.set i x v).Binds i y := by rw [Binds, h]; rfl
      simpa using lt_size_of_binds hb
    rw [own?_set_self hi] at h
    by_cases hy : y = x
    · rw [if_pos hy] at h
      exact Or.inl ⟨rfl, hy, (Option.some.inj h).symm⟩
    · rw [if_neg hy] at h
      exact Or.inr h
  · rw [own?_set_of_ne hij] at h
    exact Or.inr h

theorem binds_set_self (h : i < s.all.size) : (s.set i x v).Binds i x := by
  rw [Binds, own?_set_self h, if_pos rfl]
  rfl

theorem binds_set_of_binds (h : s.Binds j y) : (s.set i x v).Binds j y := by
  by_cases hij : i = j
  · subst hij
    rw [Binds, own?_set_self (lt_size_of_binds h)]
    by_cases hy : y = x
    · rw [if_pos hy]; rfl
    · rw [if_neg hy]; exact h
  · rw [Binds, own?_set_of_ne hij]
    exact h

theorem binds_set_cases (h : (s.set i x v).Binds j y) : s.Binds j y ∨ (j = i ∧ y = x) := by
  obtain ⟨w, hw⟩ := Option.isSome_iff_exists.mp h
  rcases own?_set_cases hw with ⟨hj, hy, -⟩ | hs
  · exact Or.inr ⟨hj, hy⟩
  · exact Or.inl (by rw [Binds, hs]; rfl)

/-! ## Creating a scope -/

section create

variable {parent : Option ScopeId}

theorem scope?_create_of_lt (h : j < s.all.size) :
    (s.create parent).2.scope? j = s.scope? j := by
  simp [create, scope?, Array.getElem?_push, Nat.ne_of_lt h]

theorem scope?_create_self (s : Scopes) (parent : Option ScopeId) :
    (s.create parent).2.scope? s.all.size = some ⟨parent, []⟩ := by
  simp [create, scope?]

theorem own?_create (s : Scopes) (parent : Option ScopeId) (j : ScopeId) (y : String) :
    (s.create parent).2.own? j y = s.own? j y := by
  rcases Nat.lt_trichotomy j s.all.size with h | h | h
  · rw [own?, scope?_create_of_lt h, own?]
  · subst h
    -- the new scope binds nothing, and before it was no scope at all
    have hn : s.own? s.all.size y = none := by simp [own?, scope?]
    rw [hn, own?, scope?_create_self]
    rfl
  · have hn : ∀ t : Scopes, t.all.size ≤ j → t.own? j y = none := by
      intro t ht
      simp [own?, scope?, ht]
    rw [hn s (Nat.le_of_lt h), hn _ (by simpa [create] using Nat.succ_le_of_lt h)]

theorem parent?_create_of_lt (h : j < s.all.size) :
    (s.create parent).2.parent? j = s.parent? j := by
  simp only [parent?, scope?_create_of_lt h]

theorem parent?_create_self {p : ScopeId} (h : p < s.all.size) :
    (s.create (some p)).2.parent? s.all.size = some ⟨p, h⟩ := by
  simp only [parent?, scope?_create_self, Option.bind_some]
  rw [dif_pos h]

end create

/-! ## Reading a name -/

/-- A name is read from the scope that an assignment to it would change. -/
theorem get?_eq_owner? (s : Scopes) (i : ScopeId) (x : String) :
    s.get? i x = (s.owner? i x).bind (s.own? · x) := by
  fun_induction owner? s i x with
  | case1 i v hv =>
    rw [get?, hv]
    exact hv.symm
  | case2 i hv hp =>
    rw [get?, hv, hp]
    rfl
  | case3 i hv p hlt hp ih =>
    rw [get?, hv, hp]
    exact ih

theorem binds_of_owner? {o : ScopeId} (h : s.owner? i x = some o) : s.Binds o x := by
  fun_induction owner? s i x with
  | case1 i v hv =>
    cases h
    rw [Binds, hv]
    rfl
  | case2 i hv hp => cases h
  | case3 i hv p hlt hp ih => exact ih h

/-! ## Globals -/

/-- The globals have no parent. -/
@[simp] theorem parent?_globalScope (s : Scopes) : s.parent? globalScope = none := by
  cases h : s.parent? globalScope with
  | none => rfl
  | some p => exact absurd p.2 (Nat.not_lt_zero _)

theorem get?_globalScope (s : Scopes) (x : String) :
    s.get? globalScope x = s.own? globalScope x := by
  rw [get?]
  cases s.own? globalScope x with
  | some v => rfl
  | none => rw [parent?_globalScope]

theorem owner?_globalScope (s : Scopes) (x : String) :
    s.owner? globalScope x = (s.own? globalScope x).map fun _ => globalScope := by
  rw [owner?]
  cases s.own? globalScope x with
  | some v => rfl
  | none =>
    rw [parent?_globalScope]
    rfl

/-! ## Growth -/

/-- No scope loses a name or changes its parent, and a scope that was there before gains a name only
where `gains` allows it. -/
structure Grows (gains : ScopeId → String → Prop) (s s' : Scopes) : Prop where
  size : s.all.size ≤ s'.all.size
  parent : ∀ i < s.all.size, s'.parent? i = s.parent? i
  kept : ∀ i x, s.Binds i x → s'.Binds i x
  gained : ∀ i < s.all.size, ∀ x, s'.Binds i x → s.Binds i x ∨ gains i x

/-- No name is gained. -/
def noGain : ScopeId → String → Prop := fun _ _ => False

/-- Names of a list are gained in one scope. -/
def gainIn (i : ScopeId) (xs : List String) : ScopeId → String → Prop := fun j x => j = i ∧ x ∈ xs

namespace Grows

variable {gains gains' : ScopeId → String → Prop}

theorem refl (s : Scopes) : s.Grows gains s where
  size := Nat.le_refl _
  parent := fun _ _ => rfl
  kept := fun _ _ h => h
  gained := fun _ _ _ h => Or.inl h

theorem trans (h : s.Grows gains s') (h' : s'.Grows gains s'') : s.Grows gains s'' where
  size := Nat.le_trans h.size h'.size
  parent := fun i hi => by rw [h'.parent i (Nat.lt_of_lt_of_le hi h.size), h.parent i hi]
  kept := fun i x hb => h'.kept i x (h.kept i x hb)
  gained := by
    intro i hi x hb
    rcases h'.gained i (Nat.lt_of_lt_of_le hi h.size) x hb with hb' | hg
    · exact h.gained i hi x hb'
    · exact Or.inr hg

theorem weaken (h : s.Grows gains s')
    (hg : ∀ i < s.all.size, ∀ x, gains i x → gains' i x) : s.Grows gains' s' where
  size := h.size
  parent := h.parent
  kept := h.kept
  gained := fun i hi x hb => (h.gained i hi x hb).imp_right (hg i hi x)

theorem of_noGain (h : s.Grows noGain s') : s.Grows gains s' :=
  h.weaken fun _ _ _ hf => hf.elim

/-- What only a new scope gains is no gain. -/
theorem forget {xs : List String} (h : s.Grows (gainIn s.all.size xs) s') : s.Grows noGain s' :=
  h.weaken fun _ hi _ hg => absurd hg.1 (Nat.ne_of_lt hi)

theorem of_set (s : Scopes) (i : ScopeId) {x : String} (v : Value) {xs : List String}
    (hx : x ∈ xs) : s.Grows (gainIn i xs) (s.set i x v) where
  size := by simp
  parent := fun j _ => parent?_set s i j x v
  kept := fun _ _ h => binds_set_of_binds h
  gained := by
    intro j _ y hb
    rcases binds_set_cases hb with hb | ⟨rfl, rfl⟩
    · exact Or.inl hb
    · exact Or.inr ⟨rfl, hx⟩

theorem of_set_of_binds (hx : s.Binds i x) (v : Value) : s.Grows noGain (s.set i x v) where
  size := by simp
  parent := fun j _ => parent?_set s i j x v
  kept := fun _ _ h => binds_set_of_binds h
  gained := by
    intro j _ y hb
    rcases binds_set_cases hb with hb | ⟨rfl, rfl⟩
    · exact Or.inl hb
    · exact Or.inl hx

theorem of_create (s : Scopes) (parent : Option ScopeId) : s.Grows noGain (s.create parent).2 where
  size := by simp [create]
  parent := fun _ hi => parent?_create_of_lt hi
  kept := fun i x h => by rw [Binds, own?_create]; exact h
  gained := fun i _ x h => by rw [Binds, own?_create] at h; exact Or.inl h

end Grows

end Scopes

end RadixScript
