import RadixScript.Proofs.Forest.Updates
import RadixScript.Run.Eval

/-!
# Writing names

A binding is seen by many scopes: by its own and by all those from which the way outwards reaches it
before any other binding of the name. Writing it changes what these scopes read under the name, and
nothing else (`Scopes.get?_set_of_reaches`, `Scopes.get?_set_of_not`). Both ways to assign and every
definition come down to that, and an update that is refused leaves the machine as it was
(`Scopes.updates_exact`).
-/

namespace RadixScript

/-! ## Updates as steps of the machine -/

namespace Update

/-- Carries the update out on a machine. -/
def perform : Update → Run Unit
  | create parent? => modify fun m => { m with scopes := (m.scopes.create parent?).2 }
  | define i x v => do
    Run.lift (x.check v)
    Run.store (fun _ => .ok i) x.text v
  | assign i x v => Run.store (·.assignee i x) x.text v
  | assignAt i distance x v => Run.store (·.assigneeAt i distance x) x.text v

/-- A running program defines and assigns by such updates. -/
theorem defineName_eq_perform (env : ScopeId) (name : Token) (v : Value) :
    defineName env name v = (define env (.ofToken name) v).perform := rfl

theorem assignName_eq_perform (env : ScopeId) (name : Token) (v : Value) (tag : Option Nat) :
    assignName env name v tag =
      match tag with
      | some d => (assignAt env d (.ofToken name) v).perform
      | none => (assign globalScope (.ofToken name) v).perform := by
  cases tag <;> rfl

/-- An update changes the scopes of a machine as a whole or not at all. -/
theorem perform_eq (u : Update) (m : Machine) :
    u.perform m =
      match u.apply m.scopes with
      | .ok s' => .ok () { m with scopes := s' }
      | .error f => .error f m := by
  cases u with
  | create parent? => rfl
  | define i x v =>
    simp only [perform, apply, Scopes.define, bind, EStateM.bind, Except.bind]
    cases x.check v with
    | ok _ => exact Run.store_eq _ _ _ m
    | error f => rfl
  | assign i x v =>
    simp only [perform, apply, Scopes.assign, Run.store_eq, bind, Except.bind]
    cases m.scopes.assignee i x <;> rfl
  | assignAt i d x v =>
    simp only [perform, apply, Scopes.assignAt, Run.store_eq, bind, Except.bind]
    cases m.scopes.assigneeAt i d x <;> rfl

/-- An update that succeeds has its effect on the scopes, and on nothing else of the machine. -/
theorem perform_eq_ok_iff {u : Update} {m m' : Machine} :
    u.perform m = .ok () m' ↔
      ∃ s', u.apply m.scopes = .ok s' ∧ u.Effect m.scopes s' ∧ m' = { m with scopes := s' } := by
  rw [perform_eq]
  cases hu : u.apply m.scopes with
  | ok s' =>
    constructor
    · rintro ⟨⟩
      exact ⟨s', rfl, apply_eq_ok_iff.mp hu, rfl⟩
    · rintro ⟨t, ⟨⟩, -, rfl⟩
      rfl
  | error f => simp

theorem perform_eq_error_iff {u : Update} {m m' : Machine} {f : Fault} :
    u.perform m = .error f m' ↔ u.Refused m.scopes f ∧ m' = m := by
  rw [perform_eq, ← apply_eq_error_iff]
  cases u.apply m.scopes with
  | ok s' => simp
  | error g => simp [eq_comm]

end Update

namespace Scopes

variable {s : Scopes} {i o t : ScopeId} {x y : String} {v : Value}

/-! ## Writing a binding -/

theorem reaches_self (s : Scopes) (i : ScopeId) (x : String) : s.Reaches i x i :=
  reaches_iff.mpr (Or.inl rfl)

theorem owner?_of_binds (h : s.Binds i x) : s.owner? i x = some i :=
  owner?_eq_some_iff.mpr ⟨reaches_self s i x, h⟩

/-- After a name is written in a scope, the scope owns it wherever it is reached. -/
theorem owner?_set_of_reaches (hi : i < s.all.size) (h : s.Reaches t x i) :
    (s.set i x v).owner? t x = some i := by
  fun_induction owner? s t x with
  | case1 t w hw =>
    rcases reaches_iff.mp h with rfl | ⟨hn, -⟩
    · exact owner?_of_binds (binds_set_self hi)
    · exact absurd (by rw [Binds, hw]; rfl) hn
  | case2 t hn hp =>
    rcases reaches_iff.mp h with rfl | ⟨-, p, hp', -⟩
    · exact owner?_of_binds (binds_set_self hi)
    · simp [hp] at hp'
  | case3 t hn p hlt hp ih =>
    -- the scope is reached from itself even if it did not bind the name before
    by_cases ht : t = i
    · rw [ht]
      exact owner?_of_binds (binds_set_self hi)
    · obtain ⟨-, q, hq, hr⟩ := (reaches_iff.mp h).resolve_left ht
      obtain rfl : ⟨p, hlt⟩ = q := Option.some.inj (hp.symm.trans hq)
      rw [owner?, own?_set_of_ne (Ne.symm ht), hn, parent?_set, hp]
      exact ih hr

theorem own?_set_of_not {j : ScopeId} (h : ¬ (y = x ∧ j = i)) :
    (s.set i x v).own? j y = s.own? j y := by
  by_cases hij : i = j
  · have hy : y ≠ x := fun hy => h ⟨hy, hij.symm⟩
    rw [own?, own?, scope?_set, if_pos hij]
    cases s.scope? j with
    | none => rfl
    | some c => exact (Scope.lookup_setBinding x y v c.bindings).trans (if_neg hy)
  · exact own?_set_of_ne hij

/-- Another name, or a name sought from where the scope is not reached, is found where it was. -/
theorem owner?_set_of_not (h : ¬ (y = x ∧ s.Reaches t x i)) :
    (s.set i x v).owner? t y = s.owner? t y := by
  have hown : ∀ {t}, ¬ (y = x ∧ s.Reaches t x i) → (s.set i x v).own? t y = s.own? t y := by
    intro t h
    refine own?_set_of_not ?_
    rintro ⟨hy, rfl⟩
    exact h ⟨hy, reaches_self s t x⟩
  fun_induction owner? s t y with
  | case1 t w hw => rw [owner?, hown h, hw]
  | case2 t hn hp => rw [owner?, hown h, hn, parent?_set, hp]
  | case3 t hn p hlt hp ih =>
    rw [owner?, hown h, hn, parent?_set, hp]
    refine ih ?_
    rintro ⟨rfl, hr⟩
    have hb : ¬ s.Binds t y := by simp [Binds, hn]
    exact h ⟨rfl, reaches_iff.mpr (Or.inr ⟨hb, ⟨p, hlt⟩, hp, hr⟩)⟩

theorem get?_set_of_reaches (hi : i < s.all.size) (h : s.Reaches t x i) :
    (s.set i x v).get? t x = some v := by
  rw [get?_eq_owner?, owner?_set_of_reaches hi h, Option.bind_some, own?_set_self hi, if_pos rfl]

theorem get?_set_of_not (h : ¬ (y = x ∧ s.Reaches t x i)) :
    (s.set i x v).get? t y = s.get? t y := by
  rw [get?_eq_owner?, get?_eq_owner?, owner?_set_of_not h]
  cases ho : s.owner? t y with
  | none => rfl
  | some o =>
    refine own?_set_of_not ?_
    rintro ⟨rfl, rfl⟩
    exact h ⟨rfl, (owner?_eq_some_iff.mp ho).1⟩

/-! ## What is seen of a write -/

/-- The scopes `s'` are `s` with a name written in the scope `o`. Those who see `o` read the value
under this name; all other reads, the other scopes and all parents are as before. -/
structure Written (s : Scopes) (o : ScopeId) (x : String) (v : Value) (sees : ScopeId → Prop)
    (s' : Scopes) : Prop where
  seen : ∀ t (y : Name), y.text = x → sees t → s'.get t y = .ok v
  unseen : ∀ t (y : Name), ¬ (y.text = x ∧ sees t) → s'.get t y = s.get t y
  others : ∀ t ≠ o, s'.scope? t = s.scope? t
  parents : ∀ t, s'.parent? t = s.parent? t

theorem written_set (hi : i < s.all.size) (x : String) (v : Value) :
    s.Written i x v (s.Reaches · x i) (s.set i x v) where
  seen := by
    rintro t y rfl hr
    rw [get, get?_set_of_reaches hi hr]
  unseen := by
    intro t y h
    rw [get, get?_set_of_not h, get]
  others := by
    intro t ht
    rw [scope?_set, if_neg ht.symm]
  parents := fun t => parent?_set s i t x v

/-- A binding that is there already is seen by those whose nearest one it is. -/
theorem written_set_of_binds (h : s.Binds o x) (v : Value) :
    s.Written o x v (s.Nearest · x o) (s.set o x v) := by
  have hsees : (s.Nearest · x o) = (s.Reaches · x o) := by
    funext t
    exact propext (and_iff_left h)
  rw [hsees]
  exact written_set (lt_size_of_binds h) x v

theorem nearest_set_iff (hi : i < s.all.size) :
    (s.set i x v).Nearest t x i ↔ s.Reaches t x i := by
  rw [← owner?_eq_some_iff]
  constructor
  · intro ho
    by_contra hr
    rw [owner?_set_of_not fun h => hr h.2] at ho
    exact hr (owner?_eq_some_iff.mp ho).1
  · exact owner?_set_of_reaches hi

/-- **An update changes what is seen through one binding.** In every forest of scopes,

* an assignment that succeeds is an assignment at the least distance at which the name is bound. It
  is seen from where the name has the same owner, and all scopes have the names they had, in the
  same order;
* a definition of a value of the language succeeds. It is seen from where the way outwards reaches
  the scope before any other binding of the name, which is exactly where the name now belongs to the
  scope;
* an update succeeds on a machine if and only if it succeeds on its scopes, and then it has its
  effect on these and leaves the rest of the machine as it was;
* an update fails on a machine if and only if it is refused, and then it leaves the machine as it
  was. -/
theorem updates_exact (s : Scopes) :
    (∀ i x v s', s.assign i x v = .ok s' →
      ∃ d o, IsLeast {d | s.BindsAt i x.text d} d ∧ s.ancestor? i d = some o ∧
        s.assignAt i d x v = .ok s' ∧ s.Written o x.text v (s.Nearest · x.text o) s' ∧
        ∀ t, s'.ownNames t = s.ownNames t) ∧
    (∀ i < s.all.size, ∀ x v k, v.kind = .ok k →
      ∃ s', s.define i x v = .ok s' ∧ s.Written i x.text v (s.Reaches · x.text i) s' ∧
        ∀ t, s'.Nearest t x.text i ↔ s.Reaches t x.text i) ∧
    (∀ (u : Update) (m m' : Machine), u.perform m = .ok () m' ↔
      ∃ s', u.apply m.scopes = .ok s' ∧ u.Effect m.scopes s' ∧ m' = { m with scopes := s' }) ∧
    ∀ (u : Update) (m m' : Machine) (f : Fault),
      u.perform m = .error f m' ↔ u.Refused m.scopes f ∧ m' = m := by
  refine ⟨?_, ?_, fun u m m' => Update.perform_eq_ok_iff,
    fun u m m' f => Update.perform_eq_error_iff⟩
  · intro i x v s' h
    cases Update.apply_eq_ok_iff.mp (show (Update.assign i x v).apply s = .ok s' from h) with
    | assign ho =>
      obtain ⟨d, hd, hod⟩ := nearest_iff_isLeast.mp ho
      exact ⟨d, _, hd, hod, (Update.Effect.assignAt hod ho.2).apply_eq,
        written_set_of_binds ho.2 v, ownNames_set_of_binds ho.2⟩
  · intro i hi x v k hv
    exact ⟨s.set i x.text v, (Update.Effect.define hv).apply_eq, written_set hi x.text v,
      fun t => nearest_set_iff hi⟩

/-! ## A shared binding -/

namespace Sharing

/-- A scope with a name, two scopes inside it of which the second shadows the name, and one inside
the first of them. -/
def forest : Scopes :=
  ⟨#[⟨none, [("x", .int 1)]⟩, ⟨some 0, []⟩, ⟨some 0, [("x", .int 2)]⟩, ⟨some 1, []⟩]⟩

/-- The name that is shared. -/
def shared : Name := .ofText "x"

theorem owners : forest.owner? 3 "x" = some 0 ∧ forest.owner? 1 "x" = some 0 ∧
    forest.owner? 2 "x" = some 2 := by
  simp [owner?, own?, parent?, scope?, forest, Scope.get?]

theorem get_shadowing : forest.get 2 shared = .ok (.int 2) := by
  have hget : forest.get? 2 "x" = some (.int 2) := by
    rw [get?_eq_owner?, owners.2.2]
    rfl
  simp [get, shared, Name.ofText, hget]

/-- What is assigned from the innermost scope is seen from the one around it, and what is defined
there is seen from the innermost one. The scope that shadows the name sees neither. -/
theorem shared_updates_exact :
    (∃ s', forest.assign 3 shared (.int 5) = .ok s' ∧ s'.get 1 shared = .ok (.int 5) ∧
      s'.get 2 shared = .ok (.int 2)) ∧
    ∃ s', forest.define 1 shared .null = .ok s' ∧ s'.get 3 shared = .ok .null ∧
      s'.get 2 shared = .ok (.int 2) := by
  obtain ⟨hinner, haround, hshadowing⟩ := owners
  rw [owner?_eq_some_iff] at hinner haround hshadowing
  have hassign := (Update.Effect.assign (v := .int 5) (x := shared) hinner).apply_eq
  constructor
  · obtain ⟨d, o, hd, hod, -, hw, -⟩ := (updates_exact forest).1 3 shared (.int 5) _ hassign
    obtain rfl : o = 0 := (nearest_iff_isLeast.mpr ⟨d, hd, hod⟩).unique hinner
    refine ⟨_, hassign, hw.seen 1 shared rfl haround, (hw.unseen 2 shared ?_).trans get_shadowing⟩
    rintro ⟨-, hn⟩
    exact absurd (hn.unique hshadowing) (by decide)
  · obtain ⟨s', hs, hw, -⟩ := (updates_exact forest).2.1 1 (by decide) shared .null .null rfl
    refine ⟨s', hs, hw.seen 3 shared rfl ?_, (hw.unseen 2 shared ?_).trans get_shadowing⟩
    · exact reaches_iff.mpr (Or.inr ⟨Bool.false_ne_true, ⟨1, by decide⟩, rfl, reaches_self _ _ _⟩)
    · rintro ⟨-, hr⟩
      rcases reaches_iff.mp hr with h | ⟨hn, -⟩
      · exact absurd h (by decide)
      · exact hn rfl

end Sharing

end Scopes

end RadixScript
