import RadixScript.Proofs.Forest.Chains

/-!
# Updates of a forest

A forest of scopes is built by four updates: a scope is created, a name is defined in a scope, and
a name is assigned to, in the nearest scope that binds it or at a distance. An update can be
refused, and then it changes nothing. `Update.Effect` and `Update.Refused` say what an update does
and when it is refused, in terms of distances.

`Built` goes through the updates in their order. From them alone one can tell the names of every
scope (`Built.ownNames_eq`): they stand in the order in which they were first defined.
-/

namespace RadixScript

/-- An update of the scopes. -/
inductive Update where
  | create (parent? : Option ScopeId)
  | define (i : ScopeId) (x : Name) (v : Value)
  | assign (i : ScopeId) (x : Name) (v : Value)
  | assignAt (i : ScopeId) (distance : Nat) (x : Name) (v : Value)

namespace Scopes

variable {s : Scopes} {i j : ScopeId} {x : String} {v : Value}

/-! ## Names -/

theorem ownNames_set_of_ne (h : i ≠ j) : (s.set i x v).ownNames j = s.ownNames j := by
  rw [ownNames, scope?_set, if_neg h, ownNames]

/-- A name that is new to a scope comes last. -/
theorem ownNames_set_self (h : i < s.all.size) :
    (s.set i x v).ownNames i =
      if x ∈ s.ownNames i then s.ownNames i else s.ownNames i ++ [x] := by
  have hs : s.scope? i = some s.all[i] := by simp [scope?, h]
  rw [ownNames, ownNames, scope?_set, if_pos rfl, hs]
  exact Scope.map_fst_setBinding x v _

theorem ownNames_set_of_binds (h : s.Binds i x) (j : ScopeId) :
    (s.set i x v).ownNames j = s.ownNames j := by
  by_cases hij : i = j
  · subst hij
    rw [ownNames_set_self (lt_size_of_binds h), if_pos (mem_ownNames.mpr h)]
  · exact ownNames_set_of_ne hij

theorem ownNames_create (s : Scopes) (parent : Option ScopeId) (j : ScopeId) :
    (s.create parent).2.ownNames j = s.ownNames j := by
  simp only [ownNames, scope?, create, Array.getElem?_push]
  by_cases hj : j = s.all.size
  · subst hj
    simp [Scope.names]
  · rw [if_neg hj]

end Scopes

namespace Update

variable {s s' : Scopes} {u : Update} {f : Fault}

/-- The scopes that the update is about exist. -/
def Fits (s : Scopes) : Update → Prop
  | create parent? => ∀ p ∈ parent?, p < s.all.size
  | define i _ _ => i < s.all.size
  | assign i _ _ => i < s.all.size
  | assignAt i _ _ _ => i < s.all.size

instance (s : Scopes) : (u : Update) → Decidable (u.Fits s)
  | create parent? => inferInstanceAs (Decidable (∀ p ∈ parent?, p < s.all.size))
  | define i _ _ => inferInstanceAs (Decidable (i < s.all.size))
  | assign i _ _ => inferInstanceAs (Decidable (i < s.all.size))
  | assignAt i _ _ _ => inferInstanceAs (Decidable (i < s.all.size))

/-- Carries the update out. -/
def apply (s : Scopes) : Update → Except Fault Scopes
  | create parent? => .ok (s.create parent?).2
  | define i x v => s.define i x v
  | assign i x v => s.assign i x v
  | assignAt i distance x v => s.assignAt i distance x v

/-- The scopes after the update, which are the same as before when it is refused. -/
def after (s : Scopes) (u : Update) : Scopes :=
  match u.apply s with
  | .ok s' => s'
  | .error _ => s

/-! ## Effects -/

/-- What an update does to the scopes. -/
inductive Effect (s : Scopes) : Update → Scopes → Prop
  | create {parent? : Option ScopeId} : Effect s (.create parent?) (s.create parent?).2
  | define {i : ScopeId} {x : Name} {v : Value} {k : ValueKind} (hv : v.kind = .ok k) :
      Effect s (.define i x v) (s.set i x.text v)
  | assign {i o : ScopeId} {x : Name} {v : Value} (ho : s.Nearest i x.text o) :
      Effect s (.assign i x v) (s.set o x.text v)
  | assignAt {i a : ScopeId} {d : Nat} {x : Name} {v : Value} (ha : s.ancestor? i d = some a)
      (hb : s.Binds a x.text) : Effect s (.assignAt i d x v) (s.set a x.text v)

/-- When an update is refused: a foreign value is defined, no scope binds the name, or the scope at
the distance does not bind it or does not exist. -/
inductive Refused (s : Scopes) : Update → Fault → Prop
  | foreign {i : ScopeId} {x : Name} {v : Value} {type : String} (hv : v.kind = .error type) :
      Refused s (.define i x v) (.foreign (some ("binding " ++ Text.quoted x.text)) type)
  | undefined {i : ScopeId} {x : Name} {v : Value} (hb : ∀ d, ¬ s.BindsAt i x.text d) :
      Refused s (.assign i x v) x.undefined
  | undefinedAt {i a : ScopeId} {d : Nat} {x : Name} {v : Value} (ha : s.ancestor? i d = some a)
      (hb : ¬ s.Binds a x.text) : Refused s (.assignAt i d x v) x.undefined
  | shortChain {i : ScopeId} {d : Nat} {x : Name} {v : Value} (ha : s.ancestor? i d = none) :
      Refused s (.assignAt i d x v) (.shortChain d)

theorem Effect.apply_eq (h : Effect s u s') : u.apply s = .ok s' := by
  cases h with
  | create => rfl
  | define hv =>
    simp [apply, Scopes.define, Name.check, Value.validate, hv, bind, Except.bind, pure,
      Except.pure]
  | assign ho =>
    simp [apply, Scopes.assign, Scopes.assignee, Scopes.owner?_eq_some_iff.mpr ho, bind,
      Except.bind, pure, Except.pure]
  | assignAt ha hb =>
    obtain ⟨w, hw⟩ := Option.isSome_iff_exists.mp hb
    simp [apply, Scopes.assignAt, Scopes.assigneeAt, Scopes.ancestor, ha, hw, bind, Except.bind,
      pure, Except.pure]

theorem Refused.apply_eq (h : Refused s u f) : u.apply s = .error f := by
  cases h with
  | foreign hv => simp [apply, Scopes.define, Name.check, Value.validate, hv, bind, Except.bind]
  | undefined hb =>
    simp [apply, Scopes.assign, Scopes.assignee, Scopes.owner?_eq_none_iff.mpr hb, bind,
      Except.bind]
  | undefinedAt ha hb =>
    have hn := Option.not_isSome_iff_eq_none.mp hb
    simp [apply, Scopes.assignAt, Scopes.assigneeAt, Scopes.ancestor, ha, hn, bind, Except.bind,
      throw, throwThe, MonadExceptOf.throw]
  | shortChain ha =>
    simp [apply, Scopes.assignAt, Scopes.assigneeAt, Scopes.ancestor, ha, bind, Except.bind]

/-- Every update has an effect or is refused. -/
theorem effect_or_refused (s : Scopes) (u : Update) :
    (∃ s', Effect s u s') ∨ ∃ f, Refused s u f := by
  cases u with
  | create parent? => exact Or.inl ⟨_, .create⟩
  | define i x v =>
    cases hv : v.kind with
    | ok k => exact Or.inl ⟨_, .define hv⟩
    | error type => exact Or.inr ⟨_, .foreign hv⟩
  | assign i x v =>
    cases ho : s.owner? i x.text with
    | some o => exact Or.inl ⟨_, .assign (Scopes.owner?_eq_some_iff.mp ho)⟩
    | none => exact Or.inr ⟨_, .undefined (Scopes.owner?_eq_none_iff.mp ho)⟩
  | assignAt i d x v =>
    cases ha : s.ancestor? i d with
    | none => exact Or.inr ⟨_, .shortChain ha⟩
    | some a =>
      by_cases hb : s.Binds a x.text
      · exact Or.inl ⟨_, .assignAt ha hb⟩
      · exact Or.inr ⟨_, .undefinedAt ha hb⟩

theorem apply_eq_ok_iff : u.apply s = .ok s' ↔ Effect s u s' := by
  constructor
  · intro h
    rcases effect_or_refused s u with ⟨t, ht⟩ | ⟨f, hf⟩
    · obtain rfl : t = s' := by simpa [ht.apply_eq] using h
      exact ht
    · simp [hf.apply_eq] at h
  · exact Effect.apply_eq

theorem apply_eq_error_iff : u.apply s = .error f ↔ Refused s u f := by
  constructor
  · intro h
    rcases effect_or_refused s u with ⟨t, ht⟩ | ⟨g, hg⟩
    · simp [ht.apply_eq] at h
    · obtain rfl : g = f := by simpa [hg.apply_eq] using h
      exact hg
  · exact Refused.apply_eq

/-! ## Histories -/

/-- The name that the update defines in the scope, if it does. -/
def definedIn? (i : ScopeId) : Update → Option String
  | define j x v => if j = i ∧ v.kind.isOk then some x.text else none
  | _ => none

/-- A scope gains the name that is defined in it, at the end unless it had the name already. -/
theorem ownNames_after (hfits : u.Fits s) (i : ScopeId) :
    (u.after s).ownNames i =
      match u.definedIn? i with
      | none => s.ownNames i
      | some x => if x ∈ s.ownNames i then s.ownNames i else s.ownNames i ++ [x] := by
  rcases effect_or_refused s u with ⟨s', hs⟩ | ⟨f, hf⟩
  · rw [after, hs.apply_eq]
    cases hs with
    | create => exact Scopes.ownNames_create s _ i
    | @define j x v k hv =>
      by_cases hj : j = i
      · subst hj
        simpa [definedIn?, hv, Except.isOk, Except.toBool] using Scopes.ownNames_set_self hfits
      · simpa [definedIn?, hj] using Scopes.ownNames_set_of_ne hj
    | assign ho => exact Scopes.ownNames_set_of_binds ho.2 i
    | assignAt ha hb => exact Scopes.ownNames_set_of_binds hb i
  · rw [after, hf.apply_eq]
    cases hf with
    | foreign hv => simp [definedIn?, hv, Except.isOk, Except.toBool]
    | undefined | undefinedAt | shortChain => rfl

end Update

/-- The scopes are what the updates, one after the other, have made of nothing. -/
inductive Built : List Update → Scopes → Prop
  | start : Built [] .empty
  | step {us : List Update} {s : Scopes} {u : Update} (h : Built us s) (hu : u.Fits s) :
      Built (us ++ [u]) (u.after s)

/-- The names that the updates define in a scope, in the order of their first definitions. -/
def insertionOrder (us : List Update) (i : ScopeId) : List String :=
  (us.filterMap (Update.definedIn? i)).eraseDups

theorem Built.ownNames_eq {us : List Update} {s : Scopes} (h : Built us s) (i : ScopeId) :
    s.ownNames i = insertionOrder us i := by
  induction h with
  | start => simp [Scopes.ownNames, Scopes.scope?, Scopes.empty, insertionOrder]
  | @step us s u h hu ih =>
    rw [Update.ownNames_after hu, insertionOrder, List.filterMap_append]
    cases hd : u.definedIn? i with
    | none => simpa [hd, insertionOrder] using ih
    | some x =>
      simp only [List.filterMap_cons, List.filterMap_nil, hd, eraseDups_concat]
      rw [ih, insertionOrder]
      simp only [List.mem_eraseDups]

end RadixScript
