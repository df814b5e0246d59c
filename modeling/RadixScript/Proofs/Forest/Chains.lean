import Mathlib.Data.Nat.Find
import Mathlib.Order.Bounds.Basic
import RadixScript.Proofs.Scoping.Growth

/-!
# Chains of scopes

The scopes from one outwards are its chain. A name may be bound in several scopes of a chain, and
the binding that counts is the nearest. Here this is said with distances alone: `Scopes.BindsAt`
says at which distances a name is bound, and `Scopes.Reaches` which scopes are looked at. The search
for the owner of a name and the list of the names that can be seen are put into these terms, and so
is everything else that goes outwards step by step.
-/

namespace RadixScript

/-! ## Lists without repetitions -/

section eraseDups

variable {α : Type} [BEq α] [LawfulBEq α]

theorem nodup_eraseDups (l : List α) : l.eraseDups.Nodup := by
  cases l with
  | nil => simp
  | cons a l =>
    rw [List.eraseDups_cons, List.nodup_cons, List.mem_eraseDups]
    exact ⟨by simp, nodup_eraseDups _⟩
termination_by l.length
decreasing_by exact Nat.lt_succ_of_le (List.length_filter_le _ _)

theorem eraseDups_of_nodup {l : List α} (h : l.Nodup) : l.eraseDups = l := by
  induction l with
  | nil => simp
  | cons a l ih =>
    obtain ⟨ha, hl⟩ := List.nodup_cons.mp h
    have hkeep : l.filter (fun b => !b == a) = l := by
      rw [List.filter_eq_self]
      intro b hb
      simpa using fun hba : b = a => ha (hba ▸ hb)
    rw [List.eraseDups_cons, hkeep, ih hl]

theorem eraseDups_concat [DecidableEq α] (l : List α) (a : α) :
    (l ++ [a]).eraseDups = if a ∈ l then l.eraseDups else l.eraseDups ++ [a] := by
  rw [List.eraseDups_append]
  by_cases ha : a ∈ l
  · simp [List.removeAll, ha]
  · simp [List.removeAll, ha, List.eraseDups_cons]

theorem eraseDups_filter (p : α → Bool) (l : List α) :
    (l.filter p).eraseDups = l.eraseDups.filter p := by
  cases l with
  | nil => simp
  | cons a l =>
    -- what follows `a` is filtered first, so this is no induction on the list but on its length
    have ih := eraseDups_filter p (l.filter fun b => !b == a)
    rw [List.eraseDups_cons, List.filter_cons, List.filter_cons]
    by_cases ha : p a
    · rw [if_pos ha, if_pos ha, List.eraseDups_cons, ← ih, List.filter_filter,
        List.filter_filter]
      congr 3
      funext b
      rw [Bool.and_comm]
    · rw [if_neg ha, if_neg ha, ← ih, List.filter_filter]
      congr 1
      apply List.filter_congr
      intro b _
      by_cases hb : b = a
      · simp [hb, ha]
      · simp [hb]
termination_by l.length
decreasing_by exact Nat.lt_succ_of_le (List.length_filter_le _ _)

end eraseDups

namespace Scopes

variable {s : Scopes} {i a o : ScopeId} {x : String} {v : Value} {d e : Nat}

/-- The scope at a distance outwards binds the name itself. -/
def BindsAt (s : Scopes) (i : ScopeId) (x : String) (d : Nat) : Prop :=
  ∃ a, s.ancestor? i d = some a ∧ s.Binds a x

/-- The way outwards leads to `o`, and no scope before `o` binds the name. -/
def Reaches (s : Scopes) (i : ScopeId) (x : String) (o : ScopeId) : Prop :=
  ∃ d, s.ancestor? i d = some o ∧ ∀ e < d, ¬ s.BindsAt i x e

/-- Of the scopes on the way outwards that bind the name themselves, `o` is the nearest. -/
def Nearest (s : Scopes) (i : ScopeId) (x : String) (o : ScopeId) : Prop :=
  s.Reaches i x o ∧ s.Binds o x

/-- The scopes from one outwards. -/
def chain (s : Scopes) (i : ScopeId) : List ScopeId :=
  match s.parent? i with
  | none => [i]
  | some ⟨p, _⟩ => i :: s.chain p
termination_by i

/-- The names that a scope binds itself, in their order. -/
def ownNames (s : Scopes) (i : ScopeId) : List String := ((s.scope? i).map (·.names)).getD []

theorem mem_ownNames : x ∈ s.ownNames i ↔ s.Binds i x := by
  rw [ownNames, Binds, own?]
  cases s.scope? i with
  | none => simp
  | some c => simp [Scope.names, Scope.get?, List.lookup_isSome_iff]

/-! ## Distances -/

@[simp] theorem ancestor?_zero (s : Scopes) (i : ScopeId) : s.ancestor? i 0 = some i := rfl

theorem ancestor?_succ (s : Scopes) (i : ScopeId) (d : Nat) :
    s.ancestor? i (d + 1) = (s.parent? i).bind (s.ancestor? ·.1 d) := by
  rw [ancestor?]
  cases s.parent? i <;> rfl

theorem bindsAt_zero : s.BindsAt i x 0 ↔ s.Binds i x := by
  simp [BindsAt]

theorem bindsAt_succ :
    s.BindsAt i x (d + 1) ↔ ∃ p, s.parent? i = some p ∧ s.BindsAt p x d := by
  simp only [BindsAt, ancestor?_succ, Option.bind_eq_some_iff]
  tauto

/-- The chain lists the ancestors by their distances. -/
theorem getElem?_chain (s : Scopes) (i : ScopeId) (d : Nat) :
    (s.chain i)[d]? = s.ancestor? i d := by
  fun_induction chain s i generalizing d with
  | case1 i hp => cases d <;> simp [ancestor?_succ, hp]
  | case2 i p hlt hp ih => cases d <;> simp [ancestor?_succ, hp, ih]

theorem exists_ancestor?_of_le (h : s.ancestor? i d = some a) (he : e ≤ d) :
    ∃ b, s.ancestor? i e = some b := by
  rw [← getElem?_chain] at h
  obtain ⟨hd, -⟩ := List.getElem?_eq_some_iff.mp h
  exact ⟨(s.chain i)[e], by rw [← getElem?_chain, List.getElem?_eq_getElem]⟩

/-- A name is bound at some distance if a scope of the chain binds it. -/
theorem exists_bindsAt_iff : (∃ d, s.BindsAt i x d) ↔ ∃ a ∈ s.chain i, s.Binds a x := by
  simp only [BindsAt, List.mem_iff_getElem?, getElem?_chain]
  tauto

/-- Where a name is bound at all, there is a least distance at which it is. -/
theorem exists_isLeast_bindsAt (h : s.BindsAt i x d) : ∃ e, IsLeast {d | s.BindsAt i x d} e := by
  classical
  have hex : ∃ e, s.BindsAt i x e := ⟨d, h⟩
  exact ⟨Nat.find hex, Nat.find_spec hex, fun e he => Nat.find_min' hex he⟩

/-! ## The nearest scope -/

/-- A scope is reached at once, or from the parent of a scope that does not bind the name. -/
theorem reaches_iff :
    s.Reaches i x o ↔
      i = o ∨ ¬ s.Binds i x ∧ ∃ p, s.parent? i = some p ∧ s.Reaches p x o := by
  constructor
  · rintro ⟨d, ho, hfree⟩
    cases d with
    | zero => exact Or.inl (Option.some.inj ho)
    | succ d =>
      rw [ancestor?_succ, Option.bind_eq_some_iff] at ho
      obtain ⟨p, hp, ho⟩ := ho
      refine Or.inr ⟨fun hb => hfree 0 (Nat.succ_pos d) (bindsAt_zero.mpr hb), p, hp, d, ho, ?_⟩
      intro e he hb
      exact hfree (e + 1) (Nat.succ_lt_succ he) (bindsAt_succ.mpr ⟨p, hp, hb⟩)
  · rintro (rfl | ⟨hfree, p, hp, d, ho, hd⟩)
    · exact ⟨0, rfl, fun e he => absurd he (Nat.not_lt_zero e)⟩
    · refine ⟨d + 1, by rw [ancestor?_succ, hp]; exact ho, fun e he hb => ?_⟩
      cases e with
      | zero => exact hfree (bindsAt_zero.mp hb)
      | succ e =>
        obtain ⟨q, hq, hb⟩ := bindsAt_succ.mp hb
        rw [hp, Option.some.injEq] at hq
        subst hq
        exact hd e (Nat.lt_of_succ_lt_succ he) hb

theorem nearest_of_binds (hb : s.Binds i x) : s.Nearest i x o ↔ i = o := by
  rw [Nearest, reaches_iff]
  constructor
  · rintro ⟨rfl | ⟨hfree, -⟩, -⟩
    · rfl
    · exact absurd hb hfree
  · rintro rfl
    exact ⟨Or.inl rfl, hb⟩

theorem nearest_of_not_binds (hb : ¬ s.Binds i x) :
    s.Nearest i x o ↔ ∃ p, s.parent? i = some p ∧ s.Nearest p x o := by
  rw [Nearest, reaches_iff]
  constructor
  · rintro ⟨rfl | ⟨-, p, hp, hr⟩, ho⟩
    · exact absurd ho hb
    · exact ⟨p, hp, hr, ho⟩
  · rintro ⟨p, hp, hr, ho⟩
    exact ⟨Or.inr ⟨hb, p, hp, hr⟩, ho⟩

/-- The search for the owner of a name ends at the nearest scope that binds it. -/
theorem owner?_eq_some_iff : s.owner? i x = some o ↔ s.Nearest i x o := by
  fun_induction owner? s i x with
  | case1 i v hv => rw [nearest_of_binds (by simp [Binds, hv]), Option.some.injEq]
  | case2 i hv hp => simp [nearest_of_not_binds, Binds, hv, hp]
  | case3 i hv p hlt hp ih => simp [nearest_of_not_binds, Binds, hv, hp, ih]

theorem Nearest.unique {o' : ScopeId} (h : s.Nearest i x o) (h' : s.Nearest i x o') : o = o' :=
  Option.some.inj ((owner?_eq_some_iff.mpr h).symm.trans (owner?_eq_some_iff.mpr h'))

/-- The nearest scope lies at the least distance at which the name is bound. -/
theorem nearest_iff_isLeast :
    s.Nearest i x o ↔ ∃ d, IsLeast {d | s.BindsAt i x d} d ∧ s.ancestor? i d = some o := by
  constructor
  · rintro ⟨⟨d, ho, hfree⟩, hb⟩
    exact ⟨d, ⟨⟨o, ho, hb⟩, fun e he => Nat.le_of_not_lt fun hlt => hfree e hlt he⟩, ho⟩
  · rintro ⟨d, ⟨⟨a, ha, hb⟩, hmin⟩, ho⟩
    obtain rfl : a = o := Option.some.inj (ha.symm.trans ho)
    exact ⟨⟨d, ho, fun e he hbe => absurd (hmin hbe) (Nat.not_le_of_lt he)⟩, hb⟩

theorem owner?_eq_none_iff : s.owner? i x = none ↔ ∀ d, ¬ s.BindsAt i x d := by
  constructor
  · intro h d hd
    obtain ⟨e, he⟩ := exists_isLeast_bindsAt hd
    obtain ⟨o, ho, -⟩ := he.1
    rw [owner?_eq_some_iff.mpr (nearest_iff_isLeast.mpr ⟨e, he, ho⟩)] at h
    cases h
  · intro h
    cases ho : s.owner? i x with
    | none => rfl
    | some o =>
      obtain ⟨d, hd, -⟩ := nearest_iff_isLeast.mp (owner?_eq_some_iff.mp ho)
      exact absurd hd.1 (h d)

/-! ## The names that can be seen -/

theorem get?_eq_none_iff : s.get? i x = none ↔ ∀ d, ¬ s.BindsAt i x d := by
  rw [← owner?_eq_none_iff, get?_eq_owner?]
  cases ho : s.owner? i x with
  | none => simp
  | some o =>
    have hb : (s.own? o x).isSome = true := binds_of_owner? ho
    simpa using Option.ne_none_iff_isSome.mpr hb

theorem contains_eq (s : Scopes) (i : ScopeId) (x : String) :
    s.contains i x = (s.get? i x).isSome := by
  fun_induction contains s i x with
  | case1 i v hv => simp [get?, hv]
  | case2 i hv hp => simp [get?, hv, hp]
  | case3 i hv p hlt hp ih => rw [get?, hv, hp, ih]

/-- The names that can be seen are those of the chain, scope by scope, without the repetitions. -/
theorem names_eq_eraseDups (h : ∀ a, (s.ownNames a).Nodup) (i : ScopeId) :
    s.names i = ((s.chain i).flatMap s.ownNames).eraseDups := by
  fun_induction names s i with
  | case1 i own hp =>
    rw [chain, hp]
    dsimp only
    rw [List.flatMap_singleton]
    exact (eraseDups_of_nodup (h i)).symm
  | case2 i own p hlt hp ih =>
    rw [chain, hp]
    dsimp only
    rw [List.flatMap_cons, List.eraseDups_append, eraseDups_of_nodup (h i), ih, List.removeAll,
      eraseDups_filter]
    rfl

end Scopes

end RadixScript
