import Mathlib.Data.Set.Card
import Mathlib.Tactic.TFAE
import RadixScript.Proofs.Forest.Updates
import RadixScript.Proofs.Scoping.Steps

/-!
# Reading names

A name can be asked for, looked up as an item, tested for, found in the list of the names that can
be seen, and read at a distance. Each of these goes outwards on its own. In every forest that
updates can build they agree: they all find the binding at the least distance at which there is one,
and they all fail when there is none (`Scopes.reads_coherent`). The list has the names of the inner
scopes first, those of each scope in the order in which they were defined.
-/

namespace RadixScript

namespace Scopes

variable {s : Scopes} {i a : ScopeId} {x : Name} {y : String} {v : Value} {d e : Nat}

/-- Every way of reading the name finds the value `v`, which is bound at the distance `d` and not
nearer. The name is listed once. -/
structure ReadsAt (s : Scopes) (i : ScopeId) (x : Name) (d : Nat) (v : Value) : Prop where
  getAt : s.getAt i d x = .ok v
  get : s.get i x = .ok v
  getD : ∀ default, s.getD i x default = v
  item : s.item i x.text = .ok v
  items : ∀ w, (x.text, w) ∈ s.items i ↔ w = v
  once : (s.names i).count x.text = 1
  nearer : ∀ e < d, s.getAt i e x = .error x.undefined

/-! ## Reading along the chain -/

theorem get_eq_ok_iff : s.get i x = .ok v ↔ s.get? i x.text = some v := by
  rw [get]
  cases s.get? i x.text <;> simp

theorem item_eq_ok_iff : s.item i y = .ok v ↔ s.get? i y = some v := by
  have hget : s.get i (.ofText y) = .ok v ↔ s.get? i y = some v := get_eq_ok_iff
  rw [← hget, item]
  cases s.get i (.ofText y) <;> simp

theorem mem_items : (y, v) ∈ s.items i ↔ y ∈ s.names i ∧ s.get? i y = some v := by
  simp only [items, List.mem_filterMap, Option.map_eq_some_iff, Prod.mk.injEq]
  constructor
  · rintro ⟨z, hz, w, hw, rfl, rfl⟩
    exact ⟨hz, hw⟩
  · rintro ⟨hy, hv⟩
    exact ⟨y, hy, v, hv, rfl, rfl⟩

theorem getAt_eq_error (ha : s.ancestor? i d = some a) (hb : ¬ s.Binds a x.text) :
    s.getAt i d x = .error x.undefined := by
  have hn := Option.not_isSome_iff_eq_none.mp hb
  simp only [getAt, ancestor_eq_ok ha, bind, Except.bind, hn]
  rfl

/-- Reading goes to the least distance at which the name is bound. -/
theorem exists_get?_of_isLeast (h : IsLeast {d | s.BindsAt i y d} d) :
    ∃ a v, s.ancestor? i d = some a ∧ s.own? a y = some v ∧ s.get? i y = some v := by
  obtain ⟨a, ha, hb⟩ := h.1
  obtain ⟨v, hv⟩ := Option.isSome_iff_exists.mp hb
  have ho := owner?_eq_some_iff.mpr (nearest_iff_isLeast.mpr ⟨d, h, ha⟩)
  exact ⟨a, v, ha, hv, by rw [get?_eq_owner?, ho]; exact hv⟩

theorem exists_get?_iff : (∃ v, s.get? i y = some v) ↔ ∃ d, s.BindsAt i y d := by
  rw [← Option.ne_none_iff_exists', Ne, get?_eq_none_iff]
  push Not
  rfl

/-! ## Lists of names -/

section names

variable (hs : ∀ a, (s.ownNames a).Nodup)
include hs

theorem nodup_names (i : ScopeId) : (s.names i).Nodup := by
  rw [names_eq_eraseDups hs]
  exact nodup_eraseDups _

theorem mem_names : y ∈ s.names i ↔ ∃ d, s.BindsAt i y d := by
  simp only [names_eq_eraseDups hs, List.mem_eraseDups, List.mem_flatMap, mem_ownNames,
    exists_bindsAt_iff]

theorem count_eq_ncard (i : ScopeId) : s.count i = {y | ∃ d, s.BindsAt i y d}.ncard := by
  have hset : {y | ∃ d, s.BindsAt i y d} = ((s.names i).toFinset : Set String) := by
    ext y
    simp [mem_names hs]
  rw [hset, Set.ncard_coe_finset, List.toFinset_card_of_nodup (nodup_names hs i), count]

theorem readsAt_of_isLeast (h : IsLeast {d | s.BindsAt i x.text d} d) :
    ∃ v, s.ReadsAt i x d v := by
  obtain ⟨a, v, ha, hv, hget⟩ := exists_get?_of_isLeast h
  have hmem : x.text ∈ s.names i := (mem_names hs).mpr ⟨d, h.1⟩
  refine ⟨v, getAt_eq_ok ha hv, get_eq_ok_iff.mpr hget, fun w => by rw [getD, hget]; rfl,
    item_eq_ok_iff.mpr hget, fun w => ?_, ?_, fun e he => ?_⟩
  · rw [mem_items, hget, Option.some.injEq, eq_comm]
    exact and_iff_right hmem
  · exact List.count_eq_one_of_mem (nodup_names hs i) hmem
  · obtain ⟨b, hb⟩ := exists_ancestor?_of_le ha he.le
    exact getAt_eq_error hb fun hbinds => absurd (h.2 ⟨b, hb, hbinds⟩) (Nat.not_le_of_lt he)

end names

/-- **All ways of reading a name agree.** In every forest that updates have built, from every scope,

* a name can be read, can be seen, is an item and is listed in the same cases, namely if a scope on
  the way outwards binds it itself;
* then the name is listed once, and what is read is the value at the least distance at which the
  name is bound; at the smaller ones it is undefined;
* otherwise a default is what is read;
* as many names are counted as can be read, and they are listed from the inner scopes outwards,
  those of each scope in the order of their first definitions. -/
theorem reads_coherent {us : List Update} {s : Scopes} (h : Built us s) (i : ScopeId) :
    (∀ x : Name,
      [∃ v, s.get i x = .ok v, s.contains i x.text = true, ∃ v, s.item i x.text = .ok v,
        x.text ∈ s.names i, ∃ d, s.BindsAt i x.text d].TFAE ∧
      ((∃ d, s.BindsAt i x.text d) →
        ∃ d v, IsLeast {d | s.BindsAt i x.text d} d ∧ s.ReadsAt i x d v) ∧
      ((¬ ∃ d, s.BindsAt i x.text d) → ∀ default, s.getD i x default = default)) ∧
    s.count i = {y | ∃ d, s.BindsAt i y d}.ncard ∧
    s.names i = ((s.chain i).flatMap (insertionOrder us)).eraseDups := by
  have hs : ∀ a, (s.ownNames a).Nodup := fun a => by
    rw [h.ownNames_eq]
    exact nodup_eraseDups _
  refine ⟨fun x => ⟨?_, ?_, ?_⟩, count_eq_ncard hs i, ?_⟩
  · simp only [get_eq_ok_iff, contains_eq, item_eq_ok_iff, mem_names hs, Option.isSome_iff_exists,
      exists_get?_iff]
    tfae_finish
  · rintro ⟨d, hd⟩
    obtain ⟨e, he⟩ := exists_isLeast_bindsAt hd
    obtain ⟨v, hv⟩ := readsAt_of_isLeast hs he
    exact ⟨e, v, he, hv⟩
  · intro hn w
    rw [getD, get?_eq_none_iff.mpr (not_exists.mp hn)]
    rfl
  · have hown : s.ownNames = insertionOrder us := funext h.ownNames_eq
    rw [names_eq_eraseDups hs, hown]

/-! ## A shadowed name -/

namespace Shadowing

/-- A scope with two names, and another one inside it that shadows the first of them. -/
def updates : List Update :=
  [.create none, .define 0 (.ofText "x") (.int 1), .define 0 (.ofText "z") (.int 2),
    .create (some 0), .define 1 (.ofText "y") .null, .define 1 (.ofText "x") (.int 3)]

def forest : Scopes :=
  ⟨#[⟨none, [("x", .int 1), ("z", .int 2)]⟩, ⟨some 0, [("y", .null), ("x", .int 3)]⟩]⟩

theorem built : Built updates forest :=
  let h₁ := Built.start.step (u := .create none) (by decide)
  let h₂ := h₁.step (u := .define 0 (.ofText "x") (.int 1)) (by decide)
  let h₃ := h₂.step (u := .define 0 (.ofText "z") (.int 2)) (by decide)
  let h₄ := h₃.step (u := .create (some 0)) (by decide)
  let h₅ := h₄.step (u := .define 1 (.ofText "y") .null) (by decide)
  h₅.step (u := .define 1 (.ofText "x") (.int 3)) (by decide)

theorem chain_inner : forest.chain 1 = [1, 0] := by
  simp [chain, parent?, scope?, forest]

theorem shadowed_reads_coherent :
    Built updates forest ∧ forest.ReadsAt 1 (.ofText "x") 0 (.int 3) ∧
      forest.names 1 = ["y", "x", "z"] := by
  have h := reads_coherent built 1
  obtain ⟨d, v, hd, hv⟩ := (h.1 (.ofText "x")).2.1 ⟨0, 1, rfl, rfl⟩
  obtain rfl : d = 0 := Nat.le_zero.mp (hd.2 ⟨1, rfl, rfl⟩)
  obtain rfl : v = .int 3 := Except.ok.inj (hv.getAt.symm.trans rfl)
  refine ⟨built, hv, ?_⟩
  rw [h.2.2, chain_inner]
  decide +kernel

end Shadowing

end Scopes

end RadixScript
