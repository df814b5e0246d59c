import Mathlib.Data.List.Forall2
import RadixScript.Proofs.Numerals.Canonical

/-!
# Operands of operations on numerals

An operand is a numeral, or a text that spells one behind its tag (`Radix.Denotes`). An operation
fails exactly when some operand is neither, or when two of them have different bases
(`Radix.Unfit`). Otherwise the operands share one base (`Radix.OfBase`), and what the operation
gives depends on their numerals only.
-/

namespace RadixScript.Radix

variable {operation : RadixOperation} {b : Base} {v w : Value} {vs : List Value} {x y : Numeral}
  {xs : List Numeral}

/-! ## What an operand denotes -/

/-- The value is the numeral, or a text of its tag and its digits in either case. -/
inductive Denotes : Value → Numeral → Prop
  | numeral (x : Numeral) : Denotes (.numeral x) x
  | text {s : String} {x : Numeral} {body : List Char} :
      s.toList = x.base.tag.toList ++ body → Text.upper body = x.digitText.toList →
      Denotes (.text s) x

/-- The value is an operand of the given base. -/
def OfBase (b : Base) (v : Value) : Prop := ∃ x, Denotes v x ∧ x.base = b

/-- Some operand denotes no numeral, or two of them have different bases. -/
def Unfit (vs : List Value) : Prop :=
  (∃ v ∈ vs, ∀ x, ¬ Denotes v x) ∨
    ∃ v ∈ vs, ∃ w ∈ vs, ∃ x y, Denotes v x ∧ Denotes w y ∧ x.base ≠ y.base

theorem numeral?_eq_some_iff : numeral? v = some x ↔ Denotes v x := by
  constructor
  · intro h
    cases v with
    | numeral y =>
      cases h
      exact .numeral x
    | text s =>
      obtain ⟨body, hs, hbody⟩ := Numeral.ofTagged?_eq_some_iff.mp h
      exact .text hs hbody
    | _ => cases h
  · rintro (x | ⟨hs, hbody⟩)
    · rfl
    · exact Numeral.ofTagged?_eq_some_iff.mpr ⟨_, hs, hbody⟩

/-- An operand denotes one numeral only. -/
theorem Denotes.unique (hx : Denotes v x) (hy : Denotes v y) : x = y := by
  rw [← numeral?_eq_some_iff] at hx hy
  exact Option.some.inj (hx.symm.trans hy)

/-- Operands fit when they all have one base. -/
theorem not_unfit_iff (hne : vs ≠ []) : ¬ Unfit vs ↔ ∃ b, ∀ v ∈ vs, OfBase b v := by
  constructor
  · intro h
    have hall : ∀ v ∈ vs, ∃ x, Denotes v x := by
      intro v hv
      by_contra hnone
      exact h (.inl ⟨v, hv, not_exists.mp hnone⟩)
    obtain ⟨v, hv⟩ := List.exists_mem_of_ne_nil vs hne
    obtain ⟨x, hx⟩ := hall v hv
    refine ⟨x.base, fun w hw => ?_⟩
    obtain ⟨y, hy⟩ := hall w hw
    refine ⟨y, hy, ?_⟩
    by_contra hbase
    exact h (.inr ⟨w, hw, v, hv, y, x, hy, hx, hbase⟩)
  · rintro ⟨b, hall⟩ (⟨v, hv, hnone⟩ | ⟨v, hv, w, hw, x, y, hx, hy, hbase⟩)
    · obtain ⟨x, hx, -⟩ := hall v hv
      exact hnone x hx
    · obtain ⟨x', hx', rfl⟩ := hall v hv
      obtain ⟨y', hy', hyb⟩ := hall w hw
      rw [hx.unique hx', hy.unique hy'] at hbase
      exact hbase hyb.symm

/-! ## Reading operands -/

theorem operand_eq_ok_iff : operand operation v = .ok x ↔ Denotes v x := by
  rw [← numeral?_eq_some_iff]
  unfold operand
  split
  · next y hy => rw [hy, Except.ok.injEq, Option.some.injEq]
  · next s hs => simp [hs]
  · next hv => simp [hv]

theorem commonBase_eq_ok_iff :
    commonBase operation xs = .ok b ↔ xs ≠ [] ∧ ∀ x ∈ xs, x.base = b := by
  cases xs with
  | nil => simp [commonBase]
  | cons x xs =>
    rw [commonBase, List.forall_mem_cons]
    by_cases hall : ∀ y ∈ xs, y.base = x.base
    · rw [if_pos (by simpa using hall), Except.ok.injEq]
      constructor
      · rintro rfl
        exact ⟨List.cons_ne_nil x xs, rfl, hall⟩
      · rintro ⟨-, rfl, -⟩
        rfl
    · rw [if_neg (by simpa using hall)]
      constructor
      · nofun
      · rintro ⟨-, rfl, h⟩
        exact absurd h hall

/-- Steps behind each other succeed when each of them does. -/
theorem bind_eq_ok_iff {α β : Type} {e : Except RadixProblem α} {f : α → Except RadixProblem β}
    {z : β} : e >>= f = .ok z ↔ ∃ a, e = .ok a ∧ f a = .ok z := by
  cases e with
  | error p =>
    constructor
    · nofun
    · rintro ⟨a, ha, -⟩
      cases ha
  | ok a =>
    constructor
    · intro h
      exact ⟨a, rfl, h⟩
    · rintro ⟨_, ⟨⟩, h⟩
      exact h

theorem pure_eq_ok_iff {α : Type} {a z : α} : (pure a : Except RadixProblem α) = .ok z ↔ a = z :=
  Except.ok.injEq a z ▸ Iff.rfl

/-- A list of operands is read when each of them is. -/
theorem mapM_operand_eq_ok_iff :
    vs.mapM (operand operation) = .ok xs ↔ List.Forall₂ Denotes vs xs := by
  induction vs generalizing xs with
  | nil =>
    rw [List.mapM_nil, pure_eq_ok_iff, List.forall₂_nil_left_iff]
    exact eq_comm
  | cons v vs ih =>
    simp only [List.mapM_cons, bind_eq_ok_iff, pure_eq_ok_iff, operand_eq_ok_iff, ih,
      List.forall₂_cons_left_iff]
    constructor
    · rintro ⟨x, hx, xs', hxs, rfl⟩
      exact ⟨x, xs', hx, hxs, rfl⟩
    · rintro ⟨x, xs', hx, hxs, rfl⟩
      exact ⟨x, hx, xs', hxs, rfl⟩

/-- Two operands of one base are read with it. -/
theorem operands_eq_ok_iff :
    operands operation v w = .ok (b, x, y) ↔
      (Denotes v x ∧ x.base = b) ∧ Denotes w y ∧ y.base = b := by
  simp only [operands, bind_eq_ok_iff, pure_eq_ok_iff, operand_eq_ok_iff, commonBase_eq_ok_iff]
  constructor
  · rintro ⟨x', hx, y', hy, b', ⟨-, hbase⟩, ⟨⟩⟩
    exact ⟨⟨hx, hbase _ (by simp)⟩, hy, hbase _ (by simp)⟩
  · rintro ⟨⟨hx, hxb⟩, hy, hyb⟩
    exact ⟨x, hx, y, hy, b, ⟨List.cons_ne_nil _ _, by simp [hxb, hyb]⟩, rfl⟩

/-! ## Operations on two operands -/

theorem fails_iff {α : Type} {e : Except RadixProblem α} :
    (∃ p, e = .error p) ↔ ¬ ∃ a, e = .ok a := by
  cases e <;> simp

/-- The operation that reads two operands and combines their numerals. -/
def onPair (operation : RadixOperation) (f : Base → Numeral → Numeral → Numeral) (v w : Value) :
    Except RadixProblem Numeral := do
  let (b, x, y) ← operands operation v w
  pure (f b x y)

variable {f : Base → Numeral → Numeral → Numeral}

theorem onPair_of_denotes (hx : Denotes v x) (hy : Denotes w y) (hb : x.base = y.base) :
    onPair operation f v w = .ok (f x.base x y) := by
  rw [onPair, operands_eq_ok_iff.mpr ⟨⟨hx, rfl⟩, hy, hb.symm⟩]
  rfl

theorem onPair_fails_iff : (∃ p, onPair operation f v w = .error p) ↔ Unfit [v, w] := by
  rw [fails_iff, ← not_iff_not, not_not, not_unfit_iff (List.cons_ne_nil v [w])]
  simp only [onPair, bind_eq_ok_iff, pure_eq_ok_iff, Prod.exists, operands_eq_ok_iff,
    List.forall_mem_cons]
  constructor
  · rintro ⟨_, b, x, y, ⟨hx, hy⟩, -⟩
    exact ⟨b, ⟨x, hx⟩, ⟨y, hy⟩, List.forall_mem_nil _⟩
  · rintro ⟨b, ⟨x, hx⟩, ⟨y, hy⟩, -⟩
    exact ⟨_, b, x, y, ⟨hx, hy⟩, rfl⟩

end RadixScript.Radix
