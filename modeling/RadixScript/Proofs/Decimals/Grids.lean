import Mathlib.Algebra.Order.Field.Power
import Mathlib.Data.Rat.Cast.Order
import Mathlib.Tactic.Linarith
import Mathlib.Tactic.NormNum
import Mathlib.Tactic.Positivity
import Mathlib.Tactic.Ring
import RadixScript.Decimal.Shortest

/-!
# Points of a grid in an interval

The search for a short decimal asks, grid by grid, for a multiple of a power of ten in a
`RoundingInterval`. It tries the two neighbours of the number on the grid, and this is enough: an
interval around the number that has a point of the grid has one of the two
(`not_contains_of_onGrid?`), and of the points that it has, one of the two is the closest to the
number (`onGrid?_nearest`).

The search goes from coarse grids to fine ones, so it ends on the coarsest grid that has a point
(`exists_coarsest?_eq_some`).
-/

namespace RadixScript.Decimal

/-! ## Decimals as numbers -/

/-- The number that a decimal stands for. -/
def Scientific.value (s : Scientific) : ℚ := s.coefficient * 10 ^ s.exponent

/-- The digits of a decimal, the most significant first. -/
def Scientific.digits (s : Scientific) : List Char := Nat.toDigits 10 s.coefficient

theorem ten_zpow_pos (k : Int) : (0 : ℚ) < 10 ^ k := zpow_pos (by norm_num) k

/-- A power with an integer exponent as a quotient of powers of natural numbers. -/
theorem zpow_eq_div {b : ℚ} (hb : b ≠ 0) (k : Int) : b ^ k = b ^ k.toNat / b ^ (-k).toNat := by
  rw [eq_div_iff (pow_ne_zero _ hb), ← zpow_natCast b k.toNat, ← zpow_natCast b (-k).toNat,
    ← zpow_add₀ hb]
  congr 1
  omega

theorem lt_ten_pow_length (c : Nat) : c < 10 ^ (Nat.toDigits 10 c).length :=
  (Nat.length_toDigits_le_iff (by decide) Nat.length_toDigits_pos).mp le_rfl

theorem value_one (k : Int) : (⟨1, k⟩ : Scientific).value = 10 ^ k := by
  rw [Scientific.value, Nat.cast_one, one_mul]

theorem value_mono {c c' : Nat} {k : Int} (h : c ≤ c') :
    (⟨c, k⟩ : Scientific).value ≤ (⟨c', k⟩ : Scientific).value :=
  mul_le_mul_of_nonneg_right (by exact_mod_cast h) (ten_zpow_pos k).le

section Value

variable {s : Scientific} {a d : Nat}

theorem coefficient_pos (h : 0 < s.value) : 0 < s.coefficient := by
  refine Nat.pos_of_ne_zero fun hzero => h.ne' ?_
  rw [Scientific.value, hzero, Nat.cast_zero, zero_mul]

/-- The exponent of the first digit of a decimal. -/
def firstExponent (s : Scientific) : Int := s.digits.length - 1 + s.exponent

theorem length_digits_pos (s : Scientific) : 0 < s.digits.length := Nat.length_toDigits_pos

theorem exponent_le_firstExponent (s : Scientific) : s.exponent ≤ firstExponent s := by
  have hpos := length_digits_pos s
  rw [firstExponent]
  omega

theorem coefficient_lt (s : Scientific) : s.coefficient < 10 ^ s.digits.length :=
  lt_ten_pow_length s.coefficient

theorem ten_zpow_firstExponent_le (hs : 0 < s.coefficient) : 10 ^ firstExponent s ≤ s.value := by
  obtain ⟨j, hj⟩ := Nat.exists_eq_add_one_of_ne_zero (length_digits_pos s).ne'
  have hle : 10 ^ j ≤ s.coefficient := by
    rcases Nat.eq_zero_or_pos j with rfl | hpos
    · exact hs
    · rw [← not_lt, ← Nat.length_toDigits_le_iff (by decide) hpos, ← Scientific.digits]
      omega
  rw [firstExponent, hj, Nat.cast_add_one, add_sub_cancel_right, zpow_add₀ (by norm_num),
    zpow_natCast]
  exact mul_le_mul_of_nonneg_right (by exact_mod_cast hle) (ten_zpow_pos _).le

theorem value_lt_ten_zpow (s : Scientific) : s.value < 10 ^ (firstExponent s + 1) := by
  have hlt := coefficient_lt s
  rw [firstExponent, add_right_comm, sub_add_cancel, zpow_add₀ (by norm_num), zpow_natCast]
  exact mul_lt_mul_of_pos_right (by exact_mod_cast hlt) (ten_zpow_pos _)

theorem le_firstExponent_iff (hs : 0 < s.coefficient) {k : Int} :
    k ≤ firstExponent s ↔ 10 ^ k ≤ s.value := by
  constructor
  · intro hle
    exact (zpow_le_zpow_right₀ (by norm_num) hle).trans (ten_zpow_firstExponent_le hs)
  · intro hle
    have hlt := hle.trans_lt (value_lt_ten_zpow s)
    rw [zpow_lt_zpow_iff_right₀ (by norm_num)] at hlt
    exact Int.le_of_lt_add_one hlt

theorem div_le_value_iff (hd : 0 < d) : (a : ℚ) / d ≤ s.value ↔
    a * Nat.pow 10 (-s.exponent).toNat ≤ s.coefficient * Nat.pow 10 s.exponent.toNat * d := by
  have hd' : (0 : ℚ) < d := by exact_mod_cast hd
  rw [Scientific.value, zpow_eq_div (by norm_num), ← mul_div_assoc,
    div_le_div_iff₀ hd' (by positivity), Nat.pow_eq, Nat.pow_eq]
  norm_cast

theorem value_le_div_iff (hd : 0 < d) : s.value ≤ (a : ℚ) / d ↔
    s.coefficient * Nat.pow 10 s.exponent.toNat * d ≤ a * Nat.pow 10 (-s.exponent).toNat := by
  have hd' : (0 : ℚ) < d := by exact_mod_cast hd
  rw [Scientific.value, zpow_eq_div (by norm_num), ← mul_div_assoc,
    div_le_div_iff₀ (by positivity) hd', Nat.pow_eq, Nat.pow_eq]
  norm_cast

end Value

namespace RoundingInterval

/-! ## Intervals -/

section Interval

variable (r : RoundingInterval)

/-- The number that the interval is about. -/
def number : ℚ := r.value / r.denominator

def lowerEnd : ℚ := r.low / r.denominator

def upperEnd : ℚ := r.high / r.denominator

/-- The interval as a condition on numbers. -/
def Contains (q : ℚ) : Prop :=
  if r.closed then r.lowerEnd ≤ q ∧ q ≤ r.upperEnd else r.lowerEnd < q ∧ q < r.upperEnd

/-- An interval of positive numbers around its own. -/
structure Proper : Prop where
  denominator_pos : 0 < r.denominator
  lowerEnd_pos : 0 < r.lowerEnd
  lowerEnd_lt : r.lowerEnd < r.number
  lt_upperEnd : r.number < r.upperEnd

end Interval

variable {r : RoundingInterval} {s : Scientific} {p q t : ℚ} {k : Int} {c : Nat}

theorem contains_iff (hd : 0 < r.denominator) : r.contains s = true ↔ r.Contains s.value := by
  simp only [contains, Contains, lowerEnd, upperEnd, ← not_le, div_le_value_iff hd,
    value_le_div_iff hd]
  split <;> simp

namespace Contains

theorem convex (hp : r.Contains p) (hq : r.Contains q) (hpt : p ≤ t) (htq : t ≤ q) :
    r.Contains t := by
  unfold Contains at *
  split_ifs at *
  · exact ⟨hp.1.trans hpt, htq.trans hq.2⟩
  · exact ⟨hp.1.trans_le hpt, htq.trans_lt hq.2⟩

theorem le_upperEnd (hq : r.Contains q) : q ≤ r.upperEnd := by
  unfold Contains at hq
  split at hq
  · exact hq.2
  · exact hq.2.le

theorem lowerEnd_le (hq : r.Contains q) : r.lowerEnd ≤ q := by
  unfold Contains at hq
  split at hq
  · exact hq.1
  · exact hq.1.le

end Contains

namespace Proper

theorem contains_of_le (hr : r.Proper) (hle : r.number ≤ q) (hlt : q < r.upperEnd) :
    r.Contains q := by
  have hlow := hr.lowerEnd_lt.trans_le hle
  unfold Contains
  split
  · exact ⟨hlow.le, hlt.le⟩
  · exact ⟨hlow, hlt⟩

theorem contains_number (hr : r.Proper) : r.Contains r.number :=
  hr.contains_of_le le_rfl hr.lt_upperEnd

theorem pos_of_contains (hr : r.Proper) (hq : r.Contains q) : 0 < q :=
  hr.lowerEnd_pos.trans_le hq.lowerEnd_le

end Proper

/-! ## One grid -/

section Grid

variable (r k)

/-- The unit of a grid, scaled so that it is a natural number. -/
def unit : Nat := Nat.pow 10 k.toNat * r.denominator

/-- The number, scaled like the unit. -/
def scaled : Nat := r.value * Nat.pow 10 (-k).toNat

/-- The neighbour of the number on a grid that is not behind it. -/
def down : Scientific := ⟨r.scaled k / r.unit k, k⟩

/-- The neighbour behind the number. -/
def up : Scientific := ⟨r.scaled k / r.unit k + 1, k⟩

variable {r k}

theorem unit_pos (hd : 0 < r.denominator) : 0 < r.unit k :=
  Nat.mul_pos (Nat.pow_pos (by decide)) hd

/-- Twice the number, so that it can be compared with the point between two neighbours. -/
theorem value_le_two_mul_iff (hd : 0 < r.denominator) :
    (⟨c, k⟩ : Scientific).value ≤ 2 * r.number ↔ c * r.unit k ≤ 2 * r.scaled k := by
  have hdouble : 2 * r.number = ((2 * r.value : Nat) : ℚ) / r.denominator := by
    rw [number, Nat.cast_mul, mul_div_assoc, Nat.cast_ofNat]
  rw [hdouble, value_le_div_iff hd, Nat.mul_assoc, Nat.mul_assoc]
  rfl

theorem two_mul_le_value_iff (hd : 0 < r.denominator) :
    2 * r.number ≤ (⟨c, k⟩ : Scientific).value ↔ 2 * r.scaled k ≤ c * r.unit k := by
  have hdouble : 2 * r.number = ((2 * r.value : Nat) : ℚ) / r.denominator := by
    rw [number, Nat.cast_mul, mul_div_assoc, Nat.cast_ofNat]
  rw [hdouble, div_le_value_iff hd, Nat.mul_assoc, Nat.mul_assoc]
  rfl

theorem value_le_number_iff (hd : 0 < r.denominator) :
    (⟨c, k⟩ : Scientific).value ≤ r.number ↔ c * r.unit k ≤ r.scaled k := by
  rw [number, value_le_div_iff hd, Nat.mul_assoc]
  rfl

theorem down_le (hd : 0 < r.denominator) : (r.down k).value ≤ r.number :=
  (value_le_number_iff hd).mpr (Nat.div_mul_le_self _ _)

theorem lt_up (hd : 0 < r.denominator) : r.number < (r.up k).value := by
  rw [← not_le, up, value_le_number_iff hd, ← Nat.le_div_iff_mul_le (unit_pos hd)]
  exact Nat.not_succ_le_self _

theorem value_up : (r.up k).value = (r.down k).value + 10 ^ k := by
  simp only [Scientific.value, down, up]
  push_cast
  ring

theorem down_add_up : (r.down k).value + (r.up k).value =
    (⟨2 * (r.scaled k / r.unit k) + 1, k⟩ : Scientific).value := by
  rw [value_up]
  simp only [Scientific.value, down]
  generalize r.scaled k / r.unit k = f
  push_cast
  ring

/-- A point of the grid is not between the two neighbours. -/
theorem le_down_or_up_le (c : Nat) :
    (⟨c, k⟩ : Scientific).value ≤ (r.down k).value ∨
      (r.up k).value ≤ (⟨c, k⟩ : Scientific).value := by
  rcases le_or_gt c (r.scaled k / r.unit k) with hle | hgt
  · exact Or.inl (value_mono hle)
  · exact Or.inr (value_mono hgt)

theorem contains_down (hr : r.Proper) (hc : r.Contains q) (hle : q ≤ (r.down k).value) :
    r.Contains (r.down k).value :=
  hc.convex hr.contains_number hle (down_le hr.denominator_pos)

theorem contains_up (hr : r.Proper) (hc : r.Contains q) (hle : (r.up k).value ≤ q) :
    r.Contains (r.up k).value :=
  hr.contains_number.convex hc (lt_up hr.denominator_pos).le hle

theorem onGrid?_eq : r.onGrid? k =
    match r.contains (r.down k), r.contains (r.up k) with
    | false, false => none
    | true, false => some (r.down k)
    | false, true => some (r.up k)
    | true, true =>
      match compare (2 * (r.scaled k - r.scaled k / r.unit k * r.unit k)) (r.unit k) with
      | .lt => some (r.down k)
      | .gt => some (r.up k)
      | .eq => some (if r.scaled k / r.unit k % 2 = 0 then r.down k else r.up k) :=
  rfl

theorem onGrid?_eq_none (hr : r.Proper) (h : r.onGrid? k = none) :
    ¬ r.Contains (r.down k).value ∧ ¬ r.Contains (r.up k).value := by
  rw [← contains_iff hr.denominator_pos, ← contains_iff hr.denominator_pos]
  rw [onGrid?_eq] at h
  split at h
  · next hdown hup => exact ⟨ne_true_of_eq_false hdown, ne_true_of_eq_false hup⟩
  · cases h
  · cases h
  · split at h <;> cases h

/-- The search takes a neighbour in the interval, and the closer one if both are in it. -/
theorem onGrid?_eq_some (hr : r.Proper) (h : r.onGrid? k = some s) :
    (s = r.down k ∧ r.Contains (r.down k).value ∧
        (r.Contains (r.up k).value → 2 * r.number ≤ (r.down k).value + (r.up k).value)) ∨
      (s = r.up k ∧ r.Contains (r.up k).value ∧
        (r.Contains (r.down k).value → (r.down k).value + (r.up k).value ≤ 2 * r.number)) := by
  have hd := hr.denominator_pos
  rw [down_add_up, value_le_two_mul_iff hd, two_mul_le_value_iff hd, ← contains_iff hd,
    ← contains_iff hd]
  have hle : r.scaled k / r.unit k * r.unit k ≤ r.scaled k := Nat.div_mul_le_self _ _
  have hodd : (2 * (r.scaled k / r.unit k) + 1) * r.unit k =
      2 * (r.scaled k / r.unit k * r.unit k) + r.unit k := by ring
  rw [hodd]
  rw [onGrid?_eq] at h
  split at h
  · cases h
  · next hdown hup =>
    cases h
    exact Or.inl ⟨rfl, hdown, fun hup' => absurd hup' (ne_true_of_eq_false hup)⟩
  · next hdown hup =>
    cases h
    exact Or.inr ⟨rfl, hup, fun hdown' => absurd hdown' (ne_true_of_eq_false hdown)⟩
  · next hdown hup =>
    split at h
    · next hcompare =>
      rw [Nat.compare_eq_lt] at hcompare
      cases h
      exact Or.inl ⟨rfl, hdown, fun _ => by omega⟩
    · next hcompare =>
      rw [Nat.compare_eq_gt] at hcompare
      cases h
      exact Or.inr ⟨rfl, hup, fun _ => by omega⟩
    · next hcompare =>
      rw [Nat.compare_eq_eq] at hcompare
      split at h <;> cases h
      · exact Or.inl ⟨rfl, hdown, fun _ => by omega⟩
      · exact Or.inr ⟨rfl, hup, fun _ => by omega⟩

/-- **Two points of a grid are enough.** -/
theorem not_contains_of_onGrid? (hr : r.Proper) (h : r.onGrid? k = none) (c : Nat) :
    ¬ r.Contains (⟨c, k⟩ : Scientific).value := by
  intro hc
  obtain ⟨hdown, hup⟩ := onGrid?_eq_none hr h
  rcases le_down_or_up_le c with hle | hle
  · exact hdown (contains_down hr hc hle)
  · exact hup (contains_up hr hc hle)

/-- **No point of the grid in the interval is closer to the number.** -/
theorem onGrid?_nearest (hr : r.Proper) (h : r.onGrid? k = some s)
    (hc : r.Contains (⟨c, k⟩ : Scientific).value) :
    |s.value - r.number| ≤ |(⟨c, k⟩ : Scientific).value - r.number| := by
  have hdown : (r.down k).value ≤ r.number := down_le hr.denominator_pos
  have hup : r.number < (r.up k).value := lt_up hr.denominator_pos
  rcases onGrid?_eq_some hr h with ⟨rfl, -, hcloser⟩ | ⟨rfl, -, hcloser⟩
  · rw [abs_of_nonpos (sub_nonpos.mpr hdown)]
    rcases le_down_or_up_le c with hle | hle
    · rw [abs_of_nonpos (by linarith)]
      linarith
    · have hcloser := hcloser (contains_up hr hc hle)
      rw [abs_of_nonneg (by linarith)]
      linarith
  · rw [abs_of_nonneg (sub_nonneg.mpr hup.le)]
    rcases le_down_or_up_le c with hle | hle
    · have hcloser := hcloser (contains_down hr hc hle)
      rw [abs_of_nonpos (by linarith)]
      linarith
    · rw [abs_of_nonneg (by linarith)]
      linarith

theorem exponent_of_onGrid? (hr : r.Proper) (h : r.onGrid? k = some s) : s.exponent = k := by
  rcases onGrid?_eq_some hr h with ⟨rfl, -⟩ | ⟨rfl, -⟩ <;> rfl

theorem contains_of_onGrid? (hr : r.Proper) (h : r.onGrid? k = some s) : r.Contains s.value := by
  rcases onGrid?_eq_some hr h with ⟨rfl, hcontains, -⟩ | ⟨rfl, hcontains, -⟩ <;> exact hcontains

end Grid

/-! ## All grids -/

/-- **The search ends on the coarsest grid that has a point.** -/
theorem exists_coarsest?_eq_some (hr : r.Proper) {j : Int} {steps : Nat} (hle : j ≤ k)
    (hlt : k < j + steps) (hc : r.Contains (⟨c, j⟩ : Scientific).value) :
    ∃ s, r.coarsest? steps k = some s ∧ r.onGrid? s.exponent = some s ∧
      ∀ i, s.exponent < i → i ≤ k → r.onGrid? i = none := by
  induction steps generalizing k with
  | zero => omega
  | succ steps ih =>
    rw [coarsest?]
    cases hgrid : r.onGrid? k with
    | some s =>
      have hexponent := exponent_of_onGrid? hr hgrid
      refine ⟨s, rfl, hexponent ▸ hgrid, fun i hlt hle => ?_⟩
      omega
    | none =>
      have hne : k ≠ j := by
        rintro rfl
        exact not_contains_of_onGrid? hr hgrid c hc
      obtain ⟨s, hs, hpoint, hcoarser⟩ := ih (k := k - 1) (by omega) (by omega)
      refine ⟨s, hs, hpoint, fun i hlt hle => ?_⟩
      rcases eq_or_lt_of_le hle with rfl | hbelow
      · exact hgrid
      · exact hcoarser i hlt (by omega)

end RoundingInterval

end RadixScript.Decimal
