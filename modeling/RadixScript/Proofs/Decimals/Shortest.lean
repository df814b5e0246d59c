import Mathlib.Algebra.Order.Field.Power
import Mathlib.Data.Rat.Cast.Order
import Mathlib.Tactic.Linarith
import Mathlib.Tactic.NormNum
import Mathlib.Tactic.Positivity
import Mathlib.Tactic.Ring
import RadixScript.Proofs.Decimals.Grids
import RadixScript.Proofs.Decimals.Ranks

/-!
# Shortest decimals

The `RoundingInterval` of a floating-point number holds exactly what rounds to it
(`contains_atRank_iff`). Grids with a greater unit than its upper end have no point in it, and on
the finest grid of the search the point behind the number is in it, so the search always ends with
a point (`isCoarsest_shortest`).

No decimal with fewer digits rounds to the number: it would be below the first power of ten with as
many digits as the result, this power of ten would be in the interval, too, and it is on a coarser
grid. For the same reason a decimal with as many digits is on the same grid, where the result is the
closest one, unless both have one digit. Then the interval is a tenth of a power of ten wide, which
it is next to zero only, and there only the second number has a power of ten close behind it
(`abs_ten_zpow_sub_le`). Together this is `isShortest_shortest`.
-/

namespace RadixScript.Decimal

open Binary64

namespace RoundingInterval

/-! ## The interval of a floating-point number -/

theorem two_pow_div (e : Int) :
    (Nat.pow 2 (e - 2).toNat : ℚ) / Nat.pow 2 (2 - e).toNat = 2 ^ e / 4 := by
  have h := zpow_eq_div two_ne_zero (e - 2)
  rw [zpow_sub₀ two_ne_zero, neg_sub] at h
  rw [Nat.pow_eq, Nat.pow_eq]
  push_cast
  rw [← h]
  norm_num

variable (n : Nat)

/-- The interval of a rank. -/
def atRank : RoundingInterval := ofBinary (mantissaAt n) (exponentAt n)

theorem number_atRank : (atRank n).number = numberAt n := by
  simp only [number, atRank, ofBinary, numberAt]
  push_cast
  rw [mul_div_assoc, two_pow_div]
  ring

theorem upperEnd_atRank : (atRank n).upperEnd = halfway n := by
  rw [halfway_eq_add]
  simp only [upperEnd, atRank, ofBinary, numberAt]
  push_cast
  rw [mul_div_assoc, two_pow_div]
  ring

/-- Below a power of two the lower end is half as far away, and so is the number there. -/
theorem lowerEnd_atRank : (atRank (n + 1)).lowerEnd = halfway n := by
  have hpos := mantissaAt_succ_pos n
  have hstep := succ_cases n
  rw [halfway_eq_sub, numberAt]
  simp only [lowerEnd, atRank, ofBinary, mantissaAt_succ_eq_iff]
  rw [Nat.cast_mul, mul_div_assoc, two_pow_div, Nat.cast_sub (by split <;> omega)]
  split
  · next hup =>
    rw [hup, zpow_add_one₀ two_ne_zero]
    push_cast
    ring
  · next hsame =>
    rw [show exponentAt (n + 1) = exponentAt n by omega]
    push_cast
    ring

theorem proper_atRank : (atRank (n + 1)).Proper where
  denominator_pos := Nat.pow_pos (by decide)
  lowerEnd_pos := by
    rw [lowerEnd_atRank]
    exact halfway_pos n
  lowerEnd_lt := by
    rw [lowerEnd_atRank, number_atRank]
    exact halfway_lt n
  lt_upperEnd := by
    rw [number_atRank, upperEnd_atRank]
    exact lt_halfway (n + 1)

/-- **The interval holds what rounds to the number.** -/
theorem contains_atRank_iff {q : ℚ} : (atRank (n + 1)).Contains q ↔ RoundsTo q (n + 1) := by
  rw [roundsTo_succ_iff, Contains, lowerEnd_atRank, upperEnd_atRank]
  simp [atRank, ofBinary]

end RoundingInterval

/-! ## The numbers closest to zero -/

/-- A power of ten is just behind the second number. -/
theorem least_bounds : 2 * (2 : ℚ) ^ leastExponent ≤ 10 ^ (-323 : Int) ∧
    100 * (10 : ℚ) ^ (-323 : Int) ≤ 203 * 2 ^ leastExponent := by
  have hlow : ((2 * 10 ^ 323 : Nat) : ℚ) ≤ (2 ^ 1074 : Nat) := Nat.cast_le.mpr (by decide +kernel)
  have hhigh : ((100 * 2 ^ 1074 : Nat) : ℚ) ≤ (203 * 10 ^ 323 : Nat) :=
    Nat.cast_le.mpr (by decide +kernel)
  rw [show leastExponent = -(1074 : Nat) from rfl, show (-323 : Int) = -(323 : Nat) from rfl,
    zpow_neg, zpow_neg, zpow_natCast, zpow_natCast]
  simp only [Nat.cast_mul, Nat.cast_pow, Nat.cast_ofNat] at hlow hhigh
  have hten : (0 : ℚ) < 10 ^ 323 := pow_pos (by norm_num) _
  have htwo : (0 : ℚ) < 2 ^ 1074 := pow_pos (by norm_num) _
  generalize (10 : ℚ) ^ 323 = ten at *
  generalize (2 : ℚ) ^ 1074 = two at *
  rw [← div_eq_mul_inv, ← one_div, ← div_eq_mul_one_div, ← div_eq_mul_inv,
    div_le_div_iff₀ htwo hten, div_le_div_iff₀ hten htwo]
  constructor <;> linarith

/-- Of the first numbers, only the second has a power of ten close behind it. -/
theorem eq_two_of_ten_zpow {m : Nat} {k : Int} (hpos : 0 < m) (hlt : m < 10)
    (hbehind : m * 2 ^ leastExponent < (10 : ℚ) ^ k)
    (hclose : (10 : ℚ) ^ k ≤ (m + 1 / 2) * 2 ^ leastExponent) : m = 2 ∧ k = -323 := by
  obtain ⟨hlow, hhigh⟩ := least_bounds
  have hunit := two_zpow_pos leastExponent
  have hone : (1 : ℚ) ≤ m := by exact_mod_cast hpos
  have hnine : (m : ℚ) ≤ 9 := by exact_mod_cast Nat.le_of_lt_succ hlt
  have hk : k = -323 := by
    have hbelow : (10 : ℚ) ^ k < 10 ^ (-323 + 1 : Int) := by
      rw [zpow_add_one₀ (by norm_num)]
      nlinarith
    have habove : (10 : ℚ) ^ (-323 - 1 : Int) < 10 ^ k := by
      rw [zpow_sub_one₀ (by norm_num)]
      nlinarith
    rw [zpow_lt_zpow_iff_right₀ (by norm_num)] at hbelow habove
    omega
  subst hk
  have htwo : (m : ℚ) < 3 := by nlinarith
  have htwo' : (1 : ℚ) < m := by nlinarith
  have hlt : m < 3 := by exact_mod_cast htwo
  have hgt : 1 < m := by exact_mod_cast htwo'
  exact ⟨by omega, rfl⟩

/-- **Where a power of ten and a decimal with one digit below it round to the same number, the power
of ten is the closer one.** -/
theorem abs_ten_zpow_sub_le {n : Nat} {k : Int} {q : ℚ} (hpower : RoundsTo (10 ^ k) (n + 1))
    (hq : RoundsTo q (n + 1)) (hle : 10 * q ≤ 9 * 10 ^ k) :
    |10 ^ k - numberAt (n + 1)| ≤ |q - numberAt (n + 1)| := by
  have hpos := ten_zpow_pos k
  rcases le_or_gt (10 ^ k) (numberAt (n + 1)) with hbelow | hbehind
  · rw [abs_of_nonpos (by linarith), abs_of_nonpos (by linarith)]
    linarith
  · have hlow := hq.halfway_le
    have hhigh := hpower.le_halfway
    rw [halfway_eq_sub] at hlow
    rw [halfway_eq_add] at hhigh
    have hunit : (2 : ℚ) ^ exponentAt n ≤ 2 ^ exponentAt (n + 1) :=
      zpow_le_zpow_right₀ one_le_two (by have := succ_cases n; omega)
    -- the interval is as wide as a tenth of the power, so the mantissa has one digit
    have hlt : mantissaAt (n + 1) < 10 := by
      have hlt : numberAt (n + 1) < 10 * 2 ^ exponentAt (n + 1) := by linarith
      exact_mod_cast lt_of_mul_lt_mul_right hlt (two_zpow_pos _).le
    have hexponent : exponentAt (n + 1) = leastExponent := by
      simp only [mantissaAt, exponentAt, binade] at hlt ⊢
      omega
    rw [numberAt, hexponent] at hbehind hhigh ⊢
    obtain ⟨hmantissa, rfl⟩ :=
      eq_two_of_ten_zpow (mantissaAt_succ_pos n) hlt hbehind (by linarith)
    obtain ⟨hleast, hleast'⟩ := least_bounds
    rw [hmantissa, Nat.cast_ofNat]
    rw [abs_of_nonneg (by linarith), abs_of_nonpos (by linarith)]
    linarith

theorem fine_lt_half_unit : (10 : ℚ) ^ (-344 : Int) < 2 ^ leastExponent / 2 := by
  have hunit := two_zpow_pos leastExponent
  have hbound := least_bounds.2
  rw [show (-344 : Int) = -323 + -21 from rfl, zpow_add₀ (by norm_num)]
  generalize (10 : ℚ) ^ (-323 : Int) = power at hbound ⊢
  norm_num
  linarith

/-! ## The result of the search -/

namespace RoundingInterval

variable {r : RoundingInterval} {s s' : Scientific}

/-- A point of the interval that the search takes, with no point of a coarser grid in it. -/
structure IsCoarsest (r : RoundingInterval) (s : Scientific) : Prop where
  onGrid?_eq : r.onGrid? s.exponent = some s
  coarser : ∀ k, s.exponent < k → r.onGrid? k = none

/-- The number of digits in front of the point of the upper end, where the search starts. -/
def top (r : RoundingInterval) : Nat := (toString (r.high / r.denominator)).length

/-- The unit of the first grid is already too great. -/
theorem upperEnd_lt (hd : 0 < r.denominator) : r.upperEnd < 10 ^ r.top := by
  have hlt : r.high / r.denominator < 10 ^ r.top := by
    rw [top, Nat.toString_eq_repr, ← String.length_toList, Nat.toList_repr]
    exact lt_ten_pow_length _
  have hd' : (0 : ℚ) < r.denominator := by exact_mod_cast hd
  rw [upperEnd, div_lt_iff₀ hd']
  exact_mod_cast (Nat.div_lt_iff_lt_mul hd).mp hlt

theorem lt_top_of_contains (hr : r.Proper) (hs : r.Contains s.value) : s.exponent < r.top := by
  have hpos := coefficient_pos (hr.pos_of_contains hs)
  rw [← zpow_lt_zpow_iff_right₀ (a := (10 : ℚ)) (by norm_num), zpow_natCast]
  calc (10 : ℚ) ^ s.exponent ≤ s.value :=
        (le_firstExponent_iff hpos).mp (exponent_le_firstExponent s)
    _ ≤ r.upperEnd := hs.le_upperEnd
    _ < 10 ^ r.top := upperEnd_lt hr.denominator_pos

/-- The point behind the number is in the interval on the last grid of the search. -/
theorem contains_up_fine (n : Nat) :
    (atRank (n + 1)).Contains ((atRank (n + 1)).up (-344)).value := by
  have hr := proper_atRank n
  have hup : (atRank (n + 1)).number < ((atRank (n + 1)).up (-344)).value :=
    lt_up hr.denominator_pos
  have hdown : ((atRank (n + 1)).down (-344)).value ≤ (atRank (n + 1)).number :=
    down_le hr.denominator_pos
  refine hr.contains_of_le hup.le ?_
  have hunit : (2 : ℚ) ^ leastExponent ≤ 2 ^ exponentAt (n + 1) :=
    zpow_le_zpow_right₀ one_le_two (leastExponent_le_exponentAt _)
  have hfine := fine_lt_half_unit
  rw [upperEnd_atRank, halfway_eq_add, value_up]
  rw [number_atRank] at hdown
  generalize (10 : ℚ) ^ (-344 : Int) = fine at hfine ⊢
  linarith

theorem isCoarsest_shortest (n : Nat) :
    (atRank (n + 1)).IsCoarsest (shortest (mantissaAt (n + 1)) (exponentAt (n + 1))) := by
  have hr := proper_atRank n
  have hfine := contains_up_fine n
  have htop := lt_top_of_contains hr hfine
  obtain ⟨s, hs, hpoint, hcoarser⟩ := exists_coarsest?_eq_some hr htop.le
    (show ((atRank (n + 1)).top : Int) < -344 + ((atRank (n + 1)).top + 345 : Nat) by omega) hfine
  have hshortest : shortest (mantissaAt (n + 1)) (exponentAt (n + 1)) = s := by
    rw [shortest, ← atRank, ← top, hs]
    rfl
  rw [hshortest]
  refine ⟨hpoint, fun k hk => ?_⟩
  rcases le_or_gt k (atRank (n + 1)).top with hle | hgt
  · exact hcoarser k hk hle
  · cases hgrid : (atRank (n + 1)).onGrid? k with
    | none => rfl
    | some s' =>
      have hlt := lt_top_of_contains hr (contains_of_onGrid? hr hgrid)
      rw [exponent_of_onGrid? hr hgrid] at hlt
      omega

namespace IsCoarsest

theorem exponent_le (hr : r.Proper) (h : r.IsCoarsest s) (hs' : r.Contains s'.value) :
    s'.exponent ≤ s.exponent := by
  by_contra hlt
  exact not_contains_of_onGrid? hr (h.coarser _ (not_le.mp hlt)) _ hs'

/-- Decimals of the interval whose first digits have different exponents have a power of ten between
them, so the coarsest has only this digit. -/
theorem contains_ten_zpow (hr : r.Proper) (h : r.IsCoarsest s) (hs' : r.Contains s'.value)
    (hlt : firstExponent s' < firstExponent s) :
    firstExponent s = s.exponent ∧ r.Contains (10 ^ s.exponent) := by
  have hs := contains_of_onGrid? hr h.onGrid?_eq
  have hpower : r.Contains (⟨1, firstExponent s⟩ : Scientific).value := by
    rw [value_one]
    refine hs'.convex hs ?_ (ten_zpow_firstExponent_le (coefficient_pos (hr.pos_of_contains hs)))
    exact (value_lt_ten_zpow s').le.trans (zpow_le_zpow_right₀ (by norm_num) hlt)
  have hfirst : firstExponent s = s.exponent :=
    le_antisymm (h.exponent_le hr hpower) (exponent_le_firstExponent s)
  rw [value_one, hfirst] at hpower
  exact ⟨hfirst, hpower⟩

end IsCoarsest

end RoundingInterval

/-! ## Shortest decimals -/

open RoundingInterval

/-- The decimal rounds to the number, no other one with fewer digits does, and of those with as many
digits it is the closest to the number. -/
structure IsShortest (s : Scientific) (n : Nat) : Prop where
  rounds : RoundsTo s.value n
  fewest : ∀ s' : Scientific, RoundsTo s'.value n → s.digits.length ≤ s'.digits.length
  nearest : ∀ s' : Scientific, RoundsTo s'.value n → s'.digits.length = s.digits.length →
    |s.value - numberAt n| ≤ |s'.value - numberAt n|

/-- A decimal with one digit is below the next power of ten by a tenth of it. -/
theorem ten_mul_value_le {s : Scientific} {k : Int} (hlt : s.exponent < k)
    (hdigit : s.coefficient < 10) : 10 * s.value ≤ 9 * 10 ^ k := by
  have hnine : (s.coefficient : ℚ) ≤ 9 := by exact_mod_cast Nat.le_of_lt_succ hdigit
  calc 10 * s.value = s.coefficient * 10 ^ (s.exponent + 1) := by
        rw [Scientific.value, zpow_add_one₀ (by norm_num)]
        ring
    _ ≤ 9 * 10 ^ (s.exponent + 1) := mul_le_mul_of_nonneg_right hnine (ten_zpow_pos _).le
    _ ≤ 9 * 10 ^ k :=
        mul_le_mul_of_nonneg_left (zpow_le_zpow_right₀ (by norm_num) hlt) (by norm_num)

/-- **The search finds the shortest decimal.** -/
theorem isShortest_shortest (n : Nat) :
    IsShortest (shortest (mantissaAt (n + 1)) (exponentAt (n + 1))) (n + 1) := by
  have hr := proper_atRank n
  have h := isCoarsest_shortest n
  generalize shortest (mantissaAt (n + 1)) (exponentAt (n + 1)) = s at h ⊢
  have hs := contains_of_onGrid? hr h.onGrid?_eq
  refine ⟨(contains_atRank_iff n).mp hs, fun s' hs' => ?_, fun s' hs' hdigits => ?_⟩ <;>
    rw [← contains_atRank_iff] at hs'
  · have hle := h.exponent_le hr hs'
    have hpos := length_digits_pos s'
    by_contra hlt
    obtain ⟨hfirst, -⟩ := h.contains_ten_zpow hr hs' (by simp only [firstExponent]; omega)
    simp only [firstExponent] at hfirst
    omega
  · have hnearest := fun c => onGrid?_nearest (c := c) hr h.onGrid?_eq
    rw [number_atRank] at hnearest
    rcases eq_or_lt_of_le (h.exponent_le hr hs') with heq | hlt
    · obtain ⟨c', k'⟩ := s'
      subst heq
      exact hnearest c' hs'
    · -- only with one digit can the other decimal be on a finer grid
      obtain ⟨hfirst, hpower⟩ := h.contains_ten_zpow hr hs' (by simp only [firstExponent]; omega)
      have hone : s'.digits.length = 1 := by
        simp only [firstExponent] at hfirst
        omega
      have hdigit : s'.coefficient < 10 := by
        have hlt := coefficient_lt s'
        rwa [hone] at hlt
      have hle := hnearest 1 ((value_one s.exponent).symm ▸ hpower)
      rw [value_one] at hle
      exact hle.trans (abs_ten_zpow_sub_le ((contains_atRank_iff n).mp hpower)
        ((contains_atRank_iff n).mp hs') (ten_mul_value_le hlt hdigit))

theorem isShortest_zero : IsShortest ⟨0, 0⟩ 0 := by
  have hzero : (⟨0, 0⟩ : Scientific).value = numberAt 0 := by simp [Scientific.value]
  refine ⟨hzero ▸ roundsTo_numberAt 0, fun s' _ => length_digits_pos s', fun s' _ _ => ?_⟩
  rw [hzero, sub_self, abs_zero]
  exact abs_nonneg _

/-- The last digit of a shortest decimal is not zero: one digit less would do. -/
theorem IsShortest.coefficient_mod_ten {s : Scientific} {n : Nat} (h : IsShortest s (n + 1)) :
    s.coefficient % 10 ≠ 0 := by
  intro hzero
  have hpos := coefficient_pos ((halfway_pos n).trans_le h.rounds.halfway_le)
  have hsame : (⟨s.coefficient / 10, s.exponent + 1⟩ : Scientific).value = s.value := by
    have hcoefficient : (s.coefficient : ℚ) = (s.coefficient / 10 : Nat) * 10 := by
      exact_mod_cast (Nat.div_mul_cancel (Nat.dvd_of_mod_eq_zero hzero)).symm
    rw [Scientific.value, Scientific.value, zpow_add_one₀ (by norm_num), hcoefficient]
    ring
  have hle := h.fewest _ (hsame.symm ▸ h.rounds)
  rw [Scientific.digits, Nat.toDigits_of_base_le (by decide) (by omega), List.length_append] at hle
  exact Nat.not_succ_le_self _ hle

end RadixScript.Decimal
