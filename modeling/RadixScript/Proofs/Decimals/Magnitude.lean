import Mathlib.Algebra.Order.Field.Power
import Mathlib.Data.Rat.Cast.Order
import Mathlib.Tactic.NormNum
import Mathlib.Tactic.Ring
import RadixScript.Decimal.Display
import RadixScript.Proofs.Decimals.Shortest

/-!
# Magnitudes of floating-point numbers

The bits of a floating-point number without the sign bit are its rank (`ofFloat_eq_finite`). Numbers
without their signs are in the order of their ranks (`compareMagnitude_ofFloat`), and so are the
decimals that are written for them (`decimalAt_strictMono`). Thus a thousandth and ten million
divide the decimals where they divide the numbers, and it can be read off the decimal whether a
number keeps its literal (`keepsLiteral_iff`).
-/

namespace RadixScript.Decimal

open Binary64

/-! ## The bits of a number -/

/-- The bits of a floating-point number, less the sign bit. -/
def rank (x : Float) : Nat := x.toBits.toNat % 2 ^ 63

/-- The sign bit. -/
def isNegative (x : Float) : Bool := x.toBits.toNat / 2 ^ 63 = 1

theorem toBits_eq {x y : Float} (hsign : isNegative x = isNegative y) (hrank : rank x = rank y) :
    x.toBits = y.toBits := by
  have hx := x.toBits.toNat_lt
  have hy := y.toBits.toNat_lt
  rw [← UInt64.toNat_inj]
  simp only [isNegative, rank, decide_eq_decide] at hsign hrank
  omega

variable {x y : Float} {negative : Bool} {m : Nat} {e : Int}

theorem ofFloat_eq_finite (h : ofFloat x = .finite negative m e) :
    negative = isNegative x ∧ m = mantissaAt (rank x) ∧ e = exponentAt (rank x) := by
  have hlt := x.toBits.toNat_lt
  simp only [ofFloat, ofPattern, hiddenBit, Nat.pow_eq] at h
  simp only [isNegative, rank, mantissaAt, exponentAt, binade, leastExponent] at *
  generalize x.toBits.toNat = bits at *
  split at h
  · split at h <;> cases h
  · split at h <;> cases h
    · exact ⟨decide_eq_decide.mpr (by omega), by omega, by omega⟩
    · exact ⟨decide_eq_decide.mpr (by omega), by omega, by omega⟩

theorem ofFloat_eq_infinite (h : ofFloat x = .infinite negative) :
    negative = isNegative x ∧ rank x = 2047 * 2 ^ 52 := by
  have hlt := x.toBits.toNat_lt
  simp only [ofFloat, ofPattern, Nat.pow_eq] at h
  simp only [isNegative, rank]
  generalize x.toBits.toNat = bits at *
  split at h
  · split at h <;> cases h
    exact ⟨decide_eq_decide.mpr (by omega), by omega⟩
  · split at h <;> cases h

theorem numberAt_rank (h : ofFloat x = .finite negative m e) :
    numberAt (rank x) = m * 2 ^ e := by
  obtain ⟨-, rfl, rfl⟩ := ofFloat_eq_finite h
  rfl

/-! ## The decimals in order -/

/-- The decimal that is written for a rank. -/
def decimalAt (n : Nat) : Scientific :=
  if mantissaAt n = 0 then ⟨0, 0⟩ else shortest (mantissaAt n) (exponentAt n)

theorem isShortest_decimalAt (n : Nat) : IsShortest (decimalAt n) n := by
  cases n with
  | zero => exact isShortest_zero
  | succ n =>
    rw [decimalAt, if_neg (mantissaAt_succ_pos n).ne']
    exact isShortest_shortest n

theorem decimalAt_strictMono : StrictMono fun n => (decimalAt n).value :=
  fun n k h => (isShortest_decimalAt n).rounds.lt_of_lt (isShortest_decimalAt k).rounds h

/-- A decimal that is written for a rank divides the decimals where it divides the numbers, if it is
not above the number of the rank. -/
theorem le_numberAt_iff {k : Nat} {t : ℚ} (ht : (decimalAt (k + 1)).value = t)
    (hlow : numberAt k < t) (hhigh : t ≤ numberAt (k + 1)) (n : Nat) :
    t ≤ numberAt n ↔ t ≤ (decimalAt n).value := by
  have hdecimal : t ≤ (decimalAt n).value ↔ k + 1 ≤ n := by
    rw [← ht]
    exact decimalAt_strictMono.le_iff_le
  rw [hdecimal]
  constructor
  · intro hle
    by_contra hlt
    exact absurd (hle.trans (numberAt_strictMono.monotone (Nat.le_of_lt_succ (not_le.mp hlt))))
      (not_le.mpr hlow)
  · intro hle
    exact hhigh.trans (numberAt_strictMono.monotone hle)

theorem value_decimalAt_thousandth : (decimalAt 0x3f50624dd2f1a9fc).value = 1 / 1000 := by
  have hdecimal : decimalAt 0x3f50624dd2f1a9fc = ⟨1, -3⟩ := by decide +kernel
  rw [hdecimal]
  norm_num [Scientific.value]

theorem value_decimalAt_tenMillion : (decimalAt 0x416312d000000000).value = 10 ^ 7 := by
  have hdecimal : decimalAt 0x416312d000000000 = ⟨1, 7⟩ := by decide +kernel
  rw [hdecimal]
  norm_num [Scientific.value]

theorem thousandth_le_iff (n : Nat) :
    1 / 1000 ≤ numberAt n ↔ 1 / 1000 ≤ (decimalAt n).value := by
  refine le_numberAt_iff (k := 0x3f50624dd2f1a9fb) value_decimalAt_thousandth ?_ ?_ n
  · norm_num [numberAt, mantissaAt, exponentAt, binade, leastExponent]
  · norm_num [numberAt, mantissaAt, exponentAt, binade, leastExponent]

theorem tenMillion_le_iff (n : Nat) :
    10 ^ 7 ≤ numberAt n ↔ 10 ^ 7 ≤ (decimalAt n).value := by
  refine le_numberAt_iff (k := 0x416312cfffffffff) value_decimalAt_tenMillion ?_ ?_ n
  · norm_num [numberAt, mantissaAt, exponentAt, binade, leastExponent]
  · norm_num [numberAt, mantissaAt, exponentAt, binade, leastExponent]

/-! ## Comparison -/

theorem scaled_lt_iff {m m' : Nat} {e e' : Int} :
    m * 2 ^ (e - e').toNat < m' * 2 ^ (e' - e).toNat ↔ (m * 2 ^ e : ℚ) < m' * 2 ^ e' := by
  have hscale : ∀ (n : Nat) (k l : Int),
      (n * 2 ^ k : ℚ) = (n * 2 ^ (k - l).toNat : Nat) * 2 ^ min k l := by
    intro n k l
    have hsum : k = (k - l).toNat + min k l := by omega
    conv_lhs => rw [hsum, zpow_add₀ two_ne_zero, zpow_natCast]
    push_cast
    ring
  rw [hscale m e e', hscale m' e' e, min_comm e' e,
    mul_lt_mul_iff_of_pos_right (two_zpow_pos _), Nat.cast_lt]

theorem scaled_lt_iff_rank_lt {b b' : Bool} {m' : Nat} {e' : Int}
    (hx : ofFloat x = .finite b m e) (hy : ofFloat y = .finite b' m' e') :
    m * 2 ^ (e - e').toNat < m' * 2 ^ (e' - e).toNat ↔ rank x < rank y := by
  rw [scaled_lt_iff, ← numberAt_rank hx, ← numberAt_rank hy, numberAt_strictMono.lt_iff_lt]

/-- Numbers without their signs are in the order of their ranks. -/
theorem compareMagnitude_ofFloat {b b' : Bool} {m' : Nat} {e' : Int}
    (hx : ofFloat x = .finite b m e) (hy : ofFloat y = .finite b' m' e') :
    compareMagnitude (ofFloat x) (ofFloat y) = some (compare (rank x) (rank y)) := by
  have hlt := scaled_lt_iff_rank_lt hx hy
  have hgt := scaled_lt_iff_rank_lt hy hx
  rw [hx, hy]
  refine congrArg some ?_
  rcases lt_trichotomy (rank x) (rank y) with h | h | h
  · rw [Nat.compare_eq_lt.mpr h]
    exact Nat.compare_eq_lt.mpr (hlt.mpr h)
  · rw [Nat.compare_eq_eq.mpr h]
    exact Nat.compare_eq_eq.mpr (Nat.le_antisymm (not_lt.mp fun hm => h.not_gt (hgt.mp hm))
      (not_lt.mp fun hm => h.not_lt (hlt.mp hm)))
  · rw [Nat.compare_eq_gt.mpr h]
    exact Nat.compare_eq_gt.mpr (hgt.mpr h)

/-- A number keeps its literal if it is zero, or its decimal is from a thousandth to below ten
million. -/
theorem keepsLiteral_iff (h : ofFloat x = .finite negative m e) :
    keepsLiteral (.finite negative m e) = true ↔
      rank x = 0 ∨ 1 / 1000 ≤ (decimalAt (rank x)).value ∧ (decimalAt (rank x)).value < 10 ^ 7 := by
  have hzero : ofFloat 0 = .finite false 0 (-1074) := by decide +kernel
  have hlow : ofFloat 1e-3 = .finite false 0x10624dd2f1a9fc (-62) := by decide +kernel
  have hhigh : ofFloat 1e7 = .finite false 0x1312d000000000 (-29) := by decide +kernel
  have hrankZero : rank 0 = 0 := by decide +kernel
  have hrankLow : rank 1e-3 = 0x3f50624dd2f1a9fc := by decide +kernel
  have hrankHigh : rank 1e7 = 0x416312d000000000 := by decide +kernel
  rw [keepsLiteral, ← h, compareMagnitude_ofFloat hzero h, compareMagnitude_ofFloat hlow h,
    compareMagnitude_ofFloat h hhigh, hrankZero, hrankLow, hrankHigh, eq_comm (a := rank x),
    ← value_decimalAt_thousandth, ← value_decimalAt_tenMillion]
  simp only [Bool.or_eq_true, Bool.and_eq_true, decide_eq_true_eq, Option.some.injEq,
    Nat.compare_eq_eq, Nat.compare_eq_lt, Option.any_some, Nat.isLE_compare,
    decimalAt_strictMono.le_iff_le, decimalAt_strictMono.lt_iff_lt]

end RadixScript.Decimal
