import Mathlib.Algebra.Order.Field.Power
import Mathlib.Data.Rat.Cast.Order
import Mathlib.Tactic.FieldSimp
import Mathlib.Tactic.Linarith
import Mathlib.Tactic.Positivity
import Mathlib.Tactic.Ring
import RadixScript.Decimal.Binary64

/-!
# Floating-point numbers in order

Without its sign, the pattern of a floating-point number is its rank among the numbers of the
format: `numberAt` gives the number of a rank, and it is strictly increasing. Neighbours differ by
one unit of the lower one (`numberAt_succ`), also where the exponent goes up. Past the last finite
number the ranks go on as if there were no greatest exponent, which is what rounding works with.

A rational number rounds to the closest number of the format (`RoundsTo`), and to the even one if
two are equally close. What rounds to a number lies between the points halfway to its neighbours
(`roundsTo_succ_iff`), and nothing rounds to two numbers (`RoundsTo.unique`).
-/

namespace RadixScript.Decimal

namespace Binary64

/-! ## Ranks -/

/-- How often the exponent has gone up below the rank. -/
def binade (n : Nat) : Nat := n / 2 ^ 52 - 1

def mantissaAt (n : Nat) : Nat := n - 2 ^ 52 * binade n

def exponentAt (n : Nat) : Int := leastExponent + binade n

/-- The number of a rank. -/
def numberAt (n : Nat) : ℚ := mantissaAt n * 2 ^ exponentAt n

/-- To the next rank the mantissa goes up by one, or the exponent does, and the mantissa goes back
to the hidden bit. -/
theorem succ_cases (n : Nat) :
    (exponentAt (n + 1) = exponentAt n ∧ mantissaAt (n + 1) = mantissaAt n + 1) ∨
      (exponentAt (n + 1) = exponentAt n + 1 ∧ mantissaAt n = 2 ^ 53 - 1 ∧
        mantissaAt (n + 1) = 2 ^ 52) := by
  simp only [mantissaAt, exponentAt, binade]
  omega

/-- The hidden bit alone is the mantissa of a rank only where the exponent has just gone up, or at
the least exponent. -/
theorem mantissaAt_succ_eq_iff (n : Nat) :
    mantissaAt (n + 1) = hiddenBit ∧ leastExponent < exponentAt (n + 1) ↔
      exponentAt (n + 1) = exponentAt n + 1 := by
  have hbit : hiddenBit = 2 ^ 52 := rfl
  rw [hbit]
  simp only [mantissaAt, exponentAt, binade]
  omega

theorem mantissaAt_mod_two (n : Nat) : mantissaAt n % 2 = n % 2 := by
  simp only [mantissaAt, binade]
  omega

theorem mantissaAt_eq_zero_iff {n : Nat} : mantissaAt n = 0 ↔ n = 0 := by
  simp only [mantissaAt, binade]
  omega

theorem mantissaAt_succ_pos (n : Nat) : 0 < mantissaAt (n + 1) :=
  Nat.pos_of_ne_zero (mantissaAt_eq_zero_iff.not.mpr n.succ_ne_zero)

theorem leastExponent_le_exponentAt (n : Nat) : leastExponent ≤ exponentAt n := by
  simp only [exponentAt]
  omega

theorem two_zpow_pos (e : Int) : (0 : ℚ) < 2 ^ e := zpow_pos two_pos e

/-- **Neighbours differ by one unit of the lower one.** -/
theorem numberAt_succ (n : Nat) : numberAt (n + 1) = numberAt n + 2 ^ exponentAt n := by
  rw [numberAt, numberAt]
  rcases succ_cases n with ⟨hexponent, hmantissa⟩ | ⟨hexponent, hmantissa, hnext⟩
  · rw [hexponent, hmantissa]
    push_cast
    ring
  · rw [hexponent, hmantissa, hnext, zpow_add_one₀ two_ne_zero]
    norm_num
    ring

theorem numberAt_strictMono : StrictMono numberAt := by
  refine strictMono_nat_of_lt_succ fun n => ?_
  rw [numberAt_succ]
  exact lt_add_of_pos_right _ (two_zpow_pos _)

@[simp]
theorem numberAt_zero : numberAt 0 = 0 := by
  simp [numberAt, mantissaAt]

theorem numberAt_nonneg (n : Nat) : 0 ≤ numberAt n :=
  mul_nonneg (Nat.cast_nonneg _) (two_zpow_pos _).le

/-! ## Rounding -/

/-- The number of rank `n` is the closest to `q`, and its mantissa is even if another one is equally
close. -/
structure RoundsTo (q : ℚ) (n : Nat) : Prop where
  nearest : ∀ k, |q - numberAt n| ≤ |q - numberAt k|
  tiesToEven : ∀ k ≠ n, |q - numberAt n| = |q - numberAt k| → mantissaAt n % 2 = 0

/-- The point between a number and the next one. -/
def halfway (n : Nat) : ℚ := (numberAt n + numberAt (n + 1)) / 2

theorem halfway_eq_add (n : Nat) : halfway n = numberAt n + 2 ^ exponentAt n / 2 := by
  rw [halfway, numberAt_succ]
  ring

theorem halfway_eq_sub (n : Nat) : halfway n = numberAt (n + 1) - 2 ^ exponentAt n / 2 := by
  rw [halfway, numberAt_succ]
  ring

theorem lt_halfway (n : Nat) : numberAt n < halfway n := by
  rw [halfway_eq_add]
  exact lt_add_of_pos_right _ (half_pos (two_zpow_pos _))

theorem halfway_lt (n : Nat) : halfway n < numberAt (n + 1) := by
  rw [halfway_eq_sub]
  exact sub_lt_self _ (half_pos (two_zpow_pos _))

theorem halfway_strictMono : StrictMono halfway :=
  strictMono_nat_of_lt_succ fun n => (halfway_lt n).trans (lt_halfway (n + 1))

theorem halfway_pos (n : Nat) : 0 < halfway n :=
  (numberAt_nonneg n).trans_lt (lt_halfway n)

section Distance

variable {a b q : ℚ}

/-- A number is closer to the greater of two others if it is past the point between them. -/
theorem abs_sub_le_iff_of_lt (h : a < b) : |q - b| ≤ |q - a| ↔ (a + b) / 2 ≤ q := by
  rw [← sq_le_sq]
  constructor <;> intro hle <;> nlinarith

theorem abs_sub_le_iff_of_gt (h : a < b) : |q - a| ≤ |q - b| ↔ q ≤ (a + b) / 2 := by
  rw [← sq_le_sq]
  constructor <;> intro hle <;> nlinarith

theorem abs_sub_eq_iff (h : a < b) : |q - a| = |q - b| ↔ q = (a + b) / 2 := by
  rw [le_antisymm_iff, abs_sub_le_iff_of_gt h, abs_sub_le_iff_of_lt h, le_antisymm_iff]

end Distance

variable {q t : ℚ} {n k : Nat}

theorem RoundsTo.le_halfway (h : RoundsTo q n) : q ≤ halfway n :=
  (abs_sub_le_iff_of_gt (numberAt_strictMono n.lt_succ_self)).mp (h.nearest (n + 1))

theorem RoundsTo.halfway_le (h : RoundsTo q (n + 1)) : halfway n ≤ q :=
  (abs_sub_le_iff_of_lt (numberAt_strictMono n.lt_succ_self)).mp (h.nearest n)

/-- Two ranks that are equally close are neighbours, and one of the two is odd. -/
theorem RoundsTo.not_lt (hn : RoundsTo q n) (hk : RoundsTo q k) : ¬ n < k := by
  intro hlt
  have hequal := le_antisymm (hn.nearest k) (hk.nearest n)
  have hmiddle := (abs_sub_eq_iff (numberAt_strictMono hlt)).mp hequal
  have hnext : k = n + 1 := by
    by_contra hne
    have hbelow := numberAt_strictMono (show n + 1 < k by omega)
    have hle := hn.le_halfway
    rw [halfway, hmiddle] at hle
    linarith
  have hevenN := hn.tiesToEven k hlt.ne' hequal
  have hevenK := hk.tiesToEven n hlt.ne hequal.symm
  rw [mantissaAt_mod_two] at hevenN hevenK
  omega

/-- **A number rounds to one rank only.** -/
theorem RoundsTo.unique (hn : RoundsTo q n) (hk : RoundsTo q k) : n = k := by
  have hle := hn.not_lt hk
  have hge := hk.not_lt hn
  omega

/-- Rounding keeps the order. -/
theorem RoundsTo.lt_of_lt (hn : RoundsTo q n) (hk : RoundsTo t k) (hlt : n < k) : q < t := by
  obtain ⟨k, rfl⟩ := Nat.exists_eq_add_one_of_ne_zero (Nat.ne_zero_of_lt hlt)
  have hle : q ≤ t :=
    hn.le_halfway.trans ((halfway_strictMono.monotone (Nat.le_of_lt_succ hlt)).trans hk.halfway_le)
  refine lt_of_le_of_ne hle ?_
  rintro rfl
  exact hlt.ne (hn.unique hk)

theorem roundsTo_numberAt (n : Nat) : RoundsTo (numberAt n) n where
  nearest k := by rw [sub_self, abs_zero]; exact abs_nonneg _
  tiesToEven k hk h := by
    rw [sub_self, abs_zero, eq_comm, abs_eq_zero, sub_eq_zero] at h
    exact absurd (numberAt_strictMono.injective h).symm hk

/-- Of the ranks on one side of a number, the next one is the closest. -/
theorem nearest_of_between (hlow : halfway n ≤ q) (hhigh : q ≤ halfway (n + 1)) (hk : k ≠ n + 1) :
    |q - numberAt (n + 1)| ≤ |q - numberAt k| ∧
      (|q - numberAt (n + 1)| = |q - numberAt k| → q = halfway n ∨ q = halfway (n + 1)) := by
  rcases Nat.lt_or_gt_of_ne hk with hlt | hgt
  · have hle := numberAt_strictMono.monotone (Nat.le_of_lt_succ hlt)
    have hlt := numberAt_strictMono hlt
    simp only [halfway] at hlow ⊢
    refine ⟨(abs_sub_le_iff_of_lt hlt).mpr (by linarith), fun heq => Or.inl ?_⟩
    have hmiddle := (abs_sub_eq_iff hlt).mp heq.symm
    exact le_antisymm (by linarith) hlow
  · have hge := numberAt_strictMono.monotone (Nat.succ_le_of_lt hgt)
    have hgt := numberAt_strictMono hgt
    simp only [halfway] at hhigh ⊢
    refine ⟨(abs_sub_le_iff_of_gt hgt).mpr (by linarith), fun heq => Or.inr ?_⟩
    have hmiddle := (abs_sub_eq_iff hgt).mp heq
    exact le_antisymm hhigh (by linarith)

/-- **What rounds to a number is between the points halfway to its neighbours**, and on one of them
only if the mantissa is even. -/
theorem roundsTo_succ_iff :
    RoundsTo q (n + 1) ↔ if mantissaAt (n + 1) % 2 = 0 then halfway n ≤ q ∧ q ≤ halfway (n + 1)
      else halfway n < q ∧ q < halfway (n + 1) := by
  constructor
  · intro h
    split
    · exact ⟨h.halfway_le, h.le_halfway⟩
    · next hodd =>
      refine ⟨lt_of_le_of_ne h.halfway_le fun heq => hodd (h.tiesToEven n (by omega) ?_),
        lt_of_le_of_ne h.le_halfway fun heq => hodd (h.tiesToEven (n + 2) (by omega) ?_)⟩
      · exact ((abs_sub_eq_iff (numberAt_strictMono (by omega))).mpr heq.symm).symm
      · exact (abs_sub_eq_iff (numberAt_strictMono (by omega))).mpr heq
  · intro h
    obtain ⟨hlow, hhigh⟩ : halfway n ≤ q ∧ q ≤ halfway (n + 1) := by
      split at h
      · exact h
      · exact ⟨h.1.le, h.2.le⟩
    refine ⟨fun k => ?_, fun k hk heq => ?_⟩
    · rcases eq_or_ne k (n + 1) with rfl | hk
      · exact le_rfl
      · exact (nearest_of_between hlow hhigh hk).1
    · by_contra hodd
      rw [if_neg hodd] at h
      rcases (nearest_of_between hlow hhigh hk).2 heq with hend | hend
      · exact h.1.ne' hend
      · exact h.2.ne hend

end Binary64

end RadixScript.Decimal
