/-!
# Binary64 numbers as exact numbers

A finite floating-point number is an integer times a power of two. This module takes the 64 bits
apart, so that numbers can be compared with integers and with each other exactly and written in
decimal.
-/

namespace RadixScript.Decimal

/-- What a binary64 number stands for. -/
inductive Binary64 where
  | notANumber
  | infinite (negative : Bool)
  /-- The number `mantissa * 2 ^ exponent`, negated when `negative`. -/
  | finite (negative : Bool) (mantissa : Nat) (exponent : Int)
deriving DecidableEq, Repr

namespace Binary64

/-- The exponent of the numbers closest to zero. -/
def leastExponent : Int := -1074

/-- The mantissa of a power of two that is not one of the numbers closest to zero. -/
def hiddenBit : Nat := Nat.pow 2 52

/-- Takes a 64-bit pattern apart: one sign bit, eleven exponent bits, 52 fraction bits. -/
def ofPattern (bits : Nat) : Binary64 :=
  let negative : Bool := bits / Nat.pow 2 63 % 2 = 1
  let biased : Nat := bits / Nat.pow 2 52 % Nat.pow 2 11
  let fraction : Nat := bits % Nat.pow 2 52
  if biased = 2047 then
    if fraction = 0 then .infinite negative else .notANumber
  else if biased = 0 then
    .finite negative fraction leastExponent
  else
    .finite negative (hiddenBit + fraction) ((biased : Int) - 1075)

/-- What a floating-point number stands for. -/
def ofFloat (x : Float) : Binary64 := ofPattern x.toBits.toNat

/-- The two sides `a` and `b` of the comparison of `n` with `± mantissa * 2 ^ exponent`, scaled by
a common power of two so that both are integers. -/
def scaled (n : Int) (negative : Bool) (mantissa : Nat) (exponent : Int) : Int × Int :=
  let m : Int := if negative then -mantissa else mantissa
  if 0 ≤ exponent then (n, m * Nat.pow 2 exponent.toNat) else (n * Nat.pow 2 (-exponent).toNat, m)

/-- The exact order of an integer and a floating-point number; not-a-number is in no order with
anything. -/
def compareInt (n : Int) : Binary64 → Option Ordering
  | .notANumber => none
  | .infinite negative => some (if negative then .gt else .lt)
  | .finite negative m e =>
    let (a, b) := scaled n negative m e
    some (compare a b)

/-- The exact order of two numbers without their signs; not-a-number is in no order with
anything. -/
def compareMagnitude : Binary64 → Binary64 → Option Ordering
  | .notANumber, _ | _, .notANumber => none
  | .infinite _, .infinite _ => some .eq
  | .infinite _, .finite .. => some .gt
  | .finite .., .infinite _ => some .lt
  | .finite _ m e, .finite _ m' e' =>
    some (compare (m * Nat.pow 2 (e - e').toNat) (m' * Nat.pow 2 (e' - e).toNat))

example : ofFloat 1.5 = .finite false (2 ^ 52 + 2 ^ 51) (-52) := by decide +kernel
example : compareInt (2 ^ 53 + 1) (ofFloat 9007199254740992.0) = some .gt := by decide +kernel
example : compareMagnitude (ofFloat (-0.5)) (ofFloat 1e7) = some .lt := by decide +kernel

end Binary64

end RadixScript.Decimal
