import RadixScript.Decimal.Binary64

/-!
# Shortest decimal

The reals that round to a given floating-point number form an interval. The shortest decimal of
the number is the point of that interval on the coarsest power-of-ten grid that has one; of two
such neighbours the nearer to the number is taken, and of two equally near ones the even.

All comparisons are between natural numbers: the interval is stored as three numerators over one
denominator. The search goes from coarse grids to fine ones, and when its steps run out the exact
decimal expansion is taken, so the result always lies in the interval.
-/

namespace RadixScript.Decimal

/-- The reals that round to one positive floating-point number: `value / denominator` is the
number itself, `low / denominator` and `high / denominator` are the ends. -/
structure RoundingInterval where
  low : Nat
  value : Nat
  high : Nat
  denominator : Nat
  /-- Whether the ends round to the number, too: they do when its mantissa is even. -/
  closed : Bool

/-- A number `coefficient * 10 ^ exponent`. -/
structure Scientific where
  coefficient : Nat
  exponent : Int
deriving DecidableEq, Repr

namespace RoundingInterval

/-- The interval of `mantissa * 2 ^ exponent`. The ends are half a unit away, but below a power of
two the next number is only half as far. -/
def ofBinary (mantissa : Nat) (exponent : Int) : RoundingInterval :=
  let below :=
    if mantissa = Binary64.hiddenBit ∧ Binary64.leastExponent < exponent then 1 else 2
  let shift := Nat.pow 2 (exponent - 2).toNat
  { low := (4 * mantissa - below) * shift
    value := 4 * mantissa * shift
    high := (4 * mantissa + 2) * shift
    denominator := Nat.pow 2 (2 - exponent).toNat
    closed := mantissa % 2 = 0 }

/-- Whether `coefficient * 10 ^ exponent` lies in the interval. -/
def contains (r : RoundingInterval) (s : Scientific) : Bool :=
  let point := s.coefficient * Nat.pow 10 s.exponent.toNat * r.denominator
  let scale := Nat.pow 10 (-s.exponent).toNat
  if r.closed then r.low * scale ≤ point && point ≤ r.high * scale
  else r.low * scale < point && point < r.high * scale

/-- The best point of the interval among the two neighbours of the number on the grid of the
multiples of `10 ^ k`. -/
def onGrid? (r : RoundingInterval) (k : Int) : Option Scientific :=
  let unit := Nat.pow 10 k.toNat * r.denominator
  let scaled := r.value * Nat.pow 10 (-k).toNat
  let floor := scaled / unit
  let down : Scientific := ⟨floor, k⟩
  let up : Scientific := ⟨floor + 1, k⟩
  match r.contains down, r.contains up with
  | false, false => none
  | true, false => some down
  | false, true => some up
  | true, true =>
    match compare (2 * (scaled - floor * unit)) unit with
    | .lt => some down
    | .gt => some up
    | .eq => some (if floor % 2 = 0 then down else up)

/-- The first hit on the grids `10 ^ k`, `10 ^ (k - 1)`, … in at most `steps` steps. -/
def coarsest? (r : RoundingInterval) : Nat → Int → Option Scientific
  | 0, _ => none
  | steps + 1, k =>
    match r.onGrid? k with
    | some s => some s
    | none => r.coarsest? steps (k - 1)

end RoundingInterval

/-- The exact decimal expansion of `mantissa * 2 ^ exponent`. -/
def Scientific.ofBinary (mantissa : Nat) (exponent : Int) : Scientific :=
  if 0 ≤ exponent then ⟨mantissa * Nat.pow 2 exponent.toNat, 0⟩
  else ⟨mantissa * Nat.pow 5 (-exponent).toNat, exponent⟩

/-- The shortest decimal that rounds to the positive number `mantissa * 2 ^ exponent`. -/
def shortest (mantissa : Nat) (exponent : Int) : Scientific :=
  let r := RoundingInterval.ofBinary mantissa exponent
  -- The number is below `10 ^ top`; 20 places past its first digit a grid is fine enough.
  let top : Nat := (toString (r.high / r.denominator)).length
  ((r.coarsest? (top + 345) top)).getD (Scientific.ofBinary mantissa exponent)

example : shortest (2 ^ 52) (-52) = ⟨1, 0⟩ := by decide +kernel
example : shortest 1 (-1074) = ⟨5, -324⟩ := by decide +kernel

end RadixScript.Decimal
