import RadixScript.Text.Blank
import RadixScript.Text.DecimalDigit

/-!
# Integers in decimal

Integers have any size, but their decimal text is bounded: more than `digitLimit` digits are
neither written nor read. Writing uses the digits `0` to `9`; reading takes the decimal digits of
every script, a sign in front and single underscores between digits.
-/

namespace RadixScript.Decimal

open Text

/-- The most decimal digits that an integer text may have. A sign does not count. -/
def digitLimit : Nat := 4300

/-- The decimal text of an integer, `none` when it needs more than `digitLimit` digits. -/
def integerText? (n : Int) : Option String :=
  if n.natAbs < Nat.pow 10 digitLimit then some (toString n) else none

/-- The number that a list of decimal digits stands for, most significant digit first. -/
def ofDigits (ds : List Nat) : Nat := ds.foldl (fun n d => 10 * n + d) 0

/-- The digits of an unsigned integer text: at least one digit, and an underscore only between two
digits. -/
def readDigits? : List Char → Option (List Nat)
  | [] => none
  | [c] => (digitValue? c).map ([·])
  | c :: '_' :: rest => do
    let d ← digitValue? c
    let ds ← readDigits? rest
    pure (d :: ds)
  | c :: rest => do
    let d ← digitValue? c
    let ds ← readDigits? rest
    pure (d :: ds)

/-- An unsigned integer text within the digit limit. Leading zeros count towards the limit. -/
def readNatural? (s : List Char) : Option Nat := do
  let ds ← readDigits? s
  if ds.length ≤ digitLimit then pure (ofDigits ds) else none

/-- An integer text within the digit limit, with an optional sign. -/
def readInteger? : List Char → Option Int
  | '-' :: s => (readNatural? s).map fun n => -(n : Int)
  | '+' :: s => (readNatural? s).map Int.ofNat
  | s => (readNatural? s).map Int.ofNat

example : readInteger? "-1_000".toList = some (-1000) := by decide +kernel
example : readInteger? "1__0".toList = none := by decide +kernel
example : readInteger? ['\u0661', '2'] = some 12 := by decide +kernel

end RadixScript.Decimal
