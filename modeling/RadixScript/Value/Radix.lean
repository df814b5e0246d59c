import RadixScript.Fault
import RadixScript.Numeral.Arithmetic
import RadixScript.Value.Basic

/-!
# Numeral operations on values

The operands are numerals or texts of numerals such as `"0xff"`. All operands of an operation have
one base, and so does its result.
-/

namespace RadixScript.Radix

/-- The numeral that a value is, or that its text is. -/
def numeral? : Value → Option Numeral
  | .numeral x => some x
  | .text s => Numeral.ofTagged? s
  | _ => none

/-- An operand of an operation. -/
def operand (operation : RadixOperation) (v : Value) : Except RadixProblem Numeral :=
  match numeral? v, v with
  | some x, _ => .ok x
  | none, .text s => .error (.notANumeral operation (some s))
  | none, _ => .error (.notANumeral operation none)

/-- The base that all numerals have. -/
def commonBase (operation : RadixOperation) : List Numeral → Except RadixProblem Base
  | [] => .error (.mixedBases operation)
  | x :: xs => if xs.all (·.base = x.base) then .ok x.base else .error (.mixedBases operation)

/-- The number that a numeral stands for. -/
def toDecimal (v : Value) : Except RadixProblem Nat := return (← operand .conversion v).toDecimal

/-- The numeral of a natural number. `base` is the number of digits of the base. -/
def fromDecimal (n base : Int) : Except RadixProblem Numeral :=
  match Base.ofInt? base with
  | none => .error (.unsupportedBase (toString base))
  | some b => if n < 0 then .error .negative else .ok (.ofNat b n.toNat)

/-- The numeral in the base with the given number of digits. -/
def convert (v : Value) (base : Int) : Except RadixProblem Numeral := do
  let x ← operand .conversion v
  if (x.base.radix : Int) = base then pure x else fromDecimal x.toDecimal base

/-- The sum of at least one operand. -/
def add (vs : List Value) : Except RadixProblem Numeral := do
  if vs.isEmpty then throw .noOperands
  let xs ← vs.mapM (operand .add)
  let b ← commonBase .add xs
  pure (.sum b xs)

/-- The two operands of an operation and their base. -/
def operands (operation : RadixOperation) (v w : Value) :
    Except RadixProblem (Base × Numeral × Numeral) := do
  let x ← operand operation v
  let y ← operand operation w
  let b ← commonBase operation [x, y]
  pure (b, x, y)

/-- The distance between two operands. -/
def subtract (v w : Value) : Except RadixProblem Numeral := do
  let (b, x, y) ← operands .subtract v w
  pure (.distance b x y)

/-- Bitwise conjunction of two operands. -/
def bitAnd (v w : Value) : Except RadixProblem Numeral := do
  let (b, x, y) ← operands .bitAnd v w
  pure (.bitAnd b x y)

/-- Bitwise disjunction of two operands. -/
def bitOr (v w : Value) : Except RadixProblem Numeral := do
  let (b, x, y) ← operands .bitOr v w
  pure (.bitOr b x y)

end RadixScript.Radix
