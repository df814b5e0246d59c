import RadixScript.Decimal.Binary64
import RadixScript.Value.Equality
import RadixScript.Value.Radix

/-!
# Operators

The meaning of the operators on values. Sums also join texts; apart from equality, all other
operators between two values want a pair of numbers: two integers, two floating-point numbers, one
of each, or two numerals of one base. Products and quotients are always floating-point numbers.
Errors are at the token of the operator.
-/

namespace RadixScript

/-- A pair of numbers that an operator can work on. -/
inductive Operands where
  | floats (a b : Float)
  | ints (a b : Int)
  | numerals (base : Base) (a b : Numeral)
  | intFloat (a : Int) (b : Float)
  | floatInt (a : Float) (b : Int)

namespace Operands

/-- The pair that two values are, if they are one. -/
def ofValues? : Value → Value → Option Operands
  | .float a, .float b => some (floats a b)
  | .int a, .int b => some (ints a b)
  | .numeral a, .numeral b => if a.base = b.base then some (numerals a.base a b) else none
  | .int a, .float b => some (intFloat a b)
  | .float a, .int b => some (floatInt a b)
  | _, _ => none

/-- The pair that two values are. Foreign values are refused first, the left one before the
right. -/
def classify (op : Token) (l r : Value) : Except Fault Operands := do
  let _ ← l.kindOf
  let _ ← r.kindOf
  match ofValues? l r with
  | some pair => pure pair
  | none => throw (.causeAt op .notNumbers)

/-- The name of the kind of pair. -/
def name : Operands → String
  | floats _ _ => "float×float"
  | ints _ _ => "int×int"
  | numerals .hexadecimal _ _ => "hex×hex"
  | numerals .binary _ _ => "bin×bin"
  | intFloat _ _ => "int×float"
  | floatInt _ _ => "float×int"

/-- The order of two floating-point numbers; not-a-number is in no order with anything. -/
def compareFloats (a b : Float) : Option Ordering :=
  if a < b then some .lt else if a == b then some .eq else if b < a then some .gt else none

/-- The exact order of the two numbers, if they are in one. -/
def order? : Operands → Option Ordering
  | floats a b => compareFloats a b
  | ints a b => some (compare a b)
  | numerals _ a b => some (compare a.toDecimal b.toDecimal)
  | intFloat a b => Decimal.Binary64.compareInt a (.ofFloat b)
  | floatInt a b => (Decimal.Binary64.compareInt b (.ofFloat a)).map Ordering.swap

end Operands

namespace Operator

/-- The orders that a comparison accepts, when the kind is one. -/
def comparison? : Kind → Option (Ordering → Bool)
  | .greater => some Ordering.isGT
  | .greaterEqual => some Ordering.isGE
  | .less => some Ordering.isLT
  | .lessEqual => some Ordering.isLE
  | _ => none

/-- The nearest floating-point number; an integer past the largest one is a fault. -/
def toFloat (n : Int) : Except Fault Float :=
  let x := Float.ofInt n
  if x.isInf then .error .overflow else .ok x

/-- A result on numerals; its problem is an error at the operator. -/
def radixResult (op : Token) : Except RadixProblem Numeral → Except Fault Value
  | .ok x => .ok (.numeral x)
  | .error p => .error (.causeAt op (.radix p))

/-- Sum of two numbers of one kind, or two texts put together. -/
def plus (op : Token) (l r : Value) : Except Fault Value := do
  let _ ← l.kindOf
  let _ ← r.kindOf
  match l, r with
  | .text a, .text b => pure (.text (a ++ b))
  | .float a, .float b => pure (.float (a + b))
  | .int a, .int b => pure (.int (a + b))
  | .numeral a, .numeral b =>
    if a.base = b.base then radixResult op (Radix.add [l, r])
    else throw (.causeAt op .notAddable)
  | _, _ => throw (.causeAt op .notAddable)

/-- Difference of two numbers. -/
def minus (op : Token) (l r : Value) : Operands → Except Fault Value
  | .floats a b => pure (.float (a - b))
  | .ints a b => pure (.int (a - b))
  | .numerals _ _ _ => radixResult op (Radix.subtract l r)
  | .intFloat a b => return .float ((← toFloat a) - b)
  | .floatInt a b => return .float (a - (← toFloat b))

/-- The two numbers as floating-point numbers; numerals are refused. -/
def asFloats (op : Token) : Operands → Except Fault (Float × Float)
  | .floats a b => pure (a, b)
  | .ints a b => return (← toFloat a, ← toFloat b)
  | .numerals _ _ _ => throw (.causeAt op .notDecimal)
  | .intFloat a b => return (← toFloat a, b)
  | .floatInt a b => return (a, ← toFloat b)

/-- The remainder of two integers. It has the sign of the dividend. -/
def remainder (op : Token) : Operands → Except Fault Value
  | .ints a b => if b = 0 then throw (.causeAt op .moduloByZero) else pure (.int (a.tmod b))
  | _ => throw (.causeAt op .notIntegers)

/-- A bitwise operation, on numerals only. -/
def bitwise (op : Token) (f : Value → Value → Except RadixProblem Numeral) (l r : Value) :
    Operands → Except Fault Value
  | .numerals _ _ _ => radixResult op (f l r)
  | _ => throw (.causeAt op .notTagged)

/-- An operator on a pair of numbers. -/
def arithmetic (op : Token) (l r : Value) (pair : Operands) : Except Fault Value :=
  match comparison? op.kind with
  | some accepts => pure (.bool (pair.order?.any accepts))
  | none =>
    match op.kind with
    | .minus => minus op l r pair
    | .star => do
      let (a, b) ← asFloats op pair
      pure (.float (a * b))
    | .slash => do
      let (a, b) ← asFloats op pair
      pure (.float (a / b))
    | .percent => remainder op pair
    | .bitwiseOr => bitwise op Radix.bitOr l r pair
    | .bitwiseAnd => bitwise op Radix.bitAnd l r pair
    | _ => throw (.causeAt op (.unknownBinary op.text))

/-- An operator between two values. -/
def binary (op : Token) (l r : Value) : Except Fault Value :=
  match op.kind with
  | .equalEqual => return .bool (← l.equal r)
  | .bangEqual => return .bool (!(← l.equal r))
  | .plus => plus op l r
  | _ => do
    let pair ← Operands.classify op l r
    arithmetic op l r pair

/-- An operator in front of a value. -/
def unary (op : Token) (v : Value) : Except Fault Value :=
  match op.kind with
  | .bang => pure (.bool (!v.isTruthy))
  | .minus => do
    let _ ← v.kindOf
    match v with
    | .int n => pure (.int (-n))
    | .float x => pure (.float (-x))
    | _ => throw (.causeAt op .notANumber)
  | _ => throw (.causeAt op (.unknownUnary op.text))

/-- Whether the left operand of a logical operator is its result already: a true one for `||`, a
false one for any other. -/
def settles (op : Token) (left : Value) : Bool :=
  if op.kind = .logicalOr then left.isTruthy else !left.isTruthy

end Operator

end RadixScript
