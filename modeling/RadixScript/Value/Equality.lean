import RadixScript.Fault
import RadixScript.Value.Basic

/-!
# Kinds and equality of values

Values of different kinds are never equal. Numerals are compared as numbers, floating-point numbers
by the rules for them, functions by identity. Foreign values have no kind, and asking for it is a
fault.
-/

namespace RadixScript.Value

/-- The kind of a value of the language; a foreign value is a fault. -/
def kindOf (v : Value) : Except Fault ValueKind :=
  match v.kind with
  | .ok k => .ok k
  | .error typeName => .error (.foreign none typeName)

/-- Accepts the values of the language. A fault names what the value was meant for. -/
def validate (role : String) (v : Value) : Except Fault Unit :=
  match v.kind with
  | .ok _ => .ok ()
  | .error typeName => .error (.foreign (some role) typeName)

/-- Whether two values of one kind are the same. -/
def same : Value → Value → Bool
  | null, null => true
  | bool a, bool b => a == b
  | int a, int b => a == b
  | float a, float b => a == b
  | text a, text b => a == b
  | numeral a, numeral b => a.base == b.base && a.toNat == b.toNat
  | native f s, native g t => f == g && s == t
  | closure a, closure b => a.serial == b.serial
  | _, _ => false

/-- The equality of the language. `null` can be compared with anything. -/
def equal (a b : Value) : Except Fault Bool :=
  match a, b with
  | null, null => .ok true
  | null, _ => .ok false
  | _, null => .ok false
  | a, b => do
    let ka ← a.kindOf
    let kb ← b.kindOf
    pure (ka == kb && same a b)

end RadixScript.Value
