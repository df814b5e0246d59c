import RadixScript.Run.Machine
import RadixScript.Value.Radix

/-!
# Native functions

What the native functions do with their arguments. The number of arguments is checked before they
are called; a missing argument counts as `null`.
-/

namespace RadixScript.Native

/-- The display text of a value. -/
def display (v : Value) : Except Fault String :=
  match v.display? with
  | some s => .ok s
  | none => .error .overlong

/-- The numeral of base `b` for a numeral, a text of one or a natural number. -/
def toNumeral (b : Base) (v : Value) : Except Fault Value :=
  match Radix.numeral? v with
  | some x => .ok (.numeral (x.convert b))
  | none => do
    let _ ← v.kindOf
    match v with
    | .int n =>
      if n < 0 then
        match Decimal.integerText? n with
        | some shown => throw (.cause (.radix (.negativeIn shown b)))
        | none => throw .overlong
      else pure (.numeral (.ofNat b n.toNat))
    | _ => throw (.cause .notConvertible)

/-- The integer that a text without a decimal point stands for. A text with one is left as it is.
Blanks around it do not matter. -/
def ofDecimalText? (s : String) : Option Value :=
  let stripped := Text.strip s.toList
  if stripped.contains '.' then some (.text s)
  else (Decimal.readInteger? stripped).map Value.int

/-- The decimal number of a value: numbers stay as they are, numerals become integers. -/
def toDecimal (v : Value) : Except Fault Value := do
  let _ ← v.kindOf
  match v with
  | .int _ | .float _ => pure v
  | _ =>
    match Radix.numeral? v with
    | some x => pure (.int x.toDecimal)
    | none =>
      let fromText :=
        match v with
        | .text s => ofDecimalText? s
        | _ => none
      match fromText with
      | some w => pure w
      | none => throw (.cause (.notAnInteger (← display v)))

/-- Calls a native function. -/
def run (f : Native) (args : List Value) : Run Value :=
  let arg := args.headD .null
  match f with
  | clock => return .float (← Run.readClock)
  | print => do
    let s ← Run.lift (display arg)
    Run.write (s ++ "\n")
    pure .null
  | str => return .text (← Run.lift (display arg))
  | read => return ((← Run.readLine).map Value.text).getD .null
  | binary => Run.lift (toNumeral .binary arg)
  | hexadecimal => Run.lift (toNumeral .hexadecimal arg)
  | decimal => Run.lift (toDecimal arg)

end RadixScript.Native
