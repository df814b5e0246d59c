import RadixScript.Numeral.Reading
import RadixScript.Token.Basic

/-!
# Faults

What can stop a running program. A `RuntimeError` is an error of the program: it has a cause with a
message and, once known, the token at fault. The other faults come from the limits of the machine
that runs it, and no program is told about them.
-/

namespace RadixScript

/-- An operation on tagged numerals. -/
inductive RadixOperation where
  | conversion | add | subtract | bitAnd | bitOr
deriving DecidableEq, Repr

/-- The name of an operation in messages. -/
def RadixOperation.name : RadixOperation → String
  | conversion => "conversion"
  | add => "add"
  | subtract => "subtract"
  | bitAnd => "&"
  | bitOr => "|"

/-- What is wrong with a numeral or with the operands of an operation on numerals. -/
inductive RadixProblem where
  | digits (p : DigitProblem)
  | unsupportedBase (shown : String)
  | negative
  /-- A negative integer, shown in decimal, that has no numeral of the base. -/
  | negativeIn (shown : String) (base : Base)
  /-- `got` is the operand when it is a text. -/
  | notANumeral (operation : RadixOperation) (got : Option String)
  | noOperands
  | mixedBases (operation : RadixOperation)
deriving DecidableEq, Repr

/-- Why a running program is in error. -/
inductive Cause where
  | notAddable
  | notNumbers
  | notDecimal
  | notIntegers
  | moduloByZero
  | notTagged
  | notANumber
  | notCallable
  | notConvertible
  /-- The display text of a value that is not an integer. -/
  | notAnInteger (shown : String)
  | undefined (name : String)
  | arity (expected got : Nat)
  | radix (p : RadixProblem)
  | unknownBinary (op : String)
  | unknownUnary (op : String)
deriving DecidableEq, Repr

/-- The families of errors. -/
inductive ErrorFamily where
  | type | undefinedName | arity | radix | operator
deriving DecidableEq, Repr

/-- An error of a running program. -/
structure RuntimeError where
  cause : Cause
  /-- The token at fault, once it is known. -/
  token? : Option Token

/-- What stops a running program. -/
inductive Fault where
  | error (e : RuntimeError)
  /-- An integer is too large for a floating-point number. -/
  | overflow
  /-- An integer has too many digits to be written. -/
  | overlong
  /-- A foreign value of the named type, and what it was meant for if that is known. -/
  | foreign (role : Option String) (typeName : String)
  /-- There is no scope that many steps outwards. -/
  | shortChain (distance : Nat)
  /-- Calls are nested deeper than the machine allows. -/
  | tooDeep
  /-- The program asks for a line of input that has not arrived yet. -/
  | awaitingInput
  /-- The program asks for a reading of the clock that has not been taken yet. -/
  | awaitingReading

/-! ## Wording -/

def DigitProblem.message : DigitProblem → String
  | missing b => "Expected " ++ b.name ++ " digits after '" ++ b.tag ++ "'."
  | invalid b c s =>
    "Invalid " ++ b.name ++ " digit " ++ Text.quoted (String.singleton c) ++ " in '" ++ b.tag ++ s
      ++ "'."

def RadixProblem.message : RadixProblem → String
  | digits p => p.message
  | unsupportedBase shown => "Unsupported base " ++ shown ++ "."
  | negative => "Cannot encode a negative value as a tagged numeral."
  | negativeIn shown b =>
    "Cannot encode negative value " ++ shown ++ " in base " ++ toString b.radix ++ "."
  | notANumeral operation none =>
    "Expected hexadecimal or binary value in " ++ operation.name ++ "."
  | notANumeral operation (some got) =>
    "Expected hexadecimal or binary value in " ++ operation.name ++ ", got " ++ Text.quoted got
      ++ "."
  | noOperands => "add() needs at least one operand."
  | mixedBases operation => "Operands of " ++ operation.name ++ " must share one base."

namespace Cause

def message : Cause → String
  | notAddable => "Operands must be two numbers or two strings."
  | notNumbers => "Operands must be numbers."
  | notDecimal => "Operands must be decimal numbers."
  | notIntegers => "Operands must be integers."
  | moduloByZero => "Modulo by zero."
  | notTagged => "Operands must be hexadecimal or binary numbers."
  | notANumber => "Operand must be a number."
  | notCallable => "Can only call functions."
  | notConvertible => "Expected bin, int, or hex."
  | notAnInteger shown => "Expected int, got " ++ Text.quoted shown ++ "."
  | undefined name => "Undefined variable '" ++ name ++ "'."
  | arity expected got =>
    "Expected " ++ toString expected ++ " arguments but got " ++ toString got ++ "."
  | radix p => p.message
  | unknownBinary op => "Unknown binary operator '" ++ op ++ "'."
  | unknownUnary op => "Unknown unary operator '" ++ op ++ "'."

/-- The family of a cause. -/
def family : Cause → ErrorFamily
  | undefined _ => .undefinedName
  | arity _ _ => .arity
  | radix _ => .radix
  | unknownBinary _ | unknownUnary _ => .operator
  | _ => .type

end Cause

namespace RuntimeError

/-- The line of the token at fault. -/
def line? (e : RuntimeError) : Option Nat := e.token?.map Token.line

/-- Sets the token at fault, unless there is one. -/
def locate (e : RuntimeError) (t : Token) : RuntimeError :=
  { e with token? := e.token?.or (some t) }

/-- The report of an error: its message, and its line if that is known. -/
def report (e : RuntimeError) : String :=
  match e.line? with
  | none => e.cause.message
  | some line => e.cause.message ++ "\n[line " ++ toString line ++ "]"

end RuntimeError

namespace Fault

/-- An error of the program without a token. -/
def cause (c : Cause) : Fault := .error ⟨c, none⟩

/-- An error of the program at a token. -/
def causeAt (t : Token) (c : Cause) : Fault := .error ⟨c, some t⟩

/-- Sets the token of an error that has none. -/
def locate (t : Token) : Fault → Fault
  | .error e => .error (e.locate t)
  | f => f

/-- The message of a fault of foreign values or scope chains. -/
def hostMessage? : Fault → Option String
  | foreign none typeName => some ("unsupported runtime type " ++ typeName)
  | foreign (some role) typeName => some (role ++ " has unsupported runtime type " ++ typeName)
  | shortChain distance => some ("scope chain is shorter than distance " ++ toString distance)
  | _ => none

end Fault

end RadixScript
