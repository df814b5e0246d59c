import RadixScript.Decimal.Display
import RadixScript.Decimal.Integer
import RadixScript.Tree.Basic

/-!
# Values

The values of a running program. Besides the values of the language there are foreign ones, which a
host may pass in; they have a type name and nothing else, and most operations refuse them.
-/

namespace RadixScript

/-- The functions that every session provides. -/
inductive Native where
  | clock | print | str | read | binary | hexadecimal | decimal
deriving DecidableEq, Repr

namespace Native

/-- All native functions, in the order in which a session binds them. -/
def all : List Native := [clock, print, str, read, binary, hexadecimal, decimal]

/-- The name that a session binds the function to. -/
def name : Native → String
  | clock => "clock"
  | print => "print"
  | str => "str"
  | read => "read"
  | binary => "binary"
  | hexadecimal => "hexadecimal"
  | decimal => "decimal"

/-- The number of arguments. -/
def arity : Native → Nat
  | clock | read => 0
  | print | str | binary | hexadecimal | decimal => 1

end Native

/-- The number of a scope, in the order of creation. -/
abbrev ScopeId := Nat

/-- A function of the program together with the scope of its declaration. -/
structure Closure where
  name : Token
  params : List Token
  body : List (Stmt (Option Nat))
  scope : ScopeId
  /-- Tells apart the closures of one declaration. -/
  serial : Nat

/-- A value of a running program. -/
inductive Value where
  | null
  | bool (b : Bool)
  | int (n : Int)
  | float (x : Float)
  | text (s : String)
  | numeral (x : Numeral)
  /-- A native function and the number of the session that provides it. -/
  | native (f : Native) (session : Nat)
  | closure (f : Closure)
  | foreign (typeName : String)

/-- The value of a literal. -/
def Literal.value : Literal → Value
  | null => .null
  | bool b => .bool b
  | int n => .int n
  | float x => .float x
  | text s => .text s
  | numeral x => .numeral x

/-- The kind of a value of the language. -/
inductive ValueKind where
  | null | bool | int | float | string | hex | binary | callable
deriving DecidableEq, Repr

/-- The name of a kind of value. -/
def ValueKind.name : ValueKind → String
  | null => "null"
  | bool => "bool"
  | int => "int"
  | float => "float"
  | string => "string"
  | hex => "hex"
  | binary => "binary"
  | callable => "callable"

namespace Value

/-- The kind of a value, or the type name of a foreign one. -/
def kind : Value → Except String ValueKind
  | null => .ok .null
  | bool _ => .ok .bool
  | int _ => .ok .int
  | float _ => .ok .float
  | text _ => .ok .string
  | numeral x => .ok (match x.base with | .hexadecimal => .hex | .binary => .binary)
  | native _ _ | closure _ => .ok .callable
  | foreign typeName => .error typeName

/-- Only `null` and `false` count as false. -/
def isTruthy : Value → Bool
  | null => false
  | bool b => b
  | _ => true

/-- Whether the value is a function. -/
def isCallable : Value → Bool
  | native _ _ | closure _ => true
  | _ => false

/-- The number of arguments of a function. -/
def arity? : Value → Option Nat
  | native f _ => some f.arity
  | closure f => some f.params.length
  | _ => none

/-- The text that a program prints for a value; `none` for an integer with too many digits. A
floating-point number always has one. -/
def display? : Value → Option String
  | null => some "nil"
  | bool b => some (if b then "true" else "false")
  | int n => Decimal.integerText? n
  | float x => Decimal.displayText? x
  | text s => some s
  | numeral x => some x.text
  | native _ _ => some "<native fn>"
  | closure f => some ("<fn " ++ f.name.text ++ ">")
  | foreign typeName => some ("<" ++ typeName ++ ">")

end Value

end RadixScript
