import RadixScript.Decimal.Layout
import RadixScript.Numeral.Basic
import RadixScript.Text.Quoted

/-!
# Literals

The constants that a program text can hold. A character literal is a text of one character.
-/

namespace RadixScript

/-- A constant of the language. -/
inductive Literal where
  | null
  | bool (b : Bool)
  | int (n : Nat)
  | float (x : Float)
  | text (s : String)
  | numeral (x : Numeral)

/-- How a token listing shows a literal. -/
def Literal.describe : Literal → String
  | null => "None"
  | bool b => if b then "True" else "False"
  | int n => toString n
  | float x => Decimal.Layout.literal.text x
  | text s => Text.quoted s
  | numeral x =>
    match x.base with
    | .hexadecimal => "Hex(digits=" ++ Text.quoted x.digitText ++ ")"
    | .binary => "Binary(digits=" ++ Text.quoted x.digitText ++ ")"

end RadixScript
