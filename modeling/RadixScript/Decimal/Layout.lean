import RadixScript.Decimal.Shortest

/-!
# Layout of floating-point numbers

The shortest decimal of a number can be laid out in several ways. A `Layout` says which exponents
are written positionally and how the rest is written; the language has one layout for values that
a program prints and one for literals in token listings. What a program prints is found by way of
the literal (`displayText?`), and comes out in the other layout.
-/

namespace RadixScript.Decimal

/-- The decisions that turn the digits of a number into text. -/
structure Layout where
  /-- The least decimal exponent that is written positionally. -/
  positionalFrom : Int
  /-- The first decimal exponent past those that are written positionally. -/
  positionalBelow : Int
  /-- What follows the digits of a whole number in positional notation. -/
  wholeEnding : String
  /-- What follows a single digit in front of the exponent mark. -/
  loneDigitEnding : String
  /-- The mark in front of the exponent. -/
  mark : String
  /-- The text of the exponent. -/
  exponentText : Int → String
  notANumber : String
  infinity : String

namespace Layout

/-- Digits with the decimal point before the digit of exponent `e - 1`, where the first digit has
exponent `e`. -/
def positional (l : Layout) (digits : String) (e : Int) : String :=
  if e < 0 then
    "0." ++ String.ofList (List.replicate (-e - 1).toNat '0') ++ digits
  else
    let whole := e.toNat + 1
    if digits.length ≤ whole then
      digits ++ String.ofList (List.replicate (whole - digits.length) '0') ++ l.wholeEnding
    else
      String.ofList (digits.toList.take whole) ++ "." ++ String.ofList (digits.toList.drop whole)

/-- One digit, the others behind the point, and the exponent of the first digit. -/
def exponential (l : Layout) (digits : String) (e : Int) : String :=
  let lead := String.ofList (digits.toList.take 1)
  let fraction := String.ofList (digits.toList.drop 1)
  lead ++ (if fraction.isEmpty then l.loneDigitEnding else "." ++ fraction) ++ l.mark
    ++ l.exponentText e

/-- The text of an unsigned decimal. -/
def unsigned (l : Layout) (s : Scientific) : String :=
  let digits := toString s.coefficient
  let e := (digits.length : Int) - 1 + s.exponent
  if l.positionalFrom ≤ e ∧ e < l.positionalBelow then l.positional digits e
  else l.exponential digits e

/-- The text of a floating-point number. -/
def text (l : Layout) (x : Float) : String :=
  match Binary64.ofFloat x with
  | .notANumber => l.notANumber
  | .infinite negative => (if negative then "-" else "") ++ l.infinity
  | .finite negative m e =>
    (if negative then "-" else "") ++ l.unsigned (if m = 0 then ⟨0, 0⟩ else shortest m e)

/-- Values are positional from a thousandth to below ten million, and whole ones have no fraction.
Others have a fraction and a bare exponent, as in `1.0E7` and `2.5E-4`. -/
def display : Layout where
  positionalFrom := -3
  positionalBelow := 7
  wholeEnding := ""
  loneDigitEnding := ".0"
  mark := "E"
  exponentText := toString
  notANumber := "NaN"
  infinity := "Infinity"

/-- An exponent with its sign and at least two digits. -/
def signedExponent (e : Int) : String :=
  let digits := toString e.natAbs
  (if e < 0 then "-" else "+") ++ (if digits.length < 2 then "0" else "") ++ digits

/-- Literals are positional from a ten-thousandth to below ten to the sixteenth, and whole ones end
in `.0`. Others have a signed exponent, as in `1e-05` and `1.5e+16`. -/
def literal : Layout where
  positionalFrom := -4
  positionalBelow := 16
  wholeEnding := ".0"
  loneDigitEnding := ""
  mark := "e"
  exponentText := signedExponent
  notANumber := "nan"
  infinity := "inf"

end Layout

end RadixScript.Decimal
