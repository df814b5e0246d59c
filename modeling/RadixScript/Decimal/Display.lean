import RadixScript.Decimal.Layout
import RadixScript.Text.Blank

/-!
# Displayed numbers

A floating-point number is displayed by way of its literal. Zero and the numbers from a thousandth
to below ten million keep the text of the literal. Of any other number this text is read again, and
the digits found are laid out with one digit in front of the point and an exponent behind them.
Last, a text that ends in `.0` loses this ending.
-/

namespace RadixScript.Decimal

/-! ## Reading a decimal text -/

/-- The number of a text of the digits `0` to `9`. -/
def digitsValue? (ds : List Char) : Option Nat :=
  if ds ≠ [] ∧ ds.all Char.isDigit then some (Nat.ofDigitChars 10 ds 0) else none

/-- Whether a text has a minus sign in front, and what is behind its sign. -/
def cutSign : List Char → Bool × List Char
  | '-' :: rest => (true, rest)
  | '+' :: rest => (false, rest)
  | rest => (false, rest)

/-- The exponent behind its mark. Without a mark it is zero. -/
def readExponent? : List Char → Option Int
  | [] => some 0
  | _ :: rest =>
    let (negative, digits) := cutSign rest
    (digitsValue? digits).map fun n => if negative then -(n : Int) else n

/-- The sign, the coefficient and the exponent that a decimal text stands for: digits, perhaps with
a point among them, and perhaps an exponent behind `e`. The digits behind the point count down the
exponent, and no zero is dropped at the end. -/
def readDecimal? (s : List Char) : Option (Bool × Scientific) := do
  let (negative, unsigned) := cutSign s
  let body := unsigned.takeWhile (· ≠ 'e')
  let whole := body.takeWhile (· ≠ '.')
  let fraction := (body.dropWhile (· ≠ '.')).drop 1
  let coefficient ← digitsValue? (whole ++ fraction)
  let e ← readExponent? (unsigned.dropWhile (· ≠ 'e'))
  pure (negative, ⟨coefficient, e - fraction.length⟩)

/-! ## The text of a number -/

/-- Digits, of which there is at least a zero. -/
def orZero : List Char → List Char
  | [] => ['0']
  | ds => ds

/-- One digit in front of the point, the others behind it without the zeros at their end, and the
exponent of the first digit. -/
def scientificText (negative : Bool) (s : Scientific) : List Char :=
  let digits := (toString s.coefficient).toList
  let kept := orZero (Text.trimEnd (· = '0') digits)
  let scale := (digits.length : Int) - 1 + s.exponent
  (if negative then ['-'] else []) ++ kept.take 1 ++ '.' :: orZero (kept.drop 1) ++
    'E' :: (toString scale).toList

/-- Drops `.0` at the end. -/
def dropZeroFraction (s : List Char) : List Char :=
  if ['.', '0'] <:+ s then s.take (s.length - 2) else s

/-- Whether a number is zero, or without its sign from a thousandth to below ten million. -/
def keepsLiteral (x : Binary64) : Bool :=
  Binary64.compareMagnitude (Binary64.ofFloat 0) x = some .eq ||
    (Binary64.compareMagnitude (Binary64.ofFloat 1e-3) x).any Ordering.isLE &&
      Binary64.compareMagnitude x (Binary64.ofFloat 1e7) = some .lt

/-- The text of a floating-point number with its fraction; `none` if its literal could not be read
again. -/
def floatText? (x : Float) : Option (List Char) :=
  match Binary64.ofFloat x with
  | .notANumber => some "NaN".toList
  | .infinite negative => some (if negative then "-Infinity" else "Infinity").toList
  | .finite negative m e =>
    let literal := (Layout.literal.text x).toList
    if keepsLiteral (.finite negative m e) then some literal
    else (readDecimal? literal).map fun (negative, s) => scientificText negative s

/-- The text that is displayed for a floating-point number. -/
def displayText? (x : Float) : Option String :=
  (floatText? x).map fun s => String.ofList (dropZeroFraction s)

example : readDecimal? "-0.00025".toList = some (true, ⟨25, -5⟩) := by decide +kernel
example : readDecimal? "1.5e+16".toList = some (false, ⟨15, 15⟩) := by decide +kernel

end RadixScript.Decimal
