/-!
# Blank characters

The white space of Unicode 14 together with the four information separators, and trimming.
-/

namespace RadixScript.Text

/-- The blank code points, as closed ranges in increasing order. -/
def blankRanges : List (Nat × Nat) :=
  [(0x9, 0xD), (0x1C, 0x20), (0x85, 0x85), (0xA0, 0xA0), (0x1680, 0x1680), (0x2000, 0x200A),
   (0x2028, 0x2029), (0x202F, 0x202F), (0x205F, 0x205F), (0x3000, 0x3000)]

/-- Whether a character is blank. -/
def isBlank (c : Char) : Bool :=
  blankRanges.any fun r => r.1 ≤ c.toNat && c.toNat ≤ r.2

/-- Drops the characters that satisfy `p` from the end. -/
def trimEnd (p : Char → Bool) (s : List Char) : List Char :=
  (s.reverse.dropWhile p).reverse

/-- Drops the blanks at both ends. -/
def strip (s : List Char) : List Char := trimEnd isBlank (s.dropWhile isBlank)

example : strip " \t exit \r".toList = "exit".toList := by decide

end RadixScript.Text
