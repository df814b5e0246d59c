import RadixScript.Text.Printable

/-!
# Quoted text

How a message quotes a piece of text: between single quotes, or between double quotes when the
text holds a single quote and no double one. The quote in use, the backslash and all characters
that are not printable are written as escapes.
-/

namespace RadixScript.Text

/-- The lower-case hexadecimal digits of `n`, at least `width` of them. -/
def hexDigits (width n : Nat) : List Char :=
  let ds := Nat.toDigits 16 n
  List.replicate (width - ds.length) '0' ++ ds

/-- The quote that a text is put between. -/
def quoteFor (s : List Char) : Char :=
  if s.contains '\'' && !s.contains '"' then '"' else '\''

/-- One character of quoted text. -/
def escapeChar (quote c : Char) : List Char :=
  if c = '\\' ∨ c = quote then ['\\', c]
  else if c = '\n' then ['\\', 'n']
  else if c = '\r' then ['\\', 'r']
  else if c = '\t' then ['\\', 't']
  else if isPrintable c then [c]
  else if c.toNat < 0x100 then '\\' :: 'x' :: hexDigits 2 c.toNat
  else if c.toNat < 0x10000 then '\\' :: 'u' :: hexDigits 4 c.toNat
  else '\\' :: 'U' :: hexDigits 8 c.toNat

/-- A text in quotes. -/
def quoted (s : String) : String :=
  let cs := s.toList
  let quote := quoteFor cs
  String.ofList (quote :: cs.flatMap (escapeChar quote) ++ [quote])

example : quoted "a'b" = "\"a'b\"" := by decide +kernel
example : quoted "'\"\n" = "'\\'\"\\n'" := by decide +kernel
example : quoted "\u0085\ufeff" = "'\\x85\\ufeff'" := by decide +kernel

end RadixScript.Text
