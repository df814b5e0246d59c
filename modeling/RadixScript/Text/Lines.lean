import RadixScript.Text.Blank

/-!
# Lines

Console input is cut at line feeds, and a line loses every carriage return and line feed at its
end. The text of a program file has its three kinds of line ends unified first.
-/

namespace RadixScript.Text

/-- Whether a character belongs to a line end. -/
def isLineEnd (c : Char) : Bool := c = '\r' || c = '\n'

/-- The lines of a text. A line feed ends a line, so a text that ends in one has no empty last
line. -/
def splitLines : List Char → List (List Char)
  | [] => []
  | c :: rest =>
    if c = '\n' then
      [] :: splitLines rest
    else
      match splitLines rest with
      | [] => [[c]]
      | l :: ls => (c :: l) :: ls

/-- The lines of a text, without their line ends. -/
def lines (s : String) : List String :=
  (splitLines s.toList).map fun l => String.ofList (trimEnd isLineEnd l)

/-- A carriage return, alone or with a line feed after it, becomes a line feed. -/
def unifyLineEnds : List Char → List Char
  | [] => []
  | '\r' :: '\n' :: rest => '\n' :: unifyLineEnds rest
  | '\r' :: rest => '\n' :: unifyLineEnds rest
  | c :: rest => c :: unifyLineEnds rest

end RadixScript.Text
