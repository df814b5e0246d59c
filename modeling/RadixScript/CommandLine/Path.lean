/-!
# Paths

The path of a program file is brought to a plain form before it is opened: empty steps and steps
that stay in place are dropped, and a path without any step is the current directory. Steps to the
parent directory stay, since what they mean depends on the files.
-/

namespace RadixScript.CommandLine

/-- Cuts a path at every slash. -/
def pathSteps : List Char → List (List Char)
  | [] => [[]]
  | c :: cs =>
    if c = '/' then [] :: pathSteps cs
    else
      match pathSteps cs with
      | [] => [[c]]
      | s :: ss => (c :: s) :: ss

/-- The start of an absolute path: one slash, or exactly two. -/
def pathRoot : List Char → List Char
  | '/' :: '/' :: '/' :: _ => ['/']
  | '/' :: '/' :: _ => ['/', '/']
  | '/' :: _ => ['/']
  | _ => []

/-- The plain form of a path. -/
def plainPath (path : String) : String :=
  let cs := path.toList
  let steps := (pathSteps cs).filter fun s => !s.isEmpty && s != ['.']
  match pathRoot cs ++ List.intercalate ['/'] steps with
  | [] => "."
  | plain => String.ofList plain

example : plainPath "./a//b/." = "a/b" := by decide +kernel
example : plainPath "" = "." := by decide +kernel
example : plainPath "///" = "/" := by decide +kernel

end RadixScript.CommandLine
