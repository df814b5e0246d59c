import RadixScript.Text.DecimalDigit
import RadixScript.Text.Quoted

/-!
# Command line arguments

The command line has an optional path and two options, `--verbose` and `-h` or `--help`. A long
option may be cut short and may carry a value after `=`, which no option here takes; short options
may be written together behind one dash. A bare `--` makes everything after it an argument, even
if it looks like an option.

First every argument is sorted by what it looks like (`Word`), then the words are taken in order.
-/

namespace RadixScript.CommandLine

/-- The options of the command line. -/
inductive Flag where
  | help | verbose
deriving DecidableEq, Repr

namespace Flag

/-- The long options, in the order in which they are listed. -/
def long : List (String × Flag) := [("--help", help), ("--verbose", verbose)]

/-- How messages name an option. -/
def title : Flag → String
  | help => "-h/--help"
  | verbose => "--verbose"

end Flag

/-- What is wrong with the arguments. -/
inductive UsageProblem where
  | ambiguous (argument : String)
  | ignoredValue (flag : Flag) (value : String)
  | unrecognized (arguments : List String)
deriving DecidableEq, Repr

def UsageProblem.message : UsageProblem → String
  | ambiguous argument =>
    "ambiguous option: " ++ argument ++ " could match " ++ ", ".intercalate (Flag.long.map (·.1))
  | ignoredValue flag value =>
    "argument " ++ flag.title ++ ": ignored explicit argument " ++ Text.quoted value
  | unrecognized arguments => "unrecognized arguments: " ++ " ".intercalate arguments

/-- What an argument looks like. -/
inductive Word where
  | plain (s : String)
  /-- The first bare `--`. -/
  | divider
  /-- A long option and what stands behind its `=`. -/
  | long (flag : Flag) (value? : Option String)
  /-- The option `-h` and what is attached to it. -/
  | short (attached : List Char)
  | unknown (s : String)
deriving DecidableEq, Repr

namespace Word

/-- Cuts a text at the first `=`. -/
def cutValue : List Char → List Char × Option (List Char)
  | [] => ([], none)
  | c :: cs =>
    if c = '=' then ([], some cs)
    else
      let (front, value?) := cutValue cs
      (c :: front, value?)

/-- Whether a text is a negative number, with or without a decimal point. One line feed may
follow. -/
def isNegativeNumber (s : List Char) : Bool :=
  let isDigit c := (Text.digitValue? c).isSome
  let body := if s.getLast? = some '\n' then s.dropLast else s
  match body with
  | '-' :: rest =>
    match rest.dropWhile isDigit with
    | [] => !rest.isEmpty
    | '.' :: places => !places.isEmpty && places.all isDigit
    | _ => false
  | _ => false

/-- An argument that starts with a dash but is no option: negative numbers and texts with a space
in them are plain. -/
def ofDashed (s : String) : Word :=
  if isNegativeNumber s.toList || s.toList.contains ' ' then plain s else unknown s

/-- The long options that an argument, cut at its `=`, can stand for. A full name stands for itself
alone. -/
def candidates (name : String) : List (String × Flag) :=
  match Flag.long.find? (·.1 = name) with
  | some found => [found]
  | none => Flag.long.filter fun o => o.1.startsWith name

/-- What a single argument looks like. -/
def ofArgument (s : String) : Except UsageProblem Word :=
  match s.toList with
  | '-' :: '-' :: cs =>
    let (front, value?) := cutValue cs
    match candidates ("--" ++ String.ofList front) with
    | [] => .ok (ofDashed s)
    | [(_, flag)] => .ok (long flag (value?.map String.ofList))
    | _ => .error (.ambiguous s)
  | '-' :: 'h' :: attached => .ok (short attached)
  | '-' :: _ :: _ => .ok (ofDashed s)
  | _ => .ok (plain s)

/-- What the arguments look like. Everything after a bare `--` is plain. -/
def ofArguments : List String → Except UsageProblem (List Word)
  | [] => .ok []
  | "--" :: rest => .ok (divider :: rest.map plain)
  | s :: rest => do
    let w ← ofArgument s
    let ws ← ofArguments rest
    pure (w :: ws)

end Word

/-- What the command line asks for. -/
inductive Request where
  | help
  | run (verbose : Bool) (path? : Option String)
deriving DecidableEq, Repr

/-- How far the words have been taken. -/
structure Progress where
  verbose : Bool
  path? : Option String
  /-- Whether the last word was the path: a bare `--` right behind it is dropped. -/
  behindPath : Bool
  /-- Arguments for which there is no use. -/
  extra : List String

namespace Progress

/-- Adds an argument for which there is no use. -/
def leave (p : Progress) (s : String) : Progress :=
  { p with behindPath := false, extra := p.extra ++ [s] }

end Progress

/-- What stands behind the letters `h` at the front of a text, if there is anything. -/
def behindFlags? (cs : List Char) : Option (List Char) :=
  match cs.dropWhile (· = 'h') with
  | [] => none
  | value => some value

/-- The value in the text attached to `-h`, if there is one. Letters `h` at its front are more short
options, and anything else is a value. A `=` sets the text apart from the option, and then even an
empty text is a value. -/
def strayValue? : List Char → Option (List Char)
  | ['='] => some []
  | '=' :: value => behindFlags? value
  | attached => behindFlags? attached

/-- Takes words in order. A request for help ends it. -/
def take (p : Progress) : List Word → Except UsageProblem Request
  | [] => if p.extra.isEmpty then .ok (.run p.verbose p.path?) else .error (.unrecognized p.extra)
  | .plain s :: ws =>
    match p.path? with
    | none => take { p with path? := some s, behindPath := true } ws
    | some _ => take (p.leave s) ws
  | .divider :: ws =>
    if p.path?.isNone || p.behindPath then take { p with behindPath := false } ws
    else take (p.leave "--") ws
  | .long .verbose none :: ws => take { p with verbose := true, behindPath := false } ws
  | .long .help none :: _ => .ok .help
  | .long flag (some value) :: _ => .error (.ignoredValue flag value)
  | .short attached :: _ =>
    match strayValue? attached with
    | none => .ok .help
    | some value => .error (.ignoredValue .help (String.ofList value))
  | .unknown s :: ws => take (p.leave s) ws

/-- Reads the arguments. -/
def readArguments (arguments : List String) : Except UsageProblem Request := do
  take ⟨false, none, false, []⟩ (← Word.ofArguments arguments)

end RadixScript.CommandLine
