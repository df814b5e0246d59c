import RadixScript.Token.Piece

/-!
# Scanning

A program text becomes tokens by cutting it into pieces and counting lines and offsets along them.
There are two ways to deal with what the scanner rejects: `scan` goes on and keeps the diagnostics,
`scanStrict` stops at the first one. Both stop at an integer literal that is too long to be read.
-/

namespace RadixScript

/-- What a piece contributes to the result of a scan. -/
inductive Finding where
  | token (t : Token)
  | problem (d : Diagnostic)
  | overlong

/-- The tokens of a text up to its end, the token that marks the end, and what was rejected. -/
structure Scan where
  tokens : List Token
  eof : Token
  problems : List Diagnostic

/-- Why a scan stops. -/
inductive ScanStop where
  | problem (d : Diagnostic)
  | overlong

/-- The token that marks the end of a text. -/
def Token.atEnd (line offset : Nat) : Token := ⟨.endOfInput, "", none, line, offset, offset⟩

namespace Piece

/-- What a piece at the given line and offset contributes. A diagnostic is at the line that the
piece ends on. -/
def finding? (line offset : Nat) (p : Piece) : Option Finding :=
  match p with
  | gap _ => none
  | lexeme kind literal text =>
    some (.token ⟨kind, String.ofList text, literal, line, offset, offset + text.length⟩)
  | overlong _ => some .overlong
  | rejected problem _ => some (.problem ⟨.lexical problem, line + p.lineBreaks, .unnamed⟩)

end Piece

/-- What the pieces from the given line and offset on contribute, and the token after them. -/
def locate : Nat → Nat → List Piece → List Finding × Token
  | line, offset, [] => ([], .atEnd line offset)
  | line, offset, p :: ps =>
    let (findings, eof) := locate (line + p.lineBreaks) (offset + p.text.length) ps
    ((p.finding? line offset).toList ++ findings, eof)

/-- Keeps tokens and diagnostics apart, up to an integer literal that is too long. -/
def collect : List Finding → Option (List Token × List Diagnostic)
  | [] => some ([], [])
  | .token t :: fs => (collect fs).map fun (ts, ds) => (t :: ts, ds)
  | .problem d :: fs => (collect fs).map fun (ts, ds) => (ts, d :: ds)
  | .overlong :: _ => none

/-- The tokens in front of the first problem, which is an error. -/
def collectStrict : List Finding → Except ScanStop (List Token)
  | [] => .ok []
  | .token t :: fs => (collectStrict fs).map (t :: ·)
  | .problem d :: _ => .error (.problem d)
  | .overlong :: _ => .error .overlong

/-- All tokens and diagnostics of a text; `none` if it has an integer literal that is too long. -/
def scan (source : String) : Option Scan :=
  let (findings, eof) := locate 1 0 (pieces source.toList)
  (collect findings).map fun (tokens, problems) => ⟨tokens, eof, problems⟩

/-- The tokens of a text, end included, unless there is a problem. -/
def scanStrict (source : String) : Except ScanStop (List Token) :=
  let (findings, eof) := locate 1 0 (pieces source.toList)
  (collectStrict findings).map (· ++ [eof])

end RadixScript
