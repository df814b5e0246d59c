import RadixScript.Token.Scan
import RadixScript.Tree.Resolve
import RadixScript.Tree.StmtParser

/-!
# From text to program

A text is a program when scanning and parsing leave no diagnostic. Otherwise all diagnostics of
both are reported together, in the order of their lines. A program is ready to run when its local
names are resolved and no `return` is misplaced.
-/

namespace RadixScript

/-- Why a text is not a program. -/
inductive Rejection where
  /-- It has an integer literal with too many digits to be read. -/
  | overlong
  | diagnostics (ds : List Diagnostic)

/-- Sorts diagnostics by line. Those of one line keep their order. -/
def sortByLine (ds : List Diagnostic) : List Diagnostic :=
  ds.mergeSort fun a b => a.line ≤ b.line

/-- The program of a text. Among the diagnostics of one line those of the scanner come first. -/
def parseSource (source : String) : Except Rejection (Program Unit) :=
  match scan source with
  | none => .error .overlong
  | some s =>
    let (program, errors) := parseProgram s.eof s.tokens
    match s.problems ++ errors with
    | [] => .ok program
    | d :: ds => .error (.diagnostics (sortByLine (d :: ds)))

/-- Resolves the local names of a program, unless it has misplaced returns. -/
def Program.compile (p : Program Unit) : Except Rejection (Program (Option Nat)) :=
  match p.scopeProblems with
  | [] => .ok p.resolve
  | d :: ds => .error (.diagnostics (d :: ds))

/-- The program of a text, ready to run. -/
def compileSource (source : String) : Except Rejection (Program (Option Nat)) :=
  (parseSource source).bind Program.compile

/-- A rejected text has at least one diagnostic, or a literal that is too long. -/
theorem diagnostics_ne_nil_of_compileSource {source : String} {ds : List Diagnostic}
    (h : compileSource source = .error (.diagnostics ds)) : ds ≠ [] := by
  simp only [compileSource, parseSource, Except.bind] at h
  split at h
  · next e he =>
    split at he
    · simp_all
    · split at he
      · simp at he
      · simp only [Except.error.injEq] at he h
        subst he
        simp only [Rejection.diagnostics.injEq] at h
        subst h
        simp [sortByLine, ← List.length_eq_zero_iff]
  · next p _ =>
    simp only [Program.compile] at h
    split at h
    · simp at h
    · simp only [Except.error.injEq, Rejection.diagnostics.injEq] at h
      subst h
      simp

end RadixScript
