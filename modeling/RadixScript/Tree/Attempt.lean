import RadixScript.Diagnostic
import RadixScript.Tree.Basic

/-!
# Attempts at reading tokens

Reading a part of a program off the front of a token list either succeeds and leaves a shorter
list, or is abandoned at some token. Both record diagnostics. The proofs inside an `Attempt` are
what makes the parser end: every continuation gets a list that is known to be shorter.
-/

namespace RadixScript

/-- The outcome of reading an `α` off the front of a token list with `n` tokens. -/
inductive Attempt (n : Nat) (α : Type) where
  | parsed (value : α) (rest : List Token) (errors : List Diagnostic) (shorter : rest.length < n)
  | abandoned (rest : List Token) (errors : List Diagnostic) (notLonger : rest.length ≤ n)

namespace Attempt

variable {n m : Nat} {α β : Type}

/-- Stops in front of `rest`. The list had at least one token more, or counts as if it had. -/
def done (value : α) (rest : List Token) : Attempt (rest.length + 1) α :=
  parsed value rest [] (Nat.lt_succ_self _)

/-- An attempt at a list counts as an attempt at any longer one. -/
def relax (h : n ≤ m) : Attempt n α → Attempt m α
  | parsed a rest errors hr => parsed a rest errors (Nat.lt_of_lt_of_le hr h)
  | abandoned rest errors hr => abandoned rest errors (Nat.le_trans hr h)

/-- Changes the value that was read. -/
def map (f : α → β) : Attempt n α → Attempt n β
  | parsed a rest errors hr => parsed (f a) rest errors hr
  | abandoned rest errors hr => abandoned rest errors hr

/-- Records diagnostics in front of those of an attempt. -/
def noting (ds : List Diagnostic) : Attempt n α → Attempt n α
  | parsed a rest errors hr => parsed a rest (ds ++ errors) hr
  | abandoned rest errors hr => abandoned rest (ds ++ errors) hr

/-- An attempt behind one more token. -/
def behind (a : Attempt n α) : Attempt (n + 1) α := a.relax (Nat.le_succ n)

/-- Goes on after a success, with a list that is known to be shorter. The continuation may leave
that list as it is. -/
def andThen (a : Attempt n α)
    (k : (value : α) → (rest : List Token) → rest.length < n → Attempt (rest.length + 1) β) :
    Attempt n β :=
  match a with
  | abandoned rest errors hr => abandoned rest errors hr
  | parsed value rest errors hr => ((k value rest hr).relax hr).noting errors

/-- Goes on after a success with a continuation that reads at least one token. -/
def next (a : Attempt n α)
    (k : (value : α) → (rest : List Token) → rest.length < n → Attempt rest.length β) :
    Attempt n β :=
  a.andThen fun value rest h => (k value rest h).behind

end Attempt

/-! ## Single tokens -/

/-- The problem of grammar `p` at the first token of a list, or at the end of input. -/
def complain (eof : Token) (ts : List Token) (p : GrammarProblem) : Diagnostic :=
  .ofToken (ts.head?.getD eof) (.grammatical p)

/-- Reads one token of the kind that has to stand there. -/
def expect (eof : Token) (what : Expected) (ts : List Token) : Attempt ts.length Token :=
  match ts with
  | [] => .abandoned [] [complain eof [] (.missing what)] (Nat.le_refl _)
  | t :: rest =>
    if t.kind = what.kind then .done t rest
    else .abandoned (t :: rest) [complain eof (t :: rest) (.missing what)] (Nat.le_refl _)

end RadixScript
