import RadixScript.Terminal

/-!
# The prompt

The prompt collects lines up to one that ends in `$`, and runs them as one text. The line `exit`
ends it, and so does the end of input; lines that are still pending are not run. A text that is run
may read lines itself: those are the ones after its own.

Every round at the prompt takes at least one line of input (`step_input`), so the prompt ends.
-/

namespace RadixScript.Prompt

/-- What stands before every line that the user is asked for, unless the user has set another
mark. -/
def defaultMark : String := "MBasic>> "

/-- The last words of the prompt. -/
def farewell : String := "Now exiting MBasic. Have a great day :)\n"

/-- What a line at the prompt asks for. -/
inductive Line where
  | leave
  /-- The last line of a text, without the `$` at its end. -/
  | final (line : String)
  | more (line : String)
deriving DecidableEq, Repr

/-- What a line asks for. Blanks around `exit` do not matter. -/
def Line.read (s : String) : Line :=
  if Text.strip s.toList = "exit".toList then leave
  else
    match s.toList.reverse with
    | '$' :: rest => final (String.ofList rest.reverse)
    | _ => more s

/-- The text of collected lines. -/
def join (lines : List String) : String := "\n".intercalate lines

/-- Deals with a line, when `pending` has been collected. The result is what is pending afterwards,
or `none` at the end. -/
def respond (depth : Nat) (pending : List String) (s : String) :
    AtTerminal (Option (List String)) :=
  match Line.read s with
  | .leave => do
    Terminal.ofRun (Run.write farewell)
    pure none
  | .final last => do
    let _ ← Terminal.runSource depth (join (pending ++ [last]))
    pure (some [])
  | .more line => pure (some (pending ++ [line]))

/-- Asks for one line, behind the mark, and deals with it. -/
def step (mark : String) (depth : Nat) (pending : List String) :
    AtTerminal (Option (List String)) := do
  Terminal.ofRun (Run.write mark)
  match ← Terminal.ofRun Run.readLine with
  | none => pure none
  | some s => respond depth pending s

/-- Dealing with a line leaves an end of the input. -/
theorem respond_input {depth : Nat} {pending : List String} {s : String} {t t' : Terminal}
    {next : Option (List String)} (h : respond depth pending s t = .ok next t') :
    t'.input <:+ t.input := by
  rw [respond] at h
  cases hline : Line.read s with
  | leave =>
    rw [hline] at h
    cases h
    exact List.suffix_refl _
  | final last =>
    rw [hline] at h
    simp only [bind, EStateM.bind] at h
    split at h
    · next hrun =>
      cases h
      exact Terminal.runSource_input hrun
    · cases h
  | more line =>
    rw [hline] at h
    cases h
    exact List.suffix_refl _

/-- A round after which the prompt goes on has taken at least one line. -/
theorem step_input {mark : String} {depth : Nat} {pending pending' : List String} {t t' : Terminal}
    (h : step mark depth pending t = .ok (some pending') t') :
    t'.input.length < t.input.length := by
  obtain ⟨⟨scopes, closures, input, moreLines, output, clock, known?, readings⟩, messages⟩ := t
  cases input with
  | nil => cases moreLines <;> cases h
  | cons s rest => exact Nat.lt_succ_of_le (respond_input h).length_le

/-- Asks for lines until the end, when `pending` has been collected already. -/
def loop (mark : String) (depth : Nat) (pending : List String) (t : Terminal) :
    EStateM.Result Failure Terminal Unit :=
  match _h : step mark depth pending t with
  | .ok none t' => .ok () t'
  | .ok (some pending') t' => loop mark depth pending' t'
  | .error f t' => .error f t'
termination_by t.input.length
decreasing_by exact step_input _h

/-- The prompt from its first line on. -/
def run (mark : String) (depth : Nat) : AtTerminal Unit := loop mark depth []

end RadixScript.Prompt
