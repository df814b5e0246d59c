import RadixScript.CommandLine.Command
import RadixScript.Proofs.Laws.Frames
import RadixScript.Proofs.Scoping.Watch

/-!
# The prompt as a batch of texts

The prompt shares its input and output with the texts that it runs. `runPrompt_batch` tells what
this amounts to. The lines of the input fall into consecutive parts: the lines of the first text,
the lines that it reads, the lines of the second text, and so on, up to lines that are never run.
The texts are run one after the other in one session, and each finds the lines after its own as
input.

That a text cannot see the marks of the prompt in its output, nor lines that it does not read, is
the frame law of runs.
-/

namespace RadixScript

/-! ## Lines of input -/

namespace Text

end Text

namespace Prompt

/-! ## Lines at the prompt -/

/-- The line asks to leave: it is `exit`, apart from blanks around it. -/
def AsksToLeave (s : String) : Prop := Text.strip s.toList = "exit".toList

/-- The line neither asks to leave nor ends a text. -/
structure IsPlain (s : String) : Prop where
  stays : ¬ AsksToLeave s
  goesOn : ∀ l, s ≠ l ++ "$"

/-- A text at the prompt: plain lines, and a last one, here without the `$` at its end. -/
structure Chunk where
  front : List String
  last : String
  plain : ∀ s ∈ front, IsPlain s
  stays : ¬ AsksToLeave (last ++ "$")

/-- A text that was run: the lines it has read, what it has printed, and how it has failed. -/
structure Exchange extends Chunk where
  reads : List String
  output : String
  failure? : Option Failure

/-- The marks in front of lines that the user is asked for. -/
def marks (mark : String) (n : Nat) : String := String.join (List.replicate n mark)

namespace Exchange

variable (e : Exchange)

/-- What is run. -/
def source : String := "\n".intercalate (e.front ++ [e.last])

/-- The lines of the text, and those that it has read, which are the next ones. -/
def lines : List String := e.front ++ (e.last ++ "$") :: e.reads

/-- The result of the text, on a machine. -/
def result (m : Machine) : EStateM.Result Failure Machine Unit :=
  match e.failure? with
  | none => .ok () m
  | some f => .error f m

/-- What the user sees: a mark for each line of the text, and then what it has printed. -/
def shown (mark : String) (e : Exchange) : String := marks mark (e.front.length + 1) ++ e.output

/-- The report of the failure, on lines of its own; nothing if there is none. -/
def report : String :=
  match e.failure?.bind Failure.report? with
  | none => ""
  | some (message, _) => message.text ++ "\n"

/-- The text has not failed because of the machine. -/
def IsReported : Prop := ∀ f, e.failure? = some f → f.report? ≠ none

/-- In a session, with the lines after it as input, the text reads its lines, prints its output and
ends as it does. What follows stays in the input. -/
def Runs (depth : Nat) (m : Machine) (following : List String) (m' : Machine) : Prop :=
  Session.run depth e.source (m.onConsole (e.reads ++ following) "") =
    e.result (m'.onConsole following e.output)

end Exchange

/-- How the prompt comes to its end. -/
inductive Closing where
  /-- The input has ended; the pending lines are not run. -/
  | ended (pending : List String) (plain : ∀ s ∈ pending, IsPlain s)
  /-- A line has asked to leave; the pending lines are not run, the others are not read. -/
  | left (pending : List String) (plain : ∀ s ∈ pending, IsPlain s) (line : String)
    (asks : AsksToLeave line) (unread : List String)
  /-- The last text has failed because of the machine. -/
  | stopped (f : Failure) (host : f.report? = none) (unread : List String)

namespace Closing

/-- The lines that no text has taken. -/
def lines : Closing → List String
  | ended pending _ => pending
  | left pending _ line _ unread => pending ++ line :: unread
  | stopped _ _ unread => unread

/-- What the user sees last. -/
def shown (mark : String) : Closing → String
  | ended pending _ => marks mark (pending.length + 1)
  | left pending _ _ _ _ => marks mark (pending.length + 1) ++ farewell
  | stopped _ _ _ => ""

def ending : Closing → CommandLine.Ending
  | ended _ _ | left _ _ _ _ _ => .code 0
  | stopped f _ _ => .stopped (.failure f)

/-- No text that was run has failed because of the machine, except for the last one where the prompt
is stopped by it. -/
def Follows (executed : List Exchange) : Closing → Prop
  | ended _ _ | left _ _ _ _ _ => ∀ e ∈ executed, e.IsReported
  | stopped f _ _ =>
    ∃ es e, executed = es ++ [e] ∧ (∀ e ∈ es, e.IsReported) ∧ e.failure? = some f

theorem Follows.cons {closing : Closing} {e : Exchange} {es : List Exchange} (he : e.IsReported)
    (h : closing.Follows es) : closing.Follows (e :: es) := by
  cases closing with
  | ended | left => exact List.forall_mem_cons.mpr ⟨he, h⟩
  | stopped =>
    obtain ⟨es', e', rfl, hes, hfailure⟩ := h
    exact ⟨e :: es', e', rfl, List.forall_mem_cons.mpr ⟨he, hes⟩, hfailure⟩

/-- What is left of the input. -/
def unread : Closing → List String
  | ended _ _ => []
  | left _ _ _ _ unread => unread
  | stopped _ _ unread => unread

/-- The result of the prompt, at a terminal. -/
def result (t : Terminal) : Closing → EStateM.Result Failure Terminal Unit
  | ended _ _ | left _ _ _ _ _ => .ok () t
  | stopped f _ _ => .error f t

end Closing

/-! ## Rounds at the prompt -/

section rounds

variable {mark : String} {depth : Nat} {pending : List String} {m : Machine} {out : String}
  {ms : List Message}

end rounds

/-! ## Texts at the prompt -/

section texts

variable {depth : Nat} {m m' : Machine} {ms : List Message} {e : Exchange}

end texts

/-! ## The whole prompt -/

/-- What follows a text does not matter to it, unless it has found the end of the input. -/
theorem Exchange.Runs.frame {e : Exchange} {depth : Nat} {m m₁ : Machine}
    {following : List String} (h : e.Runs depth m following m₁) {rest : List String}
    (hrest : following = [] → rest = []) (out : String) :
    Session.run depth e.source (m.onConsole (e.reads ++ rest) out) =
      e.result (m₁.onConsole rest (out ++ e.output)) := by
  obtain ⟨used, printed, hinput, houtput, -, hframe⟩ :=
    Session.run_framed depth e.source (m.onConsole (e.reads ++ following) "")
  have hafter : ∀ m', machineAfter (e.result m') = m' := by
    intro m'
    unfold Exchange.result
    cases e.failure? <;> rfl
  rw [Exchange.Runs] at h
  rw [h, hafter] at hinput houtput hframe
  obtain rfl : e.reads = used := List.append_cancel_right hinput
  obtain rfl : e.output = printed := by
    rw [Machine.onConsole_output, Machine.onConsole_output, String.empty_append] at houtput
    exact houtput
  have hrun := hframe rest out hrest
  rw [Machine.onConsole_onConsole] at hrun
  rw [hrun]
  unfold Exchange.result
  cases e.failure? <;> rfl

end Prompt

end RadixScript
