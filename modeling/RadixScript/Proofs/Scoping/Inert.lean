import RadixScript.Run.Input

/-!
# Operations that leave scopes alone

Operators and native functions compute with values and talk to the console. They leave the scopes
and the number of closures as they are, none of them gives back a closure or a foreign value, and
none of them stops because a chain of scopes is too short.
-/

namespace RadixScript

variable {α β : Type}

/-! ## Results -/

/-- The value is no closure, and one of the language. -/
def Value.IsInert : Value → Prop
  | .closure _ | .foreign _ => False
  | _ => True

/-- The fault is not that a chain of scopes is too short. -/
def Fault.IsInert : Fault → Prop
  | .shortChain _ => False
  | _ => True

/-- A result as required, or a fault that is not about a chain of scopes. -/
def Yields (x : Except Fault α) (post : α → Prop) : Prop :=
  match x with
  | .ok a => post a
  | .error f => f.IsInert

theorem yields_pure {a : α} {post : α → Prop} (h : post a) :
    Yields (pure a : Except Fault α) post := h

theorem yields_bind {x : Except Fault α} {f : α → Except Fault β} {mid : α → Prop} {post : β → Prop}
    (hx : Yields x mid) (hf : ∀ a, mid a → Yields (f a) post) : Yields (x >>= f) post := by
  cases x with
  | ok a => exact hf a hx
  | error e => exact hx

theorem yields_causeAt {op : Token} {c : Cause} {post : α → Prop} :
    Yields (throw (.causeAt op c) : Except Fault α) post := trivial

theorem yields_cause {c : Cause} {post : α → Prop} :
    Yields (throw (.cause c) : Except Fault α) post := trivial

theorem Value.kindOf_yields (v : Value) : Yields v.kindOf fun _ => True := by
  rw [Value.kindOf]
  split
  · trivial
  · trivial

/-! ## Operators -/

namespace Operator

theorem toFloat_yields (n : Int) : Yields (toFloat n) fun _ => True := by
  simp only [toFloat]
  split
  · trivial
  · trivial

theorem radixResult_yields (op : Token) (r : Except RadixProblem Numeral) :
    Yields (radixResult op r) Value.IsInert := by
  cases r with
  | ok x => trivial
  | error p => trivial

theorem plus_yields (op : Token) (l r : Value) : Yields (plus op l r) Value.IsInert := by
  refine yields_bind l.kindOf_yields fun _ _ => yields_bind r.kindOf_yields fun _ _ => ?_
  split
  · exact yields_pure trivial
  · exact yields_pure trivial
  · exact yields_pure trivial
  · split
    · exact radixResult_yields _ _
    · exact yields_causeAt
  · exact yields_causeAt

theorem minus_yields (op : Token) (l r : Value) (pair : Operands) :
    Yields (minus op l r pair) Value.IsInert := by
  cases pair with
  | floats a b => exact yields_pure trivial
  | ints a b => exact yields_pure trivial
  | numerals base a b => exact radixResult_yields _ _
  | intFloat a b => exact yields_bind (toFloat_yields a) fun _ _ => yields_pure trivial
  | floatInt a b => exact yields_bind (toFloat_yields b) fun _ _ => yields_pure trivial

theorem asFloats_yields (op : Token) (pair : Operands) :
    Yields (asFloats op pair) fun _ => True := by
  cases pair with
  | floats a b => trivial
  | ints a b =>
    exact yields_bind (toFloat_yields a) fun _ _ =>
      yields_bind (toFloat_yields b) fun _ _ => trivial
  | numerals base a b => exact yields_causeAt
  | intFloat a b => exact yields_bind (toFloat_yields a) fun _ _ => trivial
  | floatInt a b => exact yields_bind (toFloat_yields b) fun _ _ => trivial

theorem remainder_yields (op : Token) (pair : Operands) :
    Yields (remainder op pair) Value.IsInert := by
  unfold remainder
  split
  · split
    · exact yields_causeAt
    · exact yields_pure trivial
  · exact yields_causeAt

theorem bitwise_yields (op : Token) (f : Value → Value → Except RadixProblem Numeral)
    (l r : Value) (pair : Operands) : Yields (bitwise op f l r pair) Value.IsInert := by
  unfold bitwise
  split
  · exact radixResult_yields _ _
  · exact yields_causeAt

theorem arithmetic_yields (op : Token) (l r : Value) (pair : Operands) :
    Yields (arithmetic op l r pair) Value.IsInert := by
  unfold arithmetic
  split
  · exact yields_pure trivial
  · split
    · exact minus_yields op l r pair
    · exact yields_bind (asFloats_yields op pair) fun _ _ => yields_pure trivial
    · exact yields_bind (asFloats_yields op pair) fun _ _ => yields_pure trivial
    · exact remainder_yields op pair
    · exact bitwise_yields op _ l r pair
    · exact bitwise_yields op _ l r pair
    · exact yields_causeAt

theorem classify_yields (op : Token) (l r : Value) :
    Yields (Operands.classify op l r) fun _ => True := by
  refine yields_bind l.kindOf_yields fun _ _ => yields_bind r.kindOf_yields fun _ _ => ?_
  split
  · trivial
  · exact yields_causeAt

theorem equal_yields (l r : Value) : Yields (l.equal r) fun _ => True := by
  unfold Value.equal
  split
  · trivial
  · trivial
  · trivial
  · exact yields_bind (Value.kindOf_yields _) fun _ _ =>
      yields_bind (Value.kindOf_yields _) fun _ _ => trivial

theorem binary_yields (op : Token) (l r : Value) : Yields (binary op l r) Value.IsInert := by
  unfold binary
  split
  · exact yields_bind (equal_yields l r) fun _ _ => yields_pure trivial
  · exact yields_bind (equal_yields l r) fun _ _ => yields_pure trivial
  · exact plus_yields op l r
  · exact yields_bind (classify_yields op l r) fun pair _ => arithmetic_yields op l r pair

theorem unary_yields (op : Token) (v : Value) : Yields (unary op v) Value.IsInert := by
  unfold unary
  split
  · exact yields_pure trivial
  · refine yields_bind v.kindOf_yields fun _ _ => ?_
    split
    · exact yields_pure trivial
    · exact yields_pure trivial
    · exact yields_causeAt
  · exact yields_causeAt

end Operator

/-! ## Native functions -/

namespace Native

theorem display_yields (v : Value) : Yields (display v) fun _ => True := by
  unfold display
  split
  · trivial
  · trivial

theorem toNumeral_yields (b : Base) (v : Value) : Yields (toNumeral b v) Value.IsInert := by
  unfold toNumeral
  split
  · exact yields_pure trivial
  · refine yields_bind v.kindOf_yields fun _ _ => ?_
    split
    · split
      · split
        · exact yields_cause
        · trivial
      · exact yields_pure trivial
    · exact yields_cause

theorem ofDecimalText?_isInert {s : String} {v : Value} (h : ofDecimalText? s = some v) :
    v.IsInert := by
  simp only [ofDecimalText?] at h
  split at h
  · cases h
    trivial
  · obtain ⟨n, _, rfl⟩ := Option.map_eq_some_iff.mp h
    trivial

theorem toDecimal_yields (v : Value) : Yields (toDecimal v) Value.IsInert := by
  refine yields_bind v.kindOf_yields fun _ _ => ?_
  split
  · exact yields_pure trivial
  · exact yields_pure trivial
  · split
    · exact yields_pure trivial
    · dsimp only
      split
      · next w hw =>
        refine yields_pure ?_
        split at hw
        · exact ofDecimalText?_isInert hw
        · cases hw
      · exact yields_bind (display_yields v) fun _ _ => yields_cause

end Native

/-! ## Runs -/

/-- The run leaves the scopes and the number of closures as they are, gives an inert value, and does
not stop because of a chain of scopes. -/
def Run.Inert (x : Run Value) : Prop :=
  ∀ m, (machineAfter (x m)).scopes = m.scopes ∧ (machineAfter (x m)).closures = m.closures ∧
    match x m with
    | .ok v _ => v.IsInert
    | .error f _ => f.IsInert

theorem Run.inert_lift {x : Except Fault Value} (h : Yields x Value.IsInert) :
    (Run.lift x).Inert := by
  intro m
  cases x with
  | ok v => exact ⟨rfl, rfl, h⟩
  | error f => exact ⟨rfl, rfl, h⟩

theorem Native.run_inert (f : Native) (args : List Value) : (f.run args).Inert := by
  intro m
  cases f with
  | clock =>
    simp only [Native.run, Run.readClock, bind, EStateM.bind]
    cases m.console.known?.any (· ≤ m.console.readings) <;> exact ⟨rfl, rfl, trivial⟩
  | print =>
    simp only [Native.run, bind, EStateM.bind]
    have hd := display_yields (args.headD .null)
    cases h : display (args.headD .null) with
    | ok s => exact ⟨rfl, rfl, trivial⟩
    | error e =>
      rw [h] at hd
      exact ⟨rfl, rfl, hd⟩
  | str =>
    simp only [Native.run, bind, EStateM.bind]
    have hd := display_yields (args.headD .null)
    cases h : display (args.headD .null) with
    | ok s => exact ⟨rfl, rfl, trivial⟩
    | error e =>
      rw [h] at hd
      exact ⟨rfl, rfl, hd⟩
  | read =>
    simp only [Native.run, Run.readLine, bind, EStateM.bind]
    cases m.console.input with
    | nil => cases m.console.moreLines <;> exact ⟨rfl, rfl, trivial⟩
    | cons line rest => exact ⟨rfl, rfl, trivial⟩
  | binary => exact Run.inert_lift (toNumeral_yields _ _) m
  | hexadecimal => exact Run.inert_lift (toNumeral_yields _ _) m
  | decimal => exact Run.inert_lift (toDecimal_yields _) m

end RadixScript
