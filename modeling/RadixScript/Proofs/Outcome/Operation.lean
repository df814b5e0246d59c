import RadixScript.Proofs.Decimals.Reading
import RadixScript.Proofs.Grammar.Basic
import RadixScript.Run.Eval

/-!
# Which operation answers for which fault

A run does its work in operations: operators, uses of names and calls. `Operation.Accounts` lists
the faults that each of them can raise in a program that was parsed and resolved, on values of the
language. This module shows that operators and native functions keep to the list; for uses of names
and for closures it takes a whole run to see it.

What the list leaves out is as much of a statement as what it has. No operator raises an error about
numerals, since it checks its operands first; and of the natives only the conversions of a negative
integer do.
-/

namespace RadixScript

/-! ## Operations -/

/-- An operation of a running program, with the values it gets. -/
inductive Operation where
  | unary (op : Token) (v : Value)
  | binary (op : Token) (l r : Value)
  | read (env : ScopeId) (name : Token) (tag : Option Nat)
  | assign (env : ScopeId) (name : Token) (tag : Option Nat) (v : Value)
  /-- A call, inside which `depth` calls may be nested. -/
  | call (depth : Nat) (callee : Value) (args : List Value) (paren : Token)

namespace Operation

/-- What a run does when it comes to the operation. -/
def perform : Operation → Run Value
  | unary op v => Run.lift (Operator.unary op v)
  | binary op l r => Run.lift (Operator.binary op l r)
  | read env name tag => lookUp env name tag
  | assign env name tag v => do
    assignName env name v tag
    pure v
  | call depth callee args paren => Caller.ofDepth .tagged depth callee args paren

/-- The operation stops with a fault, on a machine. -/
def FailsAt (o : Operation) (m : Machine) (f : Fault) : Prop := ∃ m', o.perform m = .error f m'

end Operation

/-- An operator that makes a floating-point number of an integer operand: a product or a quotient
with an integer, or the difference of an integer and a floating-point number. -/
def ConvertsInteger (op : Token) : Value → Value → Prop
  | .int _, .float _ | .float _, .int _ =>
    op.kind = .star ∨ op.kind = .slash ∨ op.kind = .minus
  | .int _, .int _ => op.kind = .star ∨ op.kind = .slash
  | _, _ => False

/-- The native function that converts to a base. -/
def Native.toBase : Base → Native
  | .hexadecimal => .hexadecimal
  | .binary => .binary

/-- The faults that an operation can raise. -/
inductive Operation.Accounts : Operation → Fault → Prop
  | operand {op v c} (h : c.family = .type) : Accounts (.unary op v) (.causeAt op c)
  | operands {op l r c} (h : c.family = .type) : Accounts (.binary op l r) (.causeAt op c)
  | overflow {op l r} (h : ConvertsInteger op l r) : Accounts (.binary op l r) .overflow
  | undefinedRead {env name} :
    Accounts (.read env name none) (.causeAt name (.undefined name.text))
  | undefinedAssign {env name v} :
    Accounts (.assign env name none v) (.causeAt name (.undefined name.text))
  | notCallable {n v args paren} (h : v.arity? = none) :
    Accounts (.call n v args paren) (.causeAt paren .notCallable)
  | arity {n v args paren k} (h : v.arity? = some k) (hk : args.length ≠ k) :
    Accounts (.call n v args paren) (.causeAt paren (.arity k args.length))
  | native {n g s args paren c} (h : c.family = .type) :
    Accounts (.call n (.native g s) args paren) (.causeAt paren c)
  | overlong {n g s k paren} (hg : g = .print ∨ g = .str) (hk : Decimal.integerText? k = none) :
    Accounts (.call n (.native g s) [.int k] paren) .overlong
  | negative {n b s k shown paren} (hn : k < 0) (hk : Decimal.integerText? k = some shown) :
    Accounts (.call n (.native (.toBase b) s) [.int k] paren)
      (.causeAt paren (.radix (.negativeIn shown b)))
  | overlongNegative {n b s k paren} (hn : k < 0) (hk : Decimal.integerText? k = none) :
    Accounts (.call n (.native (.toBase b) s) [.int k] paren) .overlong
  | tooDeep {g args paren} : Accounts (.call 0 (.closure g) args paren) .tooDeep

variable {op paren : Token} {l r v : Value} {f : Fault} {α β : Type}

/-- Errors have their token when an operation raises them, so no call around it changes it. -/
theorem Operation.Accounts.locate_eq {o : Operation} (h : o.Accounts f) (t : Token) :
    f.locate t = f := by
  cases h <;> rfl

/-! ## Results -/

/-- The value is one of the language, and the body of a closure is grammatical. -/
def Value.Proper : Value → Prop
  | .foreign _ => False
  | .closure f => Stmt.AllGrammatical f.body
  | _ => True

/-- A result as required, or a fault that is allowed. -/
def Ends (post : α → Prop) (allowed : Fault → Prop) : Except Fault α → Prop
  | .ok a => post a
  | .error f => allowed f

theorem ends_bind {mid : α → Prop} {post : β → Prop} {allowed : Fault → Prop} {x : Except Fault α}
    {g : α → Except Fault β} (hx : Ends mid allowed x)
    (hg : ∀ a, x = .ok a → mid a → Ends post allowed (g a)) : Ends post allowed (x >>= g) := by
  cases x with
  | ok a => exact hg a rfl hx
  | error f => exact hx

theorem Value.kindOf_ends {allowed : Fault → Prop} (hv : v.Proper) :
    Ends (fun _ => True) allowed v.kindOf := by
  cases v
  case foreign => exact hv.elim
  all_goals trivial

/-! ## Operators -/

/-- How two values are a pair of numbers. -/
inductive Operands.Of : Value → Value → Operands → Prop
  | floats (a b : Float) : Of (.float a) (.float b) (.floats a b)
  | ints (a b : Int) : Of (.int a) (.int b) (.ints a b)
  | numerals {a b : Numeral} (h : a.base = b.base) :
    Of (.numeral a) (.numeral b) (.numerals a.base a b)
  | intFloat (a : Int) (b : Float) : Of (.int a) (.float b) (.intFloat a b)
  | floatInt (a : Float) (b : Int) : Of (.float a) (.int b) (.floatInt a b)

theorem Operands.of_ofValues? {pair : Operands} (h : ofValues? l r = some pair) :
    Of l r pair := by
  unfold ofValues? at h
  split at h
  · cases h; exact .floats _ _
  · cases h; exact .ints _ _
  · split at h
    · next hb => cases h; exact .numerals hb
    · cases h
  · cases h; exact .intFloat _ _
  · cases h; exact .floatInt _ _
  · cases h

theorem Operands.of_classify {pair : Operands} (h : classify op l r = .ok pair) :
    Of l r pair := by
  simp only [classify, bind, Except.bind] at h
  split at h
  · cases h
  · split at h
    · cases h
    · split at h
      · next p hp =>
        cases h
        exact of_ofValues? hp
      · cases h

namespace Radix

variable {a b : Numeral}

/-- Two numerals of one base are operands of every operation. -/
theorem operands_numeral (operation : RadixOperation) (h : a.base = b.base) :
    operands operation (.numeral a) (.numeral b) = .ok (a.base, a, b) := by
  simp [operands, operand, numeral?, commonBase, h, bind, Except.bind, pure, Except.pure]

theorem add_numeral (h : a.base = b.base) :
    add [.numeral a, .numeral b] = .ok (.sum a.base [a, b]) := by
  simp [add, operand, numeral?, commonBase, h, bind, Except.bind, pure, Except.pure]

end Radix

namespace Operator

open Operation

theorem toFloat_ends {allowed : Fault → Prop} (n : Int) (h : allowed .overflow) :
    Ends (fun _ => True) allowed (toFloat n) := by
  simp only [toFloat]
  split
  · exact h
  · trivial

theorem plus_ends (hl : l.Proper) (hr : r.Proper) :
    Ends Value.Proper (Accounts (.binary op l r)) (plus op l r) := by
  refine ends_bind (Value.kindOf_ends hl) fun _ _ _ =>
    ends_bind (Value.kindOf_ends hr) fun _ _ _ => ?_
  split
  · trivial
  · trivial
  · trivial
  · split
    · next hb =>
      rw [Radix.add_numeral hb]
      trivial
    · exact .operands rfl
  · exact .operands rfl

theorem minus_ends {pair : Operands} (h : Operands.Of l r pair) (hop : op.kind = .minus) :
    Ends Value.Proper (Accounts (.binary op l r)) (minus op l r pair) := by
  cases h with
  | floats a b => trivial
  | ints a b => trivial
  | numerals hb =>
    rw [minus, Radix.subtract, Radix.operands_numeral _ hb]
    trivial
  | intFloat a b =>
    have ho : ConvertsInteger op (.int a) (.float b) := .inr (.inr hop)
    exact ends_bind (toFloat_ends a (.overflow ho)) fun _ _ _ => trivial
  | floatInt a b =>
    have ho : ConvertsInteger op (.float a) (.int b) := .inr (.inr hop)
    exact ends_bind (toFloat_ends b (.overflow ho)) fun _ _ _ => trivial

theorem asFloats_ends {pair : Operands} (h : Operands.Of l r pair)
    (hop : op.kind = .star ∨ op.kind = .slash) :
    Ends (fun _ => True) (Accounts (.binary op l r)) (asFloats op pair) := by
  cases h with
  | floats a b => trivial
  | ints a b =>
    have ho : ConvertsInteger op (.int a) (.int b) := hop
    exact ends_bind (toFloat_ends a (.overflow ho)) fun _ _ _ =>
      ends_bind (toFloat_ends b (.overflow ho)) fun _ _ _ => trivial
  | numerals hb => exact .operands rfl
  | intFloat a b =>
    have ho : ConvertsInteger op (.int a) (.float b) := hop.imp_right .inl
    exact ends_bind (toFloat_ends a (.overflow ho)) fun _ _ _ => trivial
  | floatInt a b =>
    have ho : ConvertsInteger op (.float a) (.int b) := hop.imp_right .inl
    exact ends_bind (toFloat_ends b (.overflow ho)) fun _ _ _ => trivial

theorem remainder_ends (pair : Operands) :
    Ends Value.Proper (Accounts (.binary op l r)) (remainder op pair) := by
  unfold remainder
  split
  · split
    · exact .operands rfl
    · trivial
  · exact .operands rfl

/-- A bitwise operation that works on two numerals of one base. -/
theorem bitwise_ends {pair : Operands} (h : Operands.Of l r pair)
    {g : Value → Value → Except RadixProblem Numeral}
    (hg : ∀ a b : Numeral, a.base = b.base → ∃ x, g (.numeral a) (.numeral b) = .ok x) :
    Ends Value.Proper (Accounts (.binary op l r)) (bitwise op g l r pair) := by
  cases h with
  | numerals hb =>
    obtain ⟨x, hx⟩ := hg _ _ hb
    rw [bitwise, hx]
    trivial
  | _ => exact .operands rfl

/-- An operator between two values, as the parser reads one. -/
def IsBinary (op : Token) : Prop := op.kind.precedence? ≠ none ∧ op.kind.isLogical = false

theorem arithmetic_ends {pair : Operands} (h : Operands.Of l r pair) (hop : IsBinary op)
    (hne : op.kind ≠ .equalEqual ∧ op.kind ≠ .bangEqual ∧ op.kind ≠ .plus) :
    Ends Value.Proper (Accounts (.binary op l r)) (arithmetic op l r pair) := by
  unfold arithmetic
  split
  · trivial
  · next hcomparison =>
    split
    · next hk => exact minus_ends h hk
    · next hk => exact ends_bind (asFloats_ends h (.inl hk)) fun _ _ _ => trivial
    · next hk => exact ends_bind (asFloats_ends h (.inr hk)) fun _ _ _ => trivial
    · exact remainder_ends pair
    · refine bitwise_ends h fun a b hb => ⟨.bitOr a.base a b, ?_⟩
      rw [Radix.bitOr, Radix.operands_numeral _ hb]
      rfl
    · refine bitwise_ends h fun a b hb => ⟨.bitAnd a.base a b, ?_⟩
      rw [Radix.bitAnd, Radix.operands_numeral _ hb]
      rfl
    · -- no other kind has a precedence
      obtain ⟨hprecedence, hlogical⟩ := hop
      exfalso
      revert hcomparison hprecedence hlogical
      cases hkind : op.kind <;> simp_all [comparison?, Kind.precedence?, Kind.isLogical]

theorem equal_ends {allowed : Fault → Prop} (hl : l.Proper) (hr : r.Proper) :
    Ends (fun _ => True) allowed (l.equal r) := by
  unfold Value.equal
  split
  · trivial
  · trivial
  · trivial
  · exact ends_bind (Value.kindOf_ends hl) fun _ _ _ =>
      ends_bind (Value.kindOf_ends hr) fun _ _ _ => trivial

/-- **Operators between two values keep to the list.** -/
theorem binary_ends (hop : IsBinary op) (hl : l.Proper) (hr : r.Proper) :
    Ends Value.Proper (Accounts (.binary op l r)) (binary op l r) := by
  unfold binary
  split
  · exact ends_bind (equal_ends hl hr) fun _ _ _ => trivial
  · exact ends_bind (equal_ends hl hr) fun _ _ _ => trivial
  · exact plus_ends hl hr
  · next h₁ h₂ h₃ =>
    have hclassify :
        Ends (fun _ => True) (Accounts (.binary op l r)) (Operands.classify op l r) := by
      refine ends_bind (Value.kindOf_ends hl) fun _ _ _ =>
        ends_bind (Value.kindOf_ends hr) fun _ _ _ => ?_
      split
      · trivial
      · exact .operands rfl
    refine ends_bind hclassify fun pair hpair _ => ?_
    refine arithmetic_ends (Operands.of_classify hpair) hop ⟨h₁, h₂, h₃⟩

/-- **Operators in front of a value keep to the list.** -/
theorem unary_ends (hop : op.kind.isUnary = true) (hv : v.Proper) :
    Ends Value.Proper (Accounts (.unary op v)) (unary op v) := by
  unfold unary
  split
  · trivial
  · refine ends_bind (Value.kindOf_ends hv) fun _ _ _ => ?_
    split
    · trivial
    · trivial
    · exact .operand rfl
  · next h₁ h₂ =>
    revert hop
    cases hkind : op.kind <;> simp_all [Kind.isUnary]

end Operator

/-! ## Native functions -/

/-- All values are proper, and nothing on the console is still awaited. -/
structure Machine.Proper (m : Machine) : Prop where
  values : ∀ i x v, m.scopes.own? i x = some v → v.Proper
  input : m.console.moreLines = false
  clock : m.console.known? = none

theorem Machine.Proper.congr {m m' : Machine} (h : m.Proper)
    (hscopes : m'.scopes = m.scopes) (hinput : m'.console.moreLines = m.console.moreLines)
    (hclock : m'.console.known? = m.console.known?) : m'.Proper where
  values := fun i x v hv => h.values i x v (hscopes ▸ hv)
  input := hinput.trans h.input
  clock := hclock.trans h.clock

/-- A run that gives a proper value on a proper machine, or stops with a fault that is allowed. -/
def Run.EndsAt (x : Run Value) (m : Machine) (allowed : Fault → Prop) : Prop :=
  match x m with
  | .ok v m' => v.Proper ∧ m'.Proper
  | .error f _ => allowed f

theorem Run.EndsAt.imp {x : Run Value} {m : Machine} {allowed allowed' : Fault → Prop}
    (h : x.EndsAt m allowed) (hf : ∀ f, allowed f → allowed' f) : x.EndsAt m allowed' := by
  rw [Run.EndsAt] at h ⊢
  cases hx : x m with
  | ok v m' =>
    rw [hx] at h
    exact h
  | error f m' =>
    rw [hx] at h
    exact hf f h

theorem Run.endsAt_lift {x : Except Fault Value} {m : Machine} {allowed : Fault → Prop}
    (h : Ends Value.Proper allowed x) (hm : m.Proper) : (Run.lift x).EndsAt m allowed := by
  cases x with
  | ok v => exact ⟨h, hm⟩
  | error f => exact h

namespace Native

open Operation

variable {n s : Nat} {m : Machine}

/-- Only an integer can be too long to be written. -/
theorem exists_int_of_display {allowed : Fault → Prop}
    (h : ∀ k, v = .int k → Decimal.integerText? k = none → allowed .overlong) :
    Ends (fun _ => True) allowed (display v) := by
  cases v
  case int k =>
    rw [display, Value.display?]
    cases hk : Decimal.integerText? k with
    | some shown => trivial
    | none => exact h k rfl hk
  case float x =>
    rw [display, Value.display?, Decimal.displayText?_eq]
    trivial
  all_goals trivial

theorem toNumeral_ends (b : Base) (hv : v.Proper) :
    Ends Value.Proper (fun f => Accounts (.call n (.native (.toBase b) s) [v] paren)
      (f.locate paren)) (toNumeral b v) := by
  unfold toNumeral
  split
  · trivial
  · refine ends_bind (Value.kindOf_ends hv) fun _ _ _ => ?_
    split
    · next k =>
      split
      · next hn =>
        split
        · next shown hk => exact .negative hn hk
        · next hk => exact .overlongNegative hn hk
      · trivial
    · exact .native rfl

theorem toDecimal_ends (hv : v.Proper) :
    Ends Value.Proper (fun f => Accounts (.call n (.native .decimal s) [v] paren)
      (f.locate paren)) (toDecimal v) := by
  refine ends_bind (Value.kindOf_ends hv) fun _ _ _ => ?_
  split
  · trivial
  · trivial
  · next hint hfloat =>
    split
    · trivial
    · dsimp only
      split
      · next w hw =>
        -- a text is read as an integer, or stays a text
        split at hw
        · simp only [ofDecimalText?] at hw
          split at hw
          · cases hw
            trivial
          · obtain ⟨k, _, rfl⟩ := Option.map_eq_some_iff.mp hw
            trivial
        · cases hw
      · refine ends_bind (exists_int_of_display fun k hk _ => ?_) fun _ _ _ => .native rfl
        exact absurd hk (hint k)

/-- **Native functions keep to the list**, when they get the number of arguments they take. -/
theorem run_endsAt (g : Native) (n s : Nat) (paren : Token) {args : List Value}
    (hlength : args.length = g.arity) (hargs : ∀ v ∈ args, v.Proper) (hm : m.Proper) :
    (g.run args).EndsAt m
      fun f => Accounts (.call n (.native g s) args paren) (f.locate paren) := by
  cases g with
  | clock =>
    simp only [Run.EndsAt, run, Run.readClock, bind, EStateM.bind, hm.clock]
    exact ⟨trivial, hm.congr rfl rfl hm.clock.symm⟩
  | read =>
    simp only [Run.EndsAt, run, Run.readLine, bind, EStateM.bind]
    cases m.console.input with
    | nil =>
      rw [if_neg (by simp [hm.input])]
      exact ⟨trivial, hm⟩
    | cons line rest => exact ⟨trivial, hm.congr rfl rfl rfl⟩
  | print =>
    obtain ⟨v, rfl⟩ := List.length_eq_one_iff.mp hlength
    have hshown : Ends (fun _ => True)
        (fun f => Accounts (.call n (.native .print s) [v] paren) (f.locate paren))
        (display v) := exists_int_of_display fun k hk hnone => by
      subst hk
      exact .overlong (.inl rfl) hnone
    simp only [Run.EndsAt, run, List.headD_cons, bind, EStateM.bind]
    cases hd : display v with
    | ok shown => exact ⟨trivial, hm.congr rfl rfl rfl⟩
    | error f =>
      rw [hd] at hshown
      exact hshown
  | str =>
    obtain ⟨v, rfl⟩ := List.length_eq_one_iff.mp hlength
    have hshown : Ends (fun _ => True)
        (fun f => Accounts (.call n (.native .str s) [v] paren) (f.locate paren))
        (display v) := exists_int_of_display fun k hk hnone => by
      subst hk
      exact .overlong (.inr rfl) hnone
    simp only [Run.EndsAt, run, List.headD_cons, bind, EStateM.bind]
    cases hd : display v with
    | ok shown => exact ⟨trivial, hm⟩
    | error f =>
      rw [hd] at hshown
      exact hshown
  | binary =>
    obtain ⟨v, rfl⟩ := List.length_eq_one_iff.mp hlength
    exact Run.endsAt_lift (toNumeral_ends .binary (hargs v (List.mem_singleton.mpr rfl))) hm
  | hexadecimal =>
    obtain ⟨v, rfl⟩ := List.length_eq_one_iff.mp hlength
    exact Run.endsAt_lift (toNumeral_ends .hexadecimal (hargs v (List.mem_singleton.mpr rfl))) hm
  | decimal =>
    obtain ⟨v, rfl⟩ := List.length_eq_one_iff.mp hlength
    exact Run.endsAt_lift (toDecimal_ends (hargs v (List.mem_singleton.mpr rfl))) hm

end Native

end RadixScript
