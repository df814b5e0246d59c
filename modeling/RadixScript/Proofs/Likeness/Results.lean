import RadixScript.Proofs.Likeness.Machines

/-!
# Results that are alike

Operators and native functions cannot tell apart values that are alike: they see of a closure that
it is one, its name, and its number. So they have the same result on both, or stop with the same
fault, at tokens that correspond.

`ResultsAlike` says this for whole runs: they end alike, on machines that are alike in a world that
extends the one of the start.
-/

namespace RadixScript

variable {ι : Type} {L : ι → Likeness} {i : ι} {α β α' β' : Type} {W : World} {n : Nat}
  {op op' : Token} {l l' r r' v v' : Value}

/-! ## Faults -/

/-- The fault is none of the program's errors. -/
def Fault.IsLimit : Fault → Prop
  | .error _ => False
  | _ => True

/-- The same fault, at tokens that correspond. -/
inductive Fault.Alike (corresponds : Token → Token → Prop) : Fault → Fault → Prop
  | error {c t? t'?} (h : Option.Rel corresponds t? t'?) :
    Fault.Alike corresponds (.error ⟨c, t?⟩) (.error ⟨c, t'?⟩)
  | limit {f} (h : f.IsLimit) : Fault.Alike corresponds f f

theorem Fault.Alike.imp {corresponds corresponds' : Token → Token → Prop} {f f' : Fault}
    (h : f.Alike corresponds f') (hi : ∀ t t', corresponds t t' → corresponds' t t') :
    f.Alike corresponds' f' := by
  cases h with
  | error ht =>
    refine .error ?_
    cases ht with
    | some ht => exact .some (hi _ _ ht)
    | none => exact .none
  | limit hf => exact .limit hf

/-- The tokens correspond in one of several ways. -/
def Correspond (L : ι → Likeness) (t t' : Token) : Prop := ∃ i, (L i).token t t'

theorem Fault.Alike.causeAt (h : (L i).token op op') (c : Cause) :
    Fault.Alike (Correspond L) (.causeAt op c) (.causeAt op' c) := .error (.some ⟨i, h⟩)

theorem Fault.Alike.cause (c : Cause) : Fault.Alike (Correspond L) (.cause c) (.cause c) :=
  .error .none

theorem Fault.Alike.locate {f f' : Fault} (hf : f.Alike (Correspond L) f')
    (h : (L i).token op op') : (f.locate op).Alike (Correspond L) (f'.locate op') := by
  cases hf with
  | error ht =>
    cases ht with
    | none => exact .error (.some ⟨i, h⟩)
    | some ht => exact .error (.some ht)
  | limit hf =>
    cases f
    case error e => exact hf.elim
    all_goals exact .limit trivial

/-- Both have a result, as required, or both a fault, and these are alike. -/
def OutcomesAlike (L : ι → Likeness) (post : α → α' → Prop) :
    Except Fault α → Except Fault α' → Prop
  | .ok a, .ok a' => post a a'
  | .error f, .error f' => f.Alike (Correspond L) f'
  | _, _ => False

theorem outcomesAlike_bind {mid : α → α' → Prop} {post : β → β' → Prop} {x : Except Fault α}
    {x' : Except Fault α'} {g : α → Except Fault β} {g' : α' → Except Fault β'}
    (hx : OutcomesAlike L mid x x') (hg : ∀ a a', mid a a' → OutcomesAlike L post (g a) (g' a')) :
    OutcomesAlike L post (x >>= g) (x' >>= g') := by
  cases x with
  | ok a =>
    cases x' with
    | ok a' => exact hg a a' hx
    | error f => exact hx.elim
  | error f =>
    cases x' with
    | ok a' => exact hx.elim
    | error f' => exact hx

/-! ## Operators, at another token -/

namespace Operator

theorem kindOf_alike (v : Value) : OutcomesAlike L Eq v.kindOf v.kindOf := by
  rw [Value.kindOf]
  split
  · rfl
  · exact .limit trivial

theorem toFloat_alike (k : Int) : OutcomesAlike L Eq (toFloat k) (toFloat k) := by
  simp only [toFloat]
  split
  · exact .limit trivial
  · rfl

theorem radixResult_alike (hop : (L i).token op op') (x : Except RadixProblem Numeral) :
    OutcomesAlike L Eq (radixResult op x) (radixResult op' x) := by
  cases x with
  | ok x => rfl
  | error p => exact .causeAt hop _

theorem plus_alike (hop : (L i).token op op') (l r : Value) :
    OutcomesAlike L Eq (plus op l r) (plus op' l r) := by
  refine outcomesAlike_bind (kindOf_alike l) fun _ _ _ =>
    outcomesAlike_bind (kindOf_alike r) fun _ _ _ => ?_
  split
  · rfl
  · rfl
  · rfl
  · split
    · exact radixResult_alike hop _
    · exact .causeAt hop _
  · exact .causeAt hop _

theorem minus_alike (hop : (L i).token op op') (l r : Value) (pair : Operands) :
    OutcomesAlike L Eq (minus op l r pair) (minus op' l r pair) := by
  cases pair with
  | floats a b => rfl
  | ints a b => rfl
  | numerals base a b => exact radixResult_alike hop _
  | intFloat a b =>
    refine outcomesAlike_bind (toFloat_alike a) ?_
    rintro x _ rfl
    rfl
  | floatInt a b =>
    refine outcomesAlike_bind (toFloat_alike b) ?_
    rintro x _ rfl
    rfl

theorem asFloats_alike (hop : (L i).token op op') (pair : Operands) :
    OutcomesAlike L Eq (asFloats op pair) (asFloats op' pair) := by
  cases pair with
  | floats a b => rfl
  | ints a b =>
    refine outcomesAlike_bind (toFloat_alike a) ?_
    rintro x _ rfl
    refine outcomesAlike_bind (toFloat_alike b) ?_
    rintro y _ rfl
    rfl
  | numerals base a b => exact .causeAt hop _
  | intFloat a b =>
    refine outcomesAlike_bind (toFloat_alike a) ?_
    rintro x _ rfl
    rfl
  | floatInt a b =>
    refine outcomesAlike_bind (toFloat_alike b) ?_
    rintro x _ rfl
    rfl

theorem remainder_alike (hop : (L i).token op op') (pair : Operands) :
    OutcomesAlike L Eq (remainder op pair) (remainder op' pair) := by
  unfold remainder
  split
  · split
    · exact .causeAt hop _
    · rfl
  · exact .causeAt hop _

theorem bitwise_alike (hop : (L i).token op op')
    (g : Value → Value → Except RadixProblem Numeral) (l r : Value) (pair : Operands) :
    OutcomesAlike L Eq (bitwise op g l r pair) (bitwise op' g l r pair) := by
  unfold bitwise
  split
  · exact radixResult_alike hop _
  · exact .causeAt hop _

theorem arithmetic_alike (hop : (L i).token op op') (l r : Value) (pair : Operands) :
    OutcomesAlike L Eq (arithmetic op l r pair) (arithmetic op' l r pair) := by
  unfold arithmetic
  rw [(L i).kind_eq hop]
  split
  · rfl
  · split
    · exact minus_alike hop l r pair
    · refine outcomesAlike_bind (asFloats_alike hop pair) ?_
      rintro x _ rfl
      rfl
    · refine outcomesAlike_bind (asFloats_alike hop pair) ?_
      rintro x _ rfl
      rfl
    · exact remainder_alike hop pair
    · exact bitwise_alike hop _ l r pair
    · exact bitwise_alike hop _ l r pair
    · rw [(L i).text_eq hop]
      exact .causeAt hop _

theorem equal_alike (l r : Value) : OutcomesAlike L Eq (l.equal r) (l.equal r) := by
  unfold Value.equal
  split
  · rfl
  · rfl
  · rfl
  · refine outcomesAlike_bind (kindOf_alike _) ?_
    rintro k _ rfl
    refine outcomesAlike_bind (kindOf_alike _) ?_
    rintro k' _ rfl
    rfl

theorem classify_alike (hop : (L i).token op op') (l r : Value) :
    OutcomesAlike L Eq (Operands.classify op l r) (Operands.classify op' l r) := by
  refine outcomesAlike_bind (kindOf_alike l) fun _ _ _ =>
    outcomesAlike_bind (kindOf_alike r) fun _ _ _ => ?_
  split
  · rfl
  · exact .causeAt hop _

theorem binary_moved (hop : (L i).token op op') (l r : Value) :
    OutcomesAlike L Eq (binary op l r) (binary op' l r) := by
  unfold binary
  rw [(L i).kind_eq hop]
  split
  · refine outcomesAlike_bind (equal_alike l r) ?_
    rintro b _ rfl
    rfl
  · refine outcomesAlike_bind (equal_alike l r) ?_
    rintro b _ rfl
    rfl
  · exact plus_alike hop l r
  · refine outcomesAlike_bind (classify_alike hop l r) ?_
    rintro pair _ rfl
    exact arithmetic_alike hop l r pair

theorem unary_moved (hop : (L i).token op op') (v : Value) :
    OutcomesAlike L Eq (unary op v) (unary op' v) := by
  unfold unary
  rw [(L i).kind_eq hop]
  split
  · rfl
  · refine outcomesAlike_bind (kindOf_alike v) fun _ _ _ => ?_
    split
    · rfl
    · rfl
    · exact .causeAt hop _
  · rw [(L i).text_eq hop]
    exact .causeAt hop _

end Operator

/-! ## Values -/

namespace Value.Alike

theorem isTruthy (h : v.Alike L W n v') : v'.isTruthy = v.isTruthy := by
  cases h <;> rfl

theorem binary_left (h : l.Alike L W n l') (r : Value) :
    Operator.binary op l' r = Operator.binary op l r := by
  cases h with
  | inert => rfl
  | @closure f f' j hf =>
    unfold Operator.binary
    cases r <;> simp [Value.equal, Value.kindOf, Value.kind, Value.same, hf.serial, Operator.plus,
      Operands.classify, Operands.ofValues?, bind, Except.bind, throw, throwThe,
      MonadExceptOf.throw]

theorem binary_right (h : r.Alike L W n r') (l : Value) :
    Operator.binary op l r' = Operator.binary op l r := by
  cases h with
  | inert => rfl
  | @closure f f' j hf =>
    unfold Operator.binary
    cases l <;> simp [Value.equal, Value.kindOf, Value.kind, Value.same, hf.serial, Operator.plus,
      Operands.classify, Operands.ofValues?, bind, Except.bind, throw, throwThe,
      MonadExceptOf.throw]

theorem unary (h : v.Alike L W n v') : Operator.unary op v' = Operator.unary op v := by
  cases h <;> rfl

theorem display? (h : v.Alike L W n v') : v'.display? = v.display? := by
  cases h with
  | inert => rfl
  | closure i h => simp only [Value.display?, (L i).text_eq h.name]

theorem toNumeral (h : v.Alike L W n v') (b : Base) :
    Native.toNumeral b v' = Native.toNumeral b v := by
  cases h <;> rfl

theorem toDecimal (h : v.Alike L W n v') : Native.toDecimal v' = Native.toDecimal v := by
  cases h with
  | inert => rfl
  | closure i h =>
    simp only [Native.toDecimal, Native.display, Value.display?, (L i).text_eq h.name,
      Value.kindOf, Value.kind, Radix.numeral?]

end Value.Alike

/-! ## Runs -/

/-- Both runs have a result, as required, or both a fault, and these are alike. The machines after
them are alike in a world that extends the one of the start, when there were `n` scopes. -/
def ResultsAlike (L : ι → Likeness) (W : World) (n : Nat) (post : World → Nat → α → α' → Prop) :
    EStateM.Result Fault Machine α → EStateM.Result Fault Machine α' → Prop
  | .ok a m, .ok a' m' => ∃ W', W.Extends n W' ∧ n ≤ m.scopes.all.size ∧ m.Alike L W' m' ∧
    post W' m.scopes.all.size a a'
  | .error f m, .error f' m' => ∃ W', W.Extends n W' ∧ n ≤ m.scopes.all.size ∧ m.Alike L W' m' ∧
    f.Alike (Correspond L) f'
  | _, _ => False

section runs

variable {m m' : Machine} {mid : World → Nat → α → α' → Prop} {post : World → Nat → β → β' → Prop}

theorem resultsAlike_pure {a : α} {a' : α'} (hm : m.Alike L W m')
    (ha : mid W m.scopes.all.size a a') :
    ResultsAlike L W m.scopes.all.size mid ((pure a : Run α) m) ((pure a' : Run α') m') :=
  ⟨W, .refl _ W, Nat.le_refl _, hm, ha⟩

theorem resultsAlike_throw {f f' : Fault} (hm : m.Alike L W m')
    (hf : f.Alike (Correspond L) f') :
    ResultsAlike L W m.scopes.all.size mid ((throw f : Run α) m) ((throw f' : Run α') m') :=
  ⟨W, .refl _ W, Nat.le_refl _, hm, hf⟩

theorem resultsAlike_bind {x : Run α} {x' : Run α'} {g : α → Run β} {g' : α' → Run β'}
    (hx : ResultsAlike L W n mid (x m) (x' m'))
    (hg : ∀ W₁ a a' m₁ m₁', W.Extends n W₁ → n ≤ m₁.scopes.all.size → m₁.Alike L W₁ m₁' →
      mid W₁ m₁.scopes.all.size a a' →
      ResultsAlike L W₁ m₁.scopes.all.size post (g a m₁) (g' a' m₁')) :
    ResultsAlike L W n post ((x >>= g) m) ((x' >>= g') m') := by
  simp only [bind, EStateM.bind]
  cases hr : x m with
  | ok a m₁ =>
    cases hr' : x' m' with
    | ok a' m₁' =>
      rw [hr, hr'] at hx
      obtain ⟨W₁, hW, hn, hm, ha⟩ := hx
      have h := hg W₁ a a' m₁ m₁' hW hn hm ha
      -- what extends the world after the first part extends the one before it
      dsimp only
      cases hs : g a m₁ <;> cases hs' : g' a' m₁' <;> rw [hs, hs'] at h
      case ok.error => exact h
      case error.ok => exact h
      all_goals
        obtain ⟨W₂, hW₂, hn₂, h⟩ := h
        exact ⟨W₂, hW.trans hW₂ hn, Nat.le_trans hn hn₂, h⟩
    | error f m₁' =>
      rw [hr, hr'] at hx
      exact hx.elim
  | error f m₁ =>
    cases hr' : x' m' with
    | ok a' m₁' =>
      rw [hr, hr'] at hx
      exact hx.elim
    | error f' m₁' =>
      rw [hr, hr'] at hx
      exact hx

theorem resultsAlike_lift {x : Except Fault α} {x' : Except Fault α'} {post : α → α' → Prop}
    (hm : m.Alike L W m') (hx : OutcomesAlike L post x x')
    (hpost : ∀ a a', x = .ok a → post a a' → mid W m.scopes.all.size a a') :
    ResultsAlike L W m.scopes.all.size mid (Run.lift x m) (Run.lift x' m') := by
  cases x with
  | ok a =>
    cases x' with
    | ok a' => exact resultsAlike_pure hm (hpost a a' rfl hx)
    | error f => exact hx.elim
  | error f =>
    cases x' with
    | ok a' => exact hx.elim
    | error f' => exact resultsAlike_throw hm hx

theorem resultsAlike_located {x : Run α} {x' : Run α'} (hop : (L i).token op op')
    (hx : ResultsAlike L W n mid (x m) (x' m')) :
    ResultsAlike L W n mid (Run.located op x m) (Run.located op' x' m') := by
  rw [Run.located, Run.located]
  cases hr : x m <;> cases hr' : x' m' <;> rw [hr, hr'] at hx
  case ok.ok => exact hx
  case error.error =>
    obtain ⟨W', hW, hn, hm, hf⟩ := hx
    exact ⟨W', hW, hn, hm, hf.locate hop⟩
  all_goals exact hx.elim

end runs

/-! ## Operators and native functions -/

section operations

variable {m m' : Machine}

theorem Operator.unary_alike (hm : m.Alike L W m') (hop : (L i).token op op')
    (hv : v.Alike L W m.scopes.all.size v') :
    ResultsAlike L W m.scopes.all.size (Value.Alike L) (Run.lift (Operator.unary op v) m)
      (Run.lift (Operator.unary op' v') m') := by
  rw [hv.unary]
  refine resultsAlike_lift hm (Operator.unary_moved hop v) ?_
  rintro a _ ha rfl
  have hinert := Operator.unary_yields op v
  rw [ha] at hinert
  exact .inert hinert

theorem Operator.binary_alike (hm : m.Alike L W m') (hop : (L i).token op op')
    (hl : l.Alike L W m.scopes.all.size l') (hr : r.Alike L W m.scopes.all.size r') :
    ResultsAlike L W m.scopes.all.size (Value.Alike L) (Run.lift (Operator.binary op l r) m)
      (Run.lift (Operator.binary op' l' r') m') := by
  rw [hl.binary_left, hr.binary_right]
  refine resultsAlike_lift hm (Operator.binary_moved hop l r) ?_
  rintro a _ ha rfl
  have hinert := Operator.binary_yields op l r
  rw [ha] at hinert
  exact .inert hinert

theorem Machine.Alike.setConsole (hm : m.Alike L W m') (c : Console) :
    Machine.Alike L W { m with console := c } { m' with console := c } :=
  { hm with console := rfl }

/-- Native functions do the same on arguments that are alike. -/
theorem Native.run_congr (g : Native) {args args' : List Value}
    (h : List.Forall₂ (Value.Alike L W n) args args') : g.run args' = g.run args := by
  have harg : (args.headD .null).Alike L W n (args'.headD .null) := by
    cases h with
    | nil => exact .inert trivial
    | cons hv _ => exact hv
  have hdisplay : Native.display (args'.headD .null) = Native.display (args.headD .null) := by
    rw [Native.display, Native.display, harg.display?]
  cases g with
  | clock => rfl
  | read => rfl
  | print => simp only [Native.run, hdisplay]
  | str => simp only [Native.run, hdisplay]
  | binary => simp only [Native.run, harg.toNumeral]
  | hexadecimal => simp only [Native.run, harg.toNumeral]
  | decimal => simp only [Native.run, harg.toDecimal]

theorem Native.display_alike (v : Value) :
    OutcomesAlike L Eq (Native.display v) (Native.display v) := by
  unfold Native.display
  split
  · rfl
  · exact .limit trivial

/-- The faults of native functions have no token yet. -/
theorem Native.toNumeral_alike (b : Base) (v : Value) :
    OutcomesAlike L Eq (Native.toNumeral b v) (Native.toNumeral b v) := by
  unfold Native.toNumeral
  split
  · rfl
  · refine outcomesAlike_bind (Operator.kindOf_alike v) fun _ _ _ => ?_
    split
    · split
      · split
        · exact .cause _
        · exact .limit trivial
      · rfl
    · exact .cause _

theorem Native.toDecimal_alike (v : Value) :
    OutcomesAlike L Eq (Native.toDecimal v) (Native.toDecimal v) := by
  refine outcomesAlike_bind (Operator.kindOf_alike v) fun _ _ _ => ?_
  split
  · rfl
  · rfl
  · split
    · rfl
    · dsimp only
      split
      · rfl
      · refine outcomesAlike_bind (Native.display_alike v) ?_
        rintro shown _ rfl
        exact .cause _

theorem Native.run_alike (g : Native) {args args' : List Value} (hm : m.Alike L W m')
    (hargs : List.Forall₂ (Value.Alike L W n) args args') :
    ResultsAlike L W m.scopes.all.size (Value.Alike L) (g.run args m) (g.run args' m') := by
  rw [g.run_congr hargs]
  have hdisplay : ∀ v, ResultsAlike L W m.scopes.all.size (fun _ _ => Eq)
      (Run.lift (Native.display v) m) (Run.lift (Native.display v) m') :=
    fun v => resultsAlike_lift hm (Native.display_alike v) fun _ _ _ h => h
  -- a result of a conversion is inert
  have hlift : ∀ x : Except Fault Value, Yields x Value.IsInert → OutcomesAlike L Eq x x →
      ResultsAlike L W m.scopes.all.size (Value.Alike L) (Run.lift x m) (Run.lift x m') := by
    intro x hinert hx
    refine resultsAlike_lift hm hx ?_
    rintro v _ rfl rfl
    exact .inert hinert
  cases g with
  | clock =>
    simp only [Native.run, Run.readClock, bind, EStateM.bind, hm.console]
    cases m.console.known?.any (· ≤ m.console.readings) with
    | true => exact resultsAlike_throw hm (.limit trivial)
    | false => exact ⟨W, .refl _ W, Nat.le_refl _, hm.setConsole _, .inert trivial⟩
  | read =>
    simp only [Native.run, Run.readLine, bind, EStateM.bind, hm.console]
    cases m.console.input with
    | nil =>
      cases m.console.moreLines with
      | true => exact resultsAlike_throw hm (.limit trivial)
      | false => exact resultsAlike_pure hm (.inert trivial)
    | cons line rest =>
      exact ⟨W, .refl _ W, Nat.le_refl _, hm.setConsole _, .inert trivial⟩
  | print =>
    refine resultsAlike_bind (hdisplay _) ?_
    rintro W₁ shown _ m₁ m₁' _ _ hm₁ rfl
    have hwrite : ∀ k : Machine, (Run.write (shown ++ "\n") k) =
        .ok () { k with console := k.console.write (shown ++ "\n") } := fun _ => rfl
    simp only [bind, EStateM.bind, hwrite, hm₁.console]
    exact ⟨W₁, .refl _ W₁, Nat.le_refl _, hm₁.setConsole _, .inert trivial⟩
  | str =>
    refine resultsAlike_bind (hdisplay _) ?_
    rintro W₁ shown _ m₁ m₁' _ _ hm₁ rfl
    exact resultsAlike_pure hm₁ (.inert trivial)
  | binary => exact hlift _ (Native.toNumeral_yields _ _) (Native.toNumeral_alike _ _)
  | hexadecimal => exact hlift _ (Native.toNumeral_yields _ _) (Native.toNumeral_alike _ _)
  | decimal => exact hlift _ (Native.toDecimal_yields _) (Native.toDecimal_alike _)

end operations

end RadixScript
