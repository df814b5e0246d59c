import RadixScript.Proofs.Numerals.Bitwise
import RadixScript.Proofs.Numerals.Conversions
import RadixScript.Proofs.Numerals.Sums

/-!
# Equality of values

On the values of the language, equality is a partial equivalence: it is symmetric and transitive, it
tells kinds apart, and the only value that differs from itself is not-a-number. Numerals are equal
when they have one base and stand for one number, whatever zeros they have in front.

The operators respect that. What an operator makes of two numerals can be read off their numbers
(`Operator.binary_numerals`), except that the digits of a bitwise result have the width of its
operands; so equal numerals can replace each other in every operation
(`Operator.equality_respected`).
-/

namespace RadixScript

/-! ## Floating-point numbers -/

section Float

open Float.Model

/-- What equality compares: both zeros are one number, and not-a-number is none. -/
def comparand? : UnpackedFloat → Option UnpackedFloat
  | .notANumber => none
  | .zero _ => some (.zero .positive)
  | u => some u

theorem finite_eq_iff {s : UnpackedFloat.Sign} {m m' : Nat} {e e' : Int} {hm : 0 < m}
    {hm' : 0 < m'} : comparand? (.finite s m e hm) = comparand? (.finite s m' e' hm') ↔
      (compare e e').then (compare m m') = .eq := by
  rw [Ordering.then_eq_eq, Int.compare_eq_eq, Nat.compare_eq_eq]
  constructor
  · intro h
    cases h
    exact ⟨rfl, rfl⟩
  · rintro ⟨rfl, rfl⟩
    rfl

theorem compare_eq_some_eq_iff (u v : UnpackedFloat) :
    u.compare v = some .eq ↔ (comparand? u).isSome ∧ comparand? u = comparand? v := by
  -- only finite numbers of one sign need more than a look at the constructors
  rcases u with ⟨_ | _⟩ | _ | _ | ⟨_ | _, m, e, hm⟩ <;>
    rcases v with ⟨_ | _⟩ | _ | _ | ⟨_ | _, m', e', hm'⟩
  case finite.negative.finite.negative =>
    rw [finite_eq_iff, ← Ordering.swap_eq_eq]
    exact Option.some_inj.trans (and_iff_right rfl).symm
  case finite.positive.finite.positive =>
    rw [finite_eq_iff]
    exact Option.some_inj.trans (and_iff_right rfl).symm
  all_goals
    first
    | exact iff_of_true rfl ⟨rfl, rfl⟩
    | exact iff_of_false nofun nofun

variable {x y z : Float}

theorem float_beq_iff : (x == y) = true ↔
    (comparand? x.toModel.unpack).isSome ∧
      comparand? x.toModel.unpack = comparand? y.toModel.unpack := by
  show (x.toModel.unpack.compare y.toModel.unpack == some .eq) = true ↔ _
  rw [beq_iff_eq, compare_eq_some_eq_iff]

theorem float_beq_comm (x y : Float) : (x == y) = (y == x) := by
  rw [Bool.eq_iff_iff, float_beq_iff, float_beq_iff]
  constructor <;> exact fun ⟨h, heq⟩ => ⟨heq ▸ h, heq.symm⟩

theorem float_beq_trans (hxy : (x == y) = true) (hyz : (y == z) = true) : (x == z) = true := by
  rw [float_beq_iff] at *
  exact ⟨hxy.1, hxy.2.trans hyz.2⟩

theorem isSome_comparand? (u : UnpackedFloat) : (comparand? u).isSome = !u.isNaN := by
  cases u <;> rfl

theorem float_beq_self_iff : (x == x) = true ↔ x.isNaN = false := by
  rw [float_beq_iff, isSome_comparand?, Bool.not_eq_true']
  exact and_iff_left rfl

end Float

namespace Value

variable {a b c : Value} {k k' : ValueKind} {x y : Numeral}

/-! ## A partial equivalence -/

theorem same_comm (a b : Value) : same a b = same b a := by
  cases a <;> cases b <;> simp only [same]
  case float => exact float_beq_comm _ _
  all_goals grind

theorem same_trans (hab : same a b = true) (hbc : same b c = true) : same a c = true := by
  cases a <;> cases b <;> simp only [same, Bool.false_eq_true] at hab <;>
    cases c <;> simp only [same, Bool.false_eq_true] at hbc ⊢
  case float => exact float_beq_trans hab hbc
  all_goals grind

theorem same_self_iff (h : a.kind = .ok k) :
    same a a = true ↔ ∀ x, a = .float x → x.isNaN = false := by
  cases a with
  | float x =>
    rw [same, float_beq_self_iff]
    exact ⟨fun h y hy => by cases hy; exact h, fun h => h x rfl⟩
  | foreign typeName => cases h
  | _ => simp [same]

theorem kind_eq_of_same (h : same a b = true) : a.kind = b.kind := by
  cases a <;> cases b <;> simp only [same, Bool.false_eq_true] at h
  case numeral x y =>
    have hbase : x.base = y.base := by simp_all
    simp only [kind, hbase]
  all_goals rfl

/-- **On the values of the language, equality is sameness**, which the kinds do not add anything
to. -/
theorem equal_eq_same (ha : a.kind = .ok k) (hb : b.kind = .ok k') :
    a.equal b = .ok (same a b) := by
  have hkinds : (k == k' && same a b) = same a b := by
    cases hsame : same a b with
    | false => rw [Bool.and_false]
    | true =>
      have hk : Except.ok k = Except.ok k' := ha ▸ hb ▸ kind_eq_of_same hsame
      cases hk
      simp
  unfold equal
  split
  · rfl
  · next hne =>
    cases b with
    | null => exact absurd rfl hne
    | _ => rfl
  · next hne =>
    cases a with
    | null => exact absurd rfl hne
    | _ => rfl
  · rw [kindOf, kindOf, ha, hb]
    exact congrArg Except.ok hkinds

theorem equal_comm (ha : a.kind = .ok k) (hb : b.kind = .ok k') : a.equal b = b.equal a := by
  rw [equal_eq_same ha hb, equal_eq_same hb ha, same_comm]

/-- Only not-a-number differs from itself. -/
theorem equal_self_iff (h : a.kind = .ok k) :
    a.equal a = .ok true ↔ ∀ x, a = .float x → x.isNaN = false := by
  rw [equal_eq_same h h, Except.ok.injEq, same_self_iff h]

theorem equal_of_kind_ne (ha : a.kind = .ok k) (hb : b.kind = .ok k') (hne : k ≠ k') :
    a.equal b = .ok false := by
  rw [equal_eq_same ha hb, Except.ok.injEq, Bool.eq_false_iff]
  intro hsame
  have hk : Except.ok k = Except.ok k' := ha ▸ hb ▸ kind_eq_of_same hsame
  exact hne (Except.ok.inj hk)

/-- Values that are equal are the same, and of one kind. -/
theorem exists_kind_of_equal (h : a.equal b = .ok true) :
    same a b = true ∧ ∃ k, a.kind = .ok k ∧ b.kind = .ok k := by
  unfold equal at h
  split at h
  · exact ⟨rfl, .null, rfl, rfl⟩
  · cases h
  · cases h
  · -- a foreign value has no kind, and no answer
    cases ha : a.kind with
    | error typeName =>
      rw [kindOf, ha] at h
      cases h
    | ok k =>
      cases hb : b.kind with
      | error typeName =>
        rw [kindOf, kindOf, ha, hb] at h
        cases h
      | ok k' =>
        rw [kindOf, kindOf, ha, hb] at h
        have hboth : (k == k' && same a b) = true := Except.ok.inj h
        rw [Bool.and_eq_true, beq_iff_eq] at hboth
        exact ⟨hboth.2, k, rfl, by rw [hboth.1]⟩

theorem equal_trans (hab : a.equal b = .ok true) (hbc : b.equal c = .ok true) :
    a.equal c = .ok true := by
  obtain ⟨hab, k, ha, -⟩ := exists_kind_of_equal hab
  obtain ⟨hbc, k', -, hc⟩ := exists_kind_of_equal hbc
  rw [equal_eq_same ha hc, same_trans hab hbc]

theorem kind_numeral (x : Numeral) :
    (x.base = .hexadecimal ∧ (Value.numeral x).kind = .ok .hex) ∨
      (x.base = .binary ∧ (Value.numeral x).kind = .ok .binary) := by
  obtain ⟨b, ds, hne⟩ := x
  cases b with
  | hexadecimal => exact .inl ⟨rfl, rfl⟩
  | binary => exact .inr ⟨rfl, rfl⟩

theorem equal_numeral (x y : Numeral) :
    (Value.numeral x).equal (.numeral y) = .ok (x.base == y.base && x.toNat == y.toNat) :=
  equal_eq_same rfl rfl

/-- Numerals are equal when they have one base and stand for one number. -/
theorem equal_numeral_iff :
    (Value.numeral x).equal (.numeral y) = .ok true ↔ x.base = y.base ∧ x.toNat = y.toNat := by
  rw [equal_numeral, Except.ok.injEq, Bool.and_eq_true, beq_iff_eq, beq_iff_eq]

end Value

/-! ## Operators on numerals -/

namespace Operator

variable {op : Token} {v w : Value} {x x' y y' : Numeral}

/-- What an operator makes of two numerals of base `b`. -/
def onNumerals (op : Token) (b : Base) (x y : Numeral) : Except Fault Value :=
  match comparison? op.kind with
  | some accepts => .ok (.bool (accepts (compare x.toNat y.toNat)))
  | none =>
    match op.kind with
    | .equalEqual => .ok (.bool (x.toNat == y.toNat))
    | .bangEqual => .ok (.bool !(x.toNat == y.toNat))
    | .plus => .ok (.numeral (.ofNat b (x.toNat + y.toNat)))
    | .minus => .ok (.numeral (.ofNat b ((x.toNat : Int) - y.toNat).natAbs))
    | .bitwiseOr => .ok (.numeral (.bitOr b x y))
    | .bitwiseAnd => .ok (.numeral (.bitAnd b x y))
    | .star | .slash => .error (.causeAt op .notDecimal)
    | .percent => .error (.causeAt op .notIntegers)
    | _ => .error (.causeAt op (.unknownBinary op.text))

theorem plus_numerals (op : Token) (h : x.base = y.base) :
    plus op (.numeral x) (.numeral y)
      = .ok (.numeral (.ofNat x.base (x.toNat + y.toNat))) := by
  have hsum : Radix.add [.numeral x, .numeral y] = .ok (.ofNat x.base (x.toNat + y.toNat)) := by
    rw [Radix.add_numeral h, Radix.sum_eq_ofNat]
    simp
  simp only [plus, Value.kindOf, Value.kind, bind, Except.bind, if_pos h, hsum]
  rfl

theorem classify_numerals (op : Token) (h : x.base = y.base) :
    Operands.classify op (.numeral x) (.numeral y) = .ok (.numerals x.base x y) := by
  simp only [Operands.classify, Operands.ofValues?, Value.kindOf, Value.kind, bind, Except.bind,
    if_pos h]
  rfl

/-- **What an operator makes of two numerals of one base.** -/
theorem binary_numerals (op : Token) (h : x.base = y.base) :
    binary op (.numeral x) (.numeral y) = onNumerals op x.base x y := by
  unfold binary onNumerals
  split
  · next hk =>
    rw [hk, Value.equal_numeral, beq_iff_eq.mpr h, Bool.true_and]
    rfl
  · next hk =>
    rw [hk, Value.equal_numeral, beq_iff_eq.mpr h, Bool.true_and]
    rfl
  · next hk =>
    rw [hk, plus_numerals op h]
    rfl
  · rw [classify_numerals op h]
    show arithmetic op _ _ (.numerals x.base x y) = _
    unfold arithmetic
    cases comparison? op.kind with
    | some accepts =>
      simp only [Operands.order?, Numeral.toDecimal_eq_toNat]
      rfl
    | none =>
      dsimp only
      split
      · next hk =>
        rw [hk, minus, Radix.subtract_of_denotes (.numeral x) (.numeral y) h]
        rfl
      · next hk => rw [hk]; rfl
      · next hk => rw [hk]; rfl
      · next hk => rw [hk]; rfl
      · next hk =>
        rw [hk, bitwise, Radix.bitOr, Radix.operands_numeral _ h]
        rfl
      · next hk =>
        rw [hk, bitwise, Radix.bitAnd, Radix.operands_numeral _ h]
        rfl
      · -- no other kind is an operator
        split <;> first | contradiction | rfl

/-! ## Equal numerals in the place of each other -/

/-- Two results are the same fault, or values that are equal. -/
def SameOutcome : Except Fault Value → Except Fault Value → Prop
  | .ok v, .ok w => v.equal w = .ok true
  | .error f, .error g => f = g
  | _, _ => False

theorem onNumerals_congr (op : Token) (b : Base) (hx : x.toNat = x'.toNat)
    (hy : y.toNat = y'.toNat) : SameOutcome (onNumerals op b x y) (onNumerals op b x' y') := by
  have hbits : ∀ g : Bool → Bool → Bool, g false false = false →
      SameOutcome (.ok (.numeral (.bitwise g b x y))) (.ok (.numeral (.bitwise g b x' y'))) := by
    intro g hg
    refine Value.equal_numeral_iff.mpr ⟨?_, ?_⟩
    · rw [Numeral.base_bitwise, Numeral.base_bitwise]
    · rw [Numeral.toNat_bitwise hg, Numeral.toNat_bitwise hg, hx, hy]
  unfold onNumerals
  rw [hx, hy]
  split
  · exact (Value.equal_self_iff rfl).mpr nofun
  · split
    · exact (Value.equal_self_iff rfl).mpr nofun
    · exact (Value.equal_self_iff rfl).mpr nofun
    · exact Value.equal_numeral_iff.mpr ⟨rfl, rfl⟩
    · exact Value.equal_numeral_iff.mpr ⟨rfl, rfl⟩
    · exact hbits _ rfl
    · exact hbits _ rfl
    all_goals exact rfl

/-- What an operator makes of values of different kinds that are no pair of numbers. -/
def onMismatch (op : Token) : Except Fault Value :=
  match op.kind with
  | .equalEqual => .ok (.bool false)
  | .bangEqual => .ok (.bool true)
  | .plus => .error (.causeAt op .notAddable)
  | _ => .error (.causeAt op .notNumbers)

theorem binary_mismatch {k k' : ValueKind} (op : Token) (hv : v.kind = .ok k)
    (hw : w.kind = .ok k') (hne : k ≠ k') (hpair : Operands.ofValues? v w = none) :
    binary op v w = onMismatch op := by
  have hplus : plus op v w = .error (.causeAt op .notAddable) := by
    unfold plus
    rw [Value.kindOf, Value.kindOf, hv, hw]
    simp only [bind, Except.bind]
    split
    · cases hv; cases hw; exact absurd rfl hne
    · cases hv; cases hw; exact absurd rfl hne
    · cases hv; cases hw; exact absurd rfl hne
    · next x y =>
      have hb : x.base ≠ y.base := by
        intro hb
        rw [Operands.ofValues?, if_pos hb] at hpair
        cases hpair
      rw [if_neg hb]
      rfl
    · rfl
  have hclassify : Operands.classify op v w = .error (.causeAt op .notNumbers) := by
    rw [Operands.classify, Value.kindOf, Value.kindOf, hv, hw, hpair]
    rfl
  unfold binary onMismatch
  rw [Value.equal_of_kind_ne hv hw hne, hplus, hclassify]
  cases op.kind <;> rfl

/-- A value that is no numeral of the same base makes no pair with a numeral. -/
theorem binary_numeral_mismatch {k : ValueKind} (op : Token) (hv : v.kind = .ok k)
    (h : ∀ y, v = .numeral y → y.base ≠ x.base) :
    binary op (.numeral x) v = onMismatch op ∧ binary op v (.numeral x) = onMismatch op := by
  have hkind := Value.kind_numeral x
  cases v with
  | numeral y =>
    have hb : y.base ≠ x.base := h y rfl
    rcases hkind with ⟨hxb, hx⟩ | ⟨hxb, hx⟩ <;>
      rcases Value.kind_numeral y with ⟨hyb, hy⟩ | ⟨hyb, hy⟩
    · exact absurd (hyb.trans hxb.symm) hb
    · exact ⟨binary_mismatch op hx hy nofun (if_neg hb.symm),
        binary_mismatch op hy hx nofun (if_neg hb)⟩
    · exact ⟨binary_mismatch op hx hy nofun (if_neg hb.symm),
        binary_mismatch op hy hx nofun (if_neg hb)⟩
    · exact absurd (hyb.trans hxb.symm) hb
  | foreign typeName => cases hv
  | _ =>
    rcases hkind with ⟨-, hx⟩ | ⟨-, hx⟩ <;>
      exact ⟨binary_mismatch op hx rfl nofun rfl, binary_mismatch op rfl hx nofun rfl⟩

theorem binary_foreign (op : Token) (x : Numeral) (typeName : String) :
    binary op (.numeral x) (.foreign typeName) = .error (.foreign none typeName) ∧
      binary op (.foreign typeName) (.numeral x) = .error (.foreign none typeName) := by
  unfold binary
  cases op.kind <;> exact ⟨rfl, rfl⟩

theorem sameOutcome_onMismatch (op : Token) : SameOutcome (onMismatch op) (onMismatch op) := by
  unfold onMismatch
  split
  · exact (Value.equal_self_iff rfl).mpr nofun
  · exact (Value.equal_self_iff rfl).mpr nofun
  · exact rfl
  · exact rfl

/-- **Equal numerals can replace each other as operands.** -/
theorem binary_numeral_congr (op : Token) (v : Value) (hb : x.base = x'.base)
    (hx : x.toNat = x'.toNat) :
    SameOutcome (binary op (.numeral x) v) (binary op (.numeral x') v) ∧
      SameOutcome (binary op v (.numeral x)) (binary op v (.numeral x')) := by
  by_cases hpair : ∃ y, v = .numeral y ∧ y.base = x.base
  · obtain ⟨y, rfl, hy⟩ := hpair
    rw [binary_numerals op hy.symm, binary_numerals op (hb ▸ hy.symm), binary_numerals op hy,
      binary_numerals op (hy.trans hb), ← hb]
    exact ⟨onNumerals_congr op _ hx rfl, onNumerals_congr op _ rfl hx⟩
  · have happart : ∀ y, v = .numeral y → y.base ≠ x.base := fun y hv hy => hpair ⟨y, hv, hy⟩
    cases hk : v.kind with
    | error typeName =>
      cases v with
      | foreign typeName =>
        obtain ⟨hl, hr⟩ := binary_foreign op x typeName
        obtain ⟨hl', hr'⟩ := binary_foreign op x' typeName
        rw [hl, hl', hr, hr']
        exact ⟨rfl, rfl⟩
      | _ => cases hk
    | ok k =>
      obtain ⟨hl, hr⟩ := binary_numeral_mismatch op hk happart
      obtain ⟨hl', hr'⟩ := binary_numeral_mismatch op hk (hb ▸ happart)
      rw [hl, hl', hr, hr']
      exact ⟨sameOutcome_onMismatch op, sameOutcome_onMismatch op⟩

/-- The conversions send equal numerals to equal values. -/
theorem conversions_congr (hx : x.toNat = x'.toNat) :
    ∀ f ∈ [Native.decimal, .hexadecimal, .binary], ∃ v v',
      f.run [.numeral x] = pure v ∧ f.run [.numeral x'] = pure v' ∧ v.equal v' = .ok true := by
  have htoBase : ∀ b, ∃ v v', (Native.toBase b).run [.numeral x] = pure v ∧
      (Native.toBase b).run [.numeral x'] = pure v' ∧ v.equal v' = .ok true := by
    intro b
    obtain ⟨z, hz, hzb, hznat⟩ := Native.run_toBase_of_convertible (.numeral x) b
    obtain ⟨z', hz', hzb', hznat'⟩ := Native.run_toBase_of_convertible (.numeral x') b
    refine ⟨_, _, hz, hz', Value.equal_numeral_iff.mpr ⟨?_, ?_⟩⟩
    · rw [hzb, hzb']
    · rw [hznat, hznat', hx]
  intro f hf
  simp only [List.mem_cons, List.not_mem_nil, or_false] at hf
  rcases hf with rfl | rfl | rfl
  · refine ⟨_, _, Native.run_decimal_of_convertible (.numeral x),
      Native.run_decimal_of_convertible (.numeral x'), ?_⟩
    rw [hx]
    exact (Value.equal_self_iff rfl).mpr nofun
  · exact htoBase .hexadecimal
  · exact htoBase .binary

/-! ## Order -/

/-- What an operator of the given kind makes of two values, wherever it stands. -/
def Answers (kind : Kind) (v w : Value) (answer : Bool) : Prop :=
  ∀ op : Token, op.kind = kind → binary op v w = .ok (.bool answer)

theorem answers_comparison {kind : Kind} {accepts : Ordering → Bool} (h : x.base = y.base)
    (hk : comparison? kind = some accepts) :
    Answers kind (.numeral x) (.numeral y) (accepts (compare x.toNat y.toNat)) := by
  rintro op rfl
  rw [binary_numerals op h, onNumerals, hk]

theorem answers_equalEqual (h : x.base = y.base) :
    Answers .equalEqual (.numeral x) (.numeral y) (compare x.toNat y.toNat).isEq := by
  have heq : (x.toNat == y.toNat) = (compare x.toNat y.toNat).isEq := by
    rw [Bool.eq_iff_iff, beq_iff_eq, Ordering.isEq_iff_eq_eq, compare_eq_iff_eq]
  intro op hk
  rw [binary_numerals op h, onNumerals, hk, ← heq]
  rfl

theorem answers_less_int (m n : Nat) :
    Answers .less (.int m) (.int n) (compare m n).isLT := by
  have hlt : (compare (m : Int) n).isLT = (compare m n).isLT := by
    rw [Bool.eq_iff_iff, Ordering.isLT_iff_eq_lt, Ordering.isLT_iff_eq_lt, compare_lt_iff_lt,
      compare_lt_iff_lt, Int.ofNat_lt]
  intro op hk
  rw [← hlt]
  unfold binary
  rw [hk]
  show arithmetic op _ _ (.ints m n) = _
  rw [arithmetic, hk]
  rfl

/-- **Equality is a partial equivalence, and all operators respect it.**

* Any two values of the language can be compared, in either order with the same answer, which is no
  when they are of different kinds; `!=` gives the opposite answer. Values that are equal to a third
  are equal, and all values but not-a-number are equal to themselves.
* Equal numerals, in the place of each other on either side of an operator, lead to equal results or
  to the same fault, and conversions send them to equal values.
* Of two numerals of one base, one is less, or they are equal, or one is greater; the other two
  comparisons are the opposites of these, and the order is that of the numbers. -/
theorem equality_respected :
    (∀ (a b : Value) k k', a.kind = .ok k → b.kind = .ok k' →
      ∃ e, a.equal b = .ok e ∧ b.equal a = .ok e ∧ (k ≠ k' → e = false) ∧
        Answers .equalEqual a b e ∧ Answers .bangEqual a b !e) ∧
    (∀ a b c : Value, a.equal b = .ok true → b.equal c = .ok true → a.equal c = .ok true) ∧
    (∀ (a : Value) k, a.kind = .ok k →
      (a.equal a = .ok true ↔ ∀ x, a = .float x → x.isNaN = false)) ∧
    (∀ x x', (Value.numeral x).equal (.numeral x') = .ok true →
      (∀ op v, SameOutcome (binary op (.numeral x) v) (binary op (.numeral x') v) ∧
        SameOutcome (binary op v (.numeral x)) (binary op v (.numeral x'))) ∧
      ∀ f ∈ [Native.decimal, .hexadecimal, .binary], ∃ v v',
        f.run [.numeral x] = pure v ∧ f.run [.numeral x'] = pure v' ∧ v.equal v' = .ok true) ∧
    (∀ x y : Numeral, x.base = y.base → ∃ less equal greater,
      Answers .less (.numeral x) (.numeral y) less ∧
      Answers .equalEqual (.numeral x) (.numeral y) equal ∧
      Answers .greater (.numeral x) (.numeral y) greater ∧
      [less, equal, greater].count true = 1 ∧
      Answers .lessEqual (.numeral x) (.numeral y) !greater ∧
      Answers .greaterEqual (.numeral x) (.numeral y) !less ∧
      ∃ m n, Native.decimal.run [.numeral x] = pure m ∧ Native.decimal.run [.numeral y] = pure n ∧
        Answers .less m n less) := by
  refine ⟨fun a b k k' ha hb => ?_, fun a b c => Value.equal_trans, fun a k => Value.equal_self_iff,
    fun x x' h => ?_, fun x y h => ?_⟩
  · have heq := Value.equal_eq_same ha hb
    refine ⟨a.same b, heq, Value.equal_comm ha hb ▸ heq, fun hne => ?_, fun op hk => ?_,
      fun op hk => ?_⟩
    · exact Except.ok.inj (heq.symm.trans (Value.equal_of_kind_ne ha hb hne))
    · rw [binary, hk, heq]
      rfl
    · rw [binary, hk, heq]
      rfl
  · obtain ⟨hb, hx⟩ := Value.equal_numeral_iff.mp h
    exact ⟨fun op v => binary_numeral_congr op v hb hx, conversions_congr hx⟩
  · set o := compare x.toNat y.toNat with ho
    have hle : (!o.isGT) = o.isLE := by cases o <;> rfl
    have hge : (!o.isLT) = o.isGE := by cases o <;> rfl
    refine ⟨o.isLT, o.isEq, o.isGT, answers_comparison h rfl, answers_equalEqual h,
      answers_comparison h rfl, ?_, ?_, ?_, .int x.toNat, .int y.toNat,
      Native.run_decimal_of_convertible (.numeral x),
      Native.run_decimal_of_convertible (.numeral y), answers_less_int _ _⟩
    · cases o <;> rfl
    · rw [hle]
      exact answers_comparison h rfl
    · rw [hge]
      exact answers_comparison h rfl

/-- The number two as it is written with a zero in front equals the one without it, so both have the
same sum and the same order with three. -/
theorem equality_respected_paddedTwo :
    (Value.numeral (.ofBits [false, true, false] (List.cons_ne_nil _ _))).equal
      (.numeral (.ofNat .binary 2)) = .ok true ∧
    (∀ op, SameOutcome
      (binary op (.numeral (.ofBits [false, true, false] (List.cons_ne_nil _ _)))
        (.numeral (.ofNat .binary 3)))
      (binary op (.numeral (.ofNat .binary 2)) (.numeral (.ofNat .binary 3)))) ∧
    ∃ less, Answers .less (.numeral (.ofNat .binary 2)) (.numeral (.ofNat .binary 3)) less := by
  obtain ⟨-, -, -, hcongr, horder⟩ := equality_respected
  have hequal : (Value.numeral (.ofBits [false, true, false] (List.cons_ne_nil _ _))).equal
      (.numeral (.ofNat .binary 2)) = .ok true :=
    Value.equal_numeral_iff.mpr ⟨rfl, by decide +kernel⟩
  obtain ⟨less, -, -, hless, -⟩ := horder (.ofNat .binary 2) (.ofNat .binary 3) rfl
  exact ⟨hequal, fun op => ((hcongr _ _ hequal).1 op _).1, less, hless⟩

end Operator

end RadixScript
