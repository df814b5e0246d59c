import Mathlib.Data.Nat.Bitwise
import RadixScript.Proofs.Numerals.Operands

/-!
# Bitwise operations on numerals

Bits are combined place by place after the shorter pattern has been filled up with zeros. The result
stands for the bitwise combination of the two numbers (`Radix.bitAnd_bitOr_exact`).

A hexadecimal operand loses its leading zeros on the way to its bits, and a binary one keeps them.
This makes no difference to the number: a pattern stands for the same number at any width, and two
patterns of one width are combined by one induction from the front, with the numbers in front of
them combined already (`Numeral.foldl_zipWith`).
-/

namespace RadixScript

/-! ## Bit patterns -/

namespace Numeral

variable {op : Bool → Bool → Bool} {b : Base} {x y : Numeral} {bs cs : List Bool}

/-- The number that a bit pattern stands for, most significant bit first. -/
def patternValue (bs : List Bool) : Nat := bs.foldl (fun n bit => Nat.bit bit n) 0

theorem patternValue_widen (width : Nat) (bs : List Bool) :
    patternValue (widen width bs) = patternValue bs := by
  have hzeros : ∀ k, (List.replicate k false).foldl (fun n bit => Nat.bit bit n) 0 = 0 := by
    intro k
    induction k with
    | zero => rfl
    | succ k ih => rwa [List.replicate_succ, List.foldl_cons, Nat.bit_false_zero]
  rw [patternValue, widen, List.foldl_append, hzeros]
  rfl

/-- Combining two patterns bit by bit, behind numbers that are combined already. -/
theorem foldl_zipWith (hop : op false false = false) (hlen : bs.length = cs.length) (m n : Nat) :
    (List.zipWith op bs cs).foldl (fun n bit => Nat.bit bit n) (Nat.bitwise op m n)
      = Nat.bitwise op (bs.foldl (fun n bit => Nat.bit bit n) m)
          (cs.foldl (fun n bit => Nat.bit bit n) n) := by
  induction bs generalizing cs m n with
  | nil =>
    obtain rfl : cs = [] := List.eq_nil_of_length_eq_zero hlen.symm
    rfl
  | cons p bs ih =>
    match cs, hlen with
    | q :: cs, hlen =>
      rw [List.zipWith_cons_cons, List.foldl_cons, ← Nat.bitwise_bit hop, ih (Nat.succ.inj hlen)]
      rfl

/-- **Combining patterns of one width bit by bit combines their numbers.** -/
theorem patternValue_zipWith (hop : op false false = false) (hlen : bs.length = cs.length) :
    patternValue (List.zipWith op bs cs) = Nat.bitwise op (patternValue bs) (patternValue cs) := by
  have h := foldl_zipWith hop hlen 0 0
  rwa [Nat.bitwise_zero] at h

/-! ## Patterns and numerals -/

theorem toNat_ofBits (h : bs ≠ []) : (ofBits bs h).toNat = patternValue bs := by
  have hstep : (fun (n : Nat) bit => n * 2 + (bitDigit bit).val) = fun n bit => Nat.bit bit n := by
    funext n bit
    cases bit <;> simp [bitDigit, Nat.bit_val, Nat.mul_comm]
  rw [toNat, ofDigitList, ofBits, List.foldl_map]
  exact congrArg (fun f => bs.foldl f 0) hstep

theorem patternValue_digits (h : x.base = .binary) :
    patternValue (x.digits.map fun d => d.val = 1) = x.toNat := by
  obtain ⟨base, ds, hne⟩ := x
  obtain rfl : base = .binary := h
  have hstep : (fun (n : Nat) (d : Fin 2) => Nat.bit (d.val = 1) n) = fun n d => n * 2 + d.val := by
    funext n d
    match d with
    | 0 => simp [Nat.bit_val, Nat.mul_comm]
    | 1 => simp [Nat.bit_val, Nat.mul_comm]
  rw [patternValue, List.foldl_map]
  exact congrArg (fun f => ds.foldl f 0) hstep

/-- The bits of a numeral stand for its number, with or without leading zeros. -/
theorem patternValue_bits (x : Numeral) : patternValue x.bits = x.toNat := by
  rw [bits, patternValue_digits (base_convert .binary x), toNat_convert]

theorem length_bits_of_binary (h : x.base = .binary) : x.bits.length = x.digits.length := by
  rw [bits, List.length_map, convert, if_pos h]

theorem patternValue_combineBits (hop : op false false = false) (x y : Numeral) :
    patternValue (combineBits op x y) = Nat.bitwise op x.toNat y.toNat := by
  rw [combineBits, patternValue_zipWith hop (by simp only [length_widen]; omega),
    patternValue_widen, patternValue_widen, patternValue_bits, patternValue_bits]

/-- **Combining two numerals bit by bit combines their numbers.** -/
theorem toNat_bitwise (hop : op false false = false) (b : Base) (x y : Numeral) :
    (bitwise op b x y).toNat = Nat.bitwise op x.toNat y.toNat := by
  rw [bitwise, toNat_convert, toNat_ofBits, patternValue_combineBits hop]

theorem base_bitwise (op : Bool → Bool → Bool) (b : Base) (x y : Numeral) :
    (bitwise op b x y).base = b :=
  base_convert b _

/-- A hexadecimal result is encoded anew. -/
theorem isCanonical_bitwise (op : Bool → Bool → Bool) (hb : b = .hexadecimal) (x y : Numeral) :
    (bitwise op b x y).IsCanonical := by
  have hbase : (ofBits (combineBits op x y) (combineBits_ne_nil op x y)).base ≠ b := by
    rw [hb]
    nofun
  rw [bitwise, convert_of_ne hbase]
  exact isCanonical_ofNat _ _

/-- A binary result keeps the width of its patterns. -/
theorem length_bitwise (op : Bool → Bool → Bool) (hb : b = .binary) (hx : x.base = b)
    (hy : y.base = b) :
    (bitwise op b x y).digits.length = max x.digits.length y.digits.length := by
  subst hb
  have hbase : (ofBits (combineBits op x y) (combineBits_ne_nil op x y)).base = .binary := rfl
  rw [bitwise, convert, if_pos hbase, ofBits, List.length_map, length_combineBits,
    length_bits_of_binary hx, length_bits_of_binary hy]

end Numeral

/-! ## Bitwise operations on operands -/

namespace Radix

variable {op : Bool → Bool → Bool}

/-- The operation on operands is the given operation on their numbers, and fails with unfit operands
only. A hexadecimal result is canonical, a binary one is as wide as the wider operand. -/
structure ExactBitwise (f : Value → Value → Except RadixProblem Numeral) (g : Nat → Nat → Nat) :
    Prop where
  result : ∀ {v w x y}, Denotes v x → Denotes w y → x.base = y.base →
    ∃ z, f v w = .ok z ∧ z.base = x.base ∧ z.toNat = g x.toNat y.toNat ∧
      (x.base = .hexadecimal → z.IsCanonical) ∧
      (x.base = .binary → z.digits.length = max x.digits.length y.digits.length)
  fails_iff : ∀ v w, (∃ p, f v w = .error p) ↔ Unfit [v, w]

theorem exactBitwise_onPair (operation : RadixOperation) (hop : op false false = false) :
    ExactBitwise (onPair operation (Numeral.bitwise op)) (Nat.bitwise op) where
  result := by
    intro v w x y hx hy hb
    refine ⟨_, onPair_of_denotes hx hy hb, Numeral.base_bitwise op x.base x y,
      Numeral.toNat_bitwise hop x.base x y, fun hhex => ?_, fun hbin => ?_⟩
    · exact Numeral.isCanonical_bitwise op hhex x y
    · exact Numeral.length_bitwise op hbin rfl hb.symm
  fails_iff _ _ := onPair_fails_iff

/-- **The bitwise operations on operands are those on numbers.** -/
theorem bitAnd_bitOr_exact :
    ExactBitwise bitAnd (fun m n => m &&& n) ∧ ExactBitwise bitOr (fun m n => m ||| n) :=
  ⟨exactBitwise_onPair .bitAnd rfl, exactBitwise_onPair .bitOr rfl⟩

/-- The number six with a zero in front of its digits. -/
def paddedSix : Numeral := .ofBits [false, true, true, false] (List.cons_ne_nil _ _)

theorem denotes_paddedSix : Denotes (.text "0b0110") paddedSix :=
  @Denotes.text _ _ ['0', '1', '1', '0'] (by decide +kernel) (by decide +kernel)

theorem bitAnd_bitOr_exact_paddedSix :
    (∃ z, bitAnd (.text "0b0110") (.numeral (.ofNat .binary 3)) = .ok z ∧ z.toNat = 2 ∧
      z.digits.length = 4) ∧
    ∃ z, bitOr (.text "0b0110") (.numeral (.ofNat .binary 3)) = .ok z ∧ z.toNat = 7 ∧
      z.digits.length = 4 := by
  have hthree : Denotes (.numeral (.ofNat .binary 3)) (.ofNat .binary 3) := .numeral _
  have hwidth : max paddedSix.digits.length (Numeral.ofNat .binary 3).digits.length = 4 := by
    decide +kernel
  obtain ⟨z, hz, -, hnat, -, hlen⟩ := bitAnd_bitOr_exact.1.result denotes_paddedSix hthree rfl
  obtain ⟨z', hz', -, hnat', -, hlen'⟩ := bitAnd_bitOr_exact.2.result denotes_paddedSix hthree rfl
  rw [Numeral.toNat_ofNat] at hnat hnat'
  exact ⟨⟨z, hz, hnat, (hlen rfl).trans hwidth⟩, ⟨z', hz', hnat', (hlen' rfl).trans hwidth⟩⟩

end Radix

end RadixScript
