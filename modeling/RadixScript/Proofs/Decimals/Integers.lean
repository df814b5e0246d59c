import RadixScript.Decimal.Integer

/-!
# Texts of integers

The text of an integer is its decimal digits, behind a sign if it is negative (`toList_toString`).
Integers with different texts are different, and a text within the digit limit is read back as its
integer (`readInteger?_toString`).
-/

namespace RadixScript.Decimal

open Text

variable {c : Char} {cs : List Char} {n : Nat} {k : Int}

theorem toNat_of_isDigit (h : c.isDigit = true) : 0x30 ≤ c.toNat ∧ c.toNat < 0x30 + 10 := by
  simp only [Char.isDigit, Bool.and_eq_true, decide_eq_true_eq] at h
  have hlo : 0x30 ≤ c.toNat := h.1
  have hhi : c.toNat ≤ 0x39 := h.2
  omega

/-- The digits `0` to `9` are the first set of the table. -/
theorem digitValue?_of_isDigit (h : c.isDigit = true) :
    digitValue? c = some (c.toNat - 0x30) := by
  have htable : digitZeros = 0x30 :: digitZeros.tail := rfl
  rw [digitValue?, htable, List.find?_cons_of_pos (by simp [toNat_of_isDigit h])]
  rfl

theorem isBlank_of_isDigit (h : c.isDigit = true) : isBlank c = false := by
  have hrange := toNat_of_isDigit h
  simp [isBlank, blankRanges]
  omega

theorem readDigits?_of_isDigit (hne : cs ≠ []) (h : ∀ c ∈ cs, c.isDigit = true) :
    readDigits? cs = some (cs.map fun c => c.toNat - 0x30) := by
  fun_induction readDigits? cs with
  | case1 => exact absurd rfl hne
  | case2 c =>
    rw [digitValue?_of_isDigit (h c List.mem_cons_self)]
    rfl
  | case3 c rest ih =>
    have hmark := h '_' (List.mem_cons_of_mem c List.mem_cons_self)
    exact absurd hmark (by decide)
  | case4 c rest hrest hmark ih =>
    rw [digitValue?_of_isDigit (h c List.mem_cons_self),
      ih hrest fun d hd => h d (List.mem_cons_of_mem c hd)]
    rfl

theorem isDigit_of_mem_toDigits (hc : c ∈ Nat.toDigits 10 n) : c.isDigit = true :=
  Nat.isDigit_of_mem_toDigits (by decide) (by decide) hc

theorem readNatural?_toDigits (h : (Nat.toDigits 10 n).length ≤ digitLimit) :
    readNatural? (Nat.toDigits 10 n) = some n := by
  have hvalue : ofDigits ((Nat.toDigits 10 n).map fun c => c.toNat - 0x30) = n := by
    rw [ofDigits, List.foldl_map]
    exact Nat.ofDigitChars_ten_toDigits
  rw [readNatural?, readDigits?_of_isDigit Nat.toDigits_ne_nil fun c => isDigit_of_mem_toDigits]
  simp only [Option.bind_eq_bind, Option.bind_some, List.length_map, if_pos h, hvalue]
  rfl

theorem integerText?_eq_some (h : (Nat.toDigits 10 k.natAbs).length ≤ digitLimit) :
    integerText? k = some (toString k) := by
  -- for any limit, so that no power of ten is computed
  have hfits : ∀ limit, 0 < limit → (Nat.toDigits 10 k.natAbs).length ≤ limit →
      k.natAbs < Nat.pow 10 limit :=
    fun limit hpos hle => (Nat.length_toDigits_le_iff (by decide) hpos).mp hle
  rw [integerText?, if_pos (hfits digitLimit (by decide) h)]

/-- The text of an integer is its digits, behind a sign if it is negative. -/
theorem toList_toString (k : Int) :
    (toString k).toList = if 0 ≤ k then Nat.toDigits 10 k.natAbs
      else '-' :: Nat.toDigits 10 k.natAbs := by
  rw [Int.toString_eq_repr, Int.repr_eq_if]
  by_cases hk : 0 ≤ k
  · have habs : k.toNat = k.natAbs := by omega
    rw [if_pos hk, if_pos hk, Nat.toList_repr, habs]
  · have habs : (-k).toNat = k.natAbs := by omega
    rw [if_neg hk, if_neg hk, String.toList_append, Nat.toList_repr, habs]
    rfl

/-- Different integers have different texts. -/
theorem toString_injective : Function.Injective fun k : Int => toString k := by
  have hminus : ∀ {n m : Nat}, Nat.toDigits 10 n ≠ '-' :: Nat.toDigits 10 m := by
    intro n m h
    exact absurd (isDigit_of_mem_toDigits (h ▸ List.mem_cons_self)) (by decide)
  have hnat : ∀ {n m : Nat}, Nat.toDigits 10 n = Nat.toDigits 10 m → n = m := by
    intro n m h
    rw [← Nat.ofDigitChars_ten_toDigits (n := n), h, Nat.ofDigitChars_ten_toDigits]
  intro k l h
  have htexts := congrArg String.toList h
  rw [toList_toString, toList_toString] at htexts
  split at htexts <;> split at htexts
  · have := hnat htexts
    omega
  · exact absurd htexts hminus
  · exact absurd htexts.symm hminus
  · have := hnat (List.cons.inj htexts).2
    omega

theorem eq_or_isDigit_of_mem_toString (hc : c ∈ (toString k).toList) :
    c = '-' ∨ c.isDigit = true := by
  rw [toList_toString] at hc
  split at hc
  · exact .inr (isDigit_of_mem_toDigits hc)
  · exact (List.mem_cons.mp hc).imp_right isDigit_of_mem_toDigits

/-- **The text of an integer is read back as the integer.** -/
theorem readInteger?_toString (h : (Nat.toDigits 10 k.natAbs).length ≤ digitLimit) :
    readInteger? (toString k).toList = some k := by
  rw [toList_toString]
  by_cases hk : 0 ≤ k
  · rw [if_pos hk]
    have hread : readInteger? (Nat.toDigits 10 k.natAbs)
        = (readNatural? (Nat.toDigits 10 k.natAbs)).map Int.ofNat := by
      have hsign : ∀ c ∈ Nat.toDigits 10 k.natAbs, c ≠ '-' ∧ c ≠ '+' := by
        intro c hc
        have hdigit := isDigit_of_mem_toDigits hc
        constructor <;> rintro rfl <;> revert hdigit <;> decide
      unfold readInteger?
      split
      · next s hs => exact absurd rfl (hsign '-' (hs ▸ List.mem_cons_self)).1
      · next s hs => exact absurd rfl (hsign '+' (hs ▸ List.mem_cons_self)).2
      · rfl
    rw [hread, readNatural?_toDigits h, Option.map_some]
    exact congrArg some (Int.natAbs_of_nonneg hk)
  · rw [if_neg hk, readInteger?, readNatural?_toDigits h]
    have hneg : -(k.natAbs : Int) = k := by omega
    exact congrArg some hneg

end RadixScript.Decimal
