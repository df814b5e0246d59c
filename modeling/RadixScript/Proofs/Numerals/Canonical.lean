import Mathlib.Data.List.Induction
import Mathlib.Data.Nat.Digits.Defs
import RadixScript.Proofs.Numerals.Spelling
import RadixScript.Value.Radix

/-!
# Numerals and numbers

Of all numerals of a base that stand for one number, exactly one has no superfluous leading zero.
The others are that one with zeros in front of it. Encoding a number gives this canonical numeral,
and decoding it gives the number back (`Radix.decimal_roundTrip`).

That encoding undoes decoding is shown along the digits from the front: leading zeros are dropped
one by one (`stripZeros`), and once the first digit is not zero, every further digit is one more
division of the encoder.
-/

namespace RadixScript

variable {r : Nat} {d : Fin r} {ds : List (Fin r)}

/-! ## Leading zeros -/

/-- Drops the zeros in front, but never the last digit. -/
def stripZeros : List (Fin r) → List (Fin r)
  | [] => []
  | [d] => [d]
  | d :: e :: ds => if d.val = 0 then stripZeros (e :: ds) else d :: e :: ds

/-- A leading zero is the only digit. -/
def NoLeadingZero (ds : List (Fin r)) : Prop := ∀ d ∈ ds.head?, d.val = 0 → ds.length = 1

theorem noLeadingZero_stripZeros (ds : List (Fin r)) : NoLeadingZero (stripZeros ds) := by
  fun_induction stripZeros ds with
  | case1 => nofun
  | case2 d => exact fun _ _ _ => rfl
  | case3 d e ds hd ih => exact ih
  | case4 d e ds hd =>
    rintro _ ⟨⟩ hzero
    exact absurd hzero hd

theorem stripZeros_eq_self (h : NoLeadingZero ds) : stripZeros ds = ds := by
  match ds, h with
  | [], _ => rfl
  | [d], _ => rfl
  | d :: e :: ds, h =>
    have hd : d.val ≠ 0 := fun hzero => by simpa using h d rfl hzero
    rw [stripZeros, if_neg hd]

theorem stripZeros_ne_nil (h : ds ≠ []) : stripZeros ds ≠ [] := by
  fun_induction stripZeros ds with
  | case1 => exact h
  | case2 d => exact h
  | case3 d e ds hd ih => exact ih (List.cons_ne_nil e ds)
  | case4 d e ds hd => exact h

/-- What is dropped are zeros. -/
theorem exists_zeros_append (ds : List (Fin r)) :
    ∃ zeros, ds = zeros ++ stripZeros ds ∧ ∀ d ∈ zeros, d.val = 0 := by
  fun_induction stripZeros ds with
  | case1 => exact ⟨[], rfl, nofun⟩
  | case2 d => exact ⟨[], rfl, nofun⟩
  | case3 d e ds hd ih =>
    obtain ⟨zeros, heq, hzeros⟩ := ih
    exact ⟨d :: zeros, congrArg (d :: ·) heq, List.forall_mem_cons.mpr ⟨hd, hzeros⟩⟩
  | case4 d e ds hd => exact ⟨[], rfl, nofun⟩

/-! ## Positional notation -/

theorem ofDigitList_cons (d : Fin r) (ds : List (Fin r)) :
    ofDigitList (d :: ds) = d.val * r ^ ds.length + ofDigitList ds := by
  rw [← placeSum_eq_ofDigitList, placeSum_cons, placeSum_eq_ofDigitList]
  exact Nat.add_comm _ _

theorem ofDigitList_cons_of_zero (h : d.val = 0) : ofDigitList (d :: ds) = ofDigitList ds := by
  rw [ofDigitList_cons, h, Nat.zero_mul, Nat.zero_add]

theorem ofDigitList_zeros_append {zeros : List (Fin r)} (h : ∀ d ∈ zeros, d.val = 0)
    (ds : List (Fin r)) : ofDigitList (zeros ++ ds) = ofDigitList ds := by
  induction zeros with
  | nil => rfl
  | cons d zeros ih =>
    rw [List.forall_mem_cons] at h
    rw [List.cons_append, ofDigitList_cons_of_zero h.1, ih h.2]

theorem ofDigitList_pos (h : d.val ≠ 0) : 0 < ofDigitList (d :: ds) := by
  rw [ofDigitList_cons]
  have hpow : 0 < r ^ ds.length := Nat.pow_pos (Nat.lt_of_le_of_lt (Nat.zero_le _) d.isLt)
  have hfirst : 0 < d.val * r ^ ds.length := Nat.mul_pos (Nat.pos_of_ne_zero h) hpow
  omega

/-- The number is the value of the digits in the sense of positional notation. -/
theorem ofDigitList_eq_ofDigits (ds : List (Fin r)) :
    ofDigitList ds = Nat.ofDigits r (ds.reverse.map Fin.val) := by
  induction ds with
  | nil => rfl
  | cons d ds ih =>
    rw [ofDigitList_cons, ih, List.reverse_cons, List.map_append, Nat.ofDigits_append,
      List.length_map, List.length_reverse, List.map_singleton, Nat.ofDigits_singleton]
    rw [Nat.add_comm, Nat.mul_comm]

/-- Behind a first digit that is not zero, every further digit is one division of the encoder. -/
theorem digitsOnto_of_head_ne_zero (hr : 1 < r) (hd : d.val ≠ 0) (ds : List (Fin r)) :
    digitsOnto r hr (ofDigitList (d :: ds)) [] = d :: ds := by
  induction ds using List.reverseRecOn with
  | nil =>
    have hone : ofDigitList [d] = d.val := by simp [ofDigitList]
    rw [hone, digitsOnto_of_lt hr d.isLt]
  | append_singleton ds e ih =>
    have hpos : 0 < ofDigitList (d :: ds) := ofDigitList_pos hd
    have hr0 : 0 < r := Nat.lt_of_succ_lt hr
    have hle : r ≤ ofDigitList (d :: ds) * r + e.val :=
      Nat.le_add_right_of_le (Nat.le_mul_of_pos_left r hpos)
    have hdiv : (ofDigitList (d :: ds) * r + e.val) / r = ofDigitList (d :: ds) := by
      rw [Nat.add_comm, Nat.add_mul_div_right _ _ hr0, Nat.div_eq_of_lt e.isLt, Nat.zero_add]
    have hmod : (ofDigitList (d :: ds) * r + e.val) % r = e.val := by
      rw [Nat.add_comm, Nat.add_mul_mod_self_right, Nat.mod_eq_of_lt e.isLt]
    rw [← List.cons_append, ofDigitList_append_singleton, digitsOnto_of_le hr hle,
      digitsOnto_eq_append]
    simp only [hdiv, hmod, ih]

/-- **Encoding what digits stand for drops their leading zeros.** -/
theorem digitsOnto_ofDigitList (hr : 1 < r) (h : ds ≠ []) :
    digitsOnto r hr (ofDigitList ds) [] = stripZeros ds := by
  fun_induction stripZeros ds with
  | case1 => exact absurd rfl h
  | case2 d =>
    have hone : ofDigitList [d] = d.val := by simp [ofDigitList]
    rw [hone, digitsOnto_of_lt hr d.isLt]
  | case3 d e ds hd ih =>
    rw [ofDigitList_cons_of_zero hd]
    exact ih (List.cons_ne_nil e ds)
  | case4 d e ds hd => exact digitsOnto_of_head_ne_zero hr hd (e :: ds)

/-! ## Canonical numerals -/

namespace Numeral

variable {b : Base} {n : Nat} {x y : Numeral}

/-- The numeral has no superfluous leading zero: a leading zero is its only digit. -/
def IsCanonical (x : Numeral) : Prop := NoLeadingZero x.digits

/-- The numeral without superfluous leading zeros. -/
def canonical (x : Numeral) : Numeral where
  base := x.base
  digits := stripZeros x.digits
  digits_ne_nil := stripZeros_ne_nil x.digits_ne_nil

theorem isCanonical_canonical (x : Numeral) : x.canonical.IsCanonical :=
  noLeadingZero_stripZeros x.digits

theorem canonical_eq_self (h : x.IsCanonical) : x.canonical = x := by
  obtain ⟨b, ds, hne⟩ := x
  simp only [canonical, stripZeros_eq_self h]

/-- **Encoding what a numeral stands for gives its canonical form.** -/
theorem ofNat_toNat (x : Numeral) : ofNat x.base x.toNat = x.canonical := by
  obtain ⟨b, ds, hne⟩ := x
  simp only [ofNat, canonical, toNat, digitsOnto_ofDigitList b.one_lt_radix hne]

theorem toNat_canonical (x : Numeral) : x.canonical.toNat = x.toNat := by
  rw [← ofNat_toNat, toNat_ofNat]

theorem isCanonical_ofNat (b : Base) (n : Nat) : (ofNat b n).IsCanonical := by
  have h := ofNat_toNat (ofNat b n)
  rw [base_ofNat, toNat_ofNat] at h
  rw [h]
  exact isCanonical_canonical _

/-- **Only one numeral of a base is canonical and stands for a number.** -/
theorem eq_ofNat_iff : y = ofNat b n ↔ y.base = b ∧ y.IsCanonical ∧ y.toNat = n := by
  constructor
  · rintro rfl
    exact ⟨rfl, isCanonical_ofNat b n, toNat_ofNat b n⟩
  · rintro ⟨rfl, hy, rfl⟩
    rw [ofNat_toNat, canonical_eq_self hy]

/-- The text of the digits is that of the canonical numeral with zeros in front of it. -/
theorem exists_digitText_eq (x : Numeral) :
    ∃ k, x.digitText.toList = List.replicate k '0' ++ x.canonical.digitText.toList := by
  obtain ⟨zeros, heq, hzeros⟩ := exists_zeros_append x.digits
  refine ⟨zeros.length, ?_⟩
  have hmap : (zeros.map fun d => digitChar d.val) = List.replicate zeros.length '0' := by
    refine List.eq_replicate_iff.mpr ⟨List.length_map _, ?_⟩
    intro c hc
    obtain ⟨d, hd, rfl⟩ := List.mem_map.mp hc
    rw [hzeros d hd]
    rfl
  rw [toList_digitText, toList_digitText, canonical, ← hmap, ← List.map_append, ← heq]

/-- The value of the digits in the sense of positional notation: a digit counts as much as its index
in the alphabet says, times the power of the base for its place. -/
def positionalValue (x : Numeral) : Nat :=
  Nat.ofDigits x.base.radix (x.digitText.toList.reverse.map x.base.alphabet.idxOf)

theorem toNat_eq_positionalValue (x : Numeral) : x.toNat = x.positionalValue := by
  have hvalues : (x.digits.reverse.map fun d => x.base.alphabet.idxOf (digitChar d.val)) =
      x.digits.reverse.map Fin.val :=
    List.map_congr_left fun d _ => Base.idxOf_digitChar d
  rw [positionalValue, toList_digitText, ← List.map_reverse, List.map_map]
  exact (ofDigitList_eq_ofDigits x.digits).trans (congrArg _ hvalues.symm)

theorem digitText_ne_empty (x : Numeral) : x.digitText ≠ "" := by
  intro h
  have hnil := congrArg String.toList h
  rw [toList_digitText] at hnil
  exact x.digits_ne_nil (List.map_eq_nil_iff.mp hnil)

theorem mem_alphabet_of_mem_digitText (x : Numeral) :
    ∀ c ∈ x.digitText.toList, c ∈ x.base.alphabet := by
  intro c hc
  rw [toList_digitText] at hc
  obtain ⟨d, _, rfl⟩ := List.mem_map.mp hc
  exact Base.digitChar_mem_alphabet d

end Numeral

/-! ## Conversions -/

namespace Radix

theorem toDecimal_numeral (x : Numeral) : toDecimal (.numeral x) = .ok x.toNat :=
  congrArg Except.ok x.toDecimal_eq_toNat

theorem ofInt?_radix (b : Base) : Base.ofInt? b.radix = some b := by
  cases b <;> rfl

theorem fromDecimal_radix (n : Nat) (b : Base) :
    fromDecimal n b.radix = .ok (.ofNat b n) := by
  have hn : ¬ (n : Int) < 0 := by omega
  simp [fromDecimal, ofInt?_radix, hn]

theorem convert_numeral (x : Numeral) (b : Base) :
    convert (.numeral x) b.radix = .ok (x.convert b) := by
  have hradix : (x.base.radix : Int) = b.radix ↔ x.base = b := by
    cases x.base <;> cases b <;> decide
  show (if (x.base.radix : Int) = b.radix then .ok x else fromDecimal x.toDecimal b.radix) = _
  rw [fromDecimal_radix, Numeral.convert]
  by_cases h : x.base = b
  · rw [if_pos (hradix.mpr h), if_pos h]
  · rw [if_neg (mt hradix.mp h), if_neg h]

/-- **Numerals and numbers.**

* A text is accepted as the digits of a numeral when its upper case consists of digits of the base,
  at least one; these are the digits of the numeral. All numerals come about in this way.
* Reading the digits from the front and counting them by their places both give the value that
  positional notation gives them.
* Encoding a natural number gives the one numeral of the base that stands for it and has no
  superfluous leading zero.
* Encoding what a numeral stands for drops its superfluous leading zeros, and so does converting it
  to the other base and back. The number stays the same. -/
theorem decimal_roundTrip :
    (∀ b s x, Numeral.ofText b s = .ok x ↔
      x.base = b ∧ Text.upper s.toList = x.digitText.toList) ∧
    (∀ x : Numeral, Numeral.ofText x.base x.digitText = .ok x ∧
      x.digitText ≠ "" ∧ (∀ c ∈ x.digitText.toList, c ∈ x.base.alphabet) ∧
      toDecimal (.numeral x) = .ok x.positionalValue ∧ x.toNat = x.positionalValue) ∧
    (∀ (n : Nat) (b : Base), ∃ x, fromDecimal n b.radix = .ok x ∧
      ∀ y, y = x ↔ y.base = b ∧ y.IsCanonical ∧ toDecimal (.numeral y) = .ok n) ∧
    (∀ x : Numeral, x.canonical.IsCanonical ∧ x.canonical.base = x.base ∧
      (∃ k, x.digitText.toList = List.replicate k '0' ++ x.canonical.digitText.toList) ∧
      (∃ n : Nat, toDecimal (.numeral x) = .ok n ∧ fromDecimal n x.base.radix = .ok x.canonical) ∧
      ∀ b ≠ x.base, ∃ y, convert (.numeral x) b.radix = .ok y ∧ y.base = b ∧
        convert (.numeral y) x.base.radix = .ok x.canonical ∧
        y.toNat = x.toNat ∧ x.canonical.toNat = x.toNat) := by
  refine ⟨fun b s x => Numeral.ofText_eq_ok_iff, fun x => ?_, fun n b => ?_, fun x => ?_⟩
  · refine ⟨x.ofText_digitText, x.digitText_ne_empty, x.mem_alphabet_of_mem_digitText, ?_,
      x.toNat_eq_positionalValue⟩
    rw [toDecimal_numeral, x.toNat_eq_positionalValue]
  · refine ⟨.ofNat b n, fromDecimal_radix n b, fun y => ?_⟩
    rw [Numeral.eq_ofNat_iff, toDecimal_numeral, Except.ok.injEq]
  · refine ⟨x.isCanonical_canonical, rfl, x.exists_digitText_eq,
      ⟨x.toNat, toDecimal_numeral x, ?_⟩, fun b hb => ?_⟩
    · rw [fromDecimal_radix, Numeral.ofNat_toNat]
    · refine ⟨x.convert b, convert_numeral x b, Numeral.base_convert b x, ?_, x.toNat_convert b,
        x.toNat_canonical⟩
      have hback : (x.convert b).base ≠ x.base := by rwa [Numeral.base_convert]
      rw [convert_numeral, Numeral.convert_of_ne hback, Numeral.toNat_convert, Numeral.ofNat_toNat]

end Radix

end RadixScript
