import Mathlib.Algebra.Order.Field.Power
import Mathlib.Data.Rat.Cast.Order
import Mathlib.Tactic.NormNum
import Mathlib.Tactic.Ring
import RadixScript.Decimal.Layout
import RadixScript.Proofs.Decimals.Integers
import RadixScript.Proofs.Decimals.Shortest
import RadixScript.Proofs.Pieces.Separation

/-!
# Written decimals

A written decimal has a sign, digits, perhaps more digits behind a point and perhaps an exponent
(`Written`). Nothing is lost in its text (`Written.text_injective`): each part ends where the next
one starts, since no digit is a point or an exponent mark.

The display layout writes the digits of a decimal in one of two forms, and both stand for the
decimal itself. `exists_isPlain` is about the positional form and `exists_isScientific` about the
form with an exponent.
-/

namespace RadixScript.Decimal

/-- A decimal as it is written. No digits behind the point means that there is no point. -/
structure Written where
  negative : Bool
  whole : List Char
  fraction : List Char
  exponent : Option Int
  whole_ne_nil : whole ≠ []
  isDigit_of_mem : ∀ c ∈ whole ++ fraction, c.isDigit = true

namespace Written

/-- The digits behind the point, with the point. -/
def pointed : List Char → List Char
  | [] => []
  | c :: cs => '.' :: c :: cs

/-- The exponent with its mark. -/
def marked : Option Int → List Char
  | none => []
  | some n => 'E' :: (toString n).toList

def unsigned (w : Written) : List Char := w.whole ++ (pointed w.fraction ++ marked w.exponent)

def text (w : Written) : List Char := (if w.negative then ['-'] else []) ++ w.unsigned

/-- The number that is written, without its sign. -/
def number (w : Written) : ℚ :=
  Nat.ofDigitChars 10 (w.whole ++ w.fraction) 0 * 10 ^ (w.exponent.getD 0 - w.fraction.length)

/-- The text `t` shows the decimal `s`, with a sign if `negative`. -/
structure Shows (w : Written) (negative : Bool) (s : Scientific) (t : List Char) : Prop where
  negative_eq : w.negative = negative
  unsigned_eq : w.unsigned = t
  number_eq : w.number = s.value

/-- Without an exponent, and without a zero at the end of the fraction. -/
structure IsPlain (w : Written) : Prop where
  exponent_eq : w.exponent = none
  fraction_end : w.fraction.getLast? ≠ some '0'

/-- With the exponent `n`, one digit in front of the point that is not zero, and without a zero at
the end of the fraction unless the fraction is this zero. -/
structure IsScientific (w : Written) (n : Int) : Prop where
  exponent_eq : w.exponent = some n
  whole_eq : ∃ d, w.whole = [d] ∧ d ≠ '0'
  fraction_ne_nil : w.fraction ≠ []
  fraction_end : w.fraction = ['0'] ∨ w.fraction.getLast? ≠ some '0'

theorem number_eq_value {w : Written} {s : Scientific} {j : Nat}
    (hdigits : Nat.ofDigitChars 10 (w.whole ++ w.fraction) 0 = 10 ^ j * s.coefficient)
    (hexponent : w.exponent.getD 0 - w.fraction.length + j = s.exponent) :
    w.number = s.value := by
  rw [number, hdigits, Scientific.value, ← hexponent, zpow_add₀ (by norm_num), zpow_natCast]
  push_cast
  ring

/-! ## Texts -/

theorem pointed_of_ne_nil {f : List Char} (hf : f ≠ []) : pointed f = '.' :: f := by
  cases f with
  | nil => exact absurd rfl hf
  | cons c cs => rfl

theorem isDigit_head_pointed (f : List Char) (e : Option Int) :
    ∀ c ∈ (pointed f ++ marked e).head?, c.isDigit = false := by
  cases f <;> cases e <;> simp [pointed, marked]

theorem isDigit_head_marked (e : Option Int) : ∀ c ∈ (marked e).head?, c.isDigit = false :=
  isDigit_head_pointed [] e

/-- Digits end where something else starts. -/
theorem digits_append_inj {ds ds' r r' : List Char} (hds : ∀ c ∈ ds, c.isDigit = true)
    (hds' : ∀ c ∈ ds', c.isDigit = true) (hr : ∀ c ∈ r.head?, c.isDigit = false)
    (hr' : ∀ c ∈ r'.head?, c.isDigit = false) (h : ds ++ r = ds' ++ r') : ds = ds' ∧ r = r' := by
  have hfront := congrArg (List.takeWhile Char.isDigit) h
  rw [Piece.takeWhile_append hds hr, Piece.takeWhile_append hds' hr'] at hfront
  exact List.append_inj h (congrArg List.length hfront)

theorem marked_injective : Function.Injective marked := by
  rintro (_ | n) (_ | n') h
  · rfl
  · cases h
  · cases h
  · rw [toString_injective (String.toList_inj.mp (List.cons.inj h).2)]

theorem pointed_append_inj {f f' : List Char} {e e' : Option Int}
    (hf : ∀ c ∈ f, c.isDigit = true) (hf' : ∀ c ∈ f', c.isDigit = true)
    (h : pointed f ++ marked e = pointed f' ++ marked e') : f = f' ∧ e = e' := by
  -- without a fraction the text starts with the mark, else with the point
  rcases f with _ | ⟨c, cs⟩ <;> rcases f' with _ | ⟨c', cs'⟩
  · exact ⟨rfl, marked_injective h⟩
  · cases e <;> simp [pointed, marked] at h
  · cases e' <;> simp [pointed, marked] at h
  · obtain ⟨hfraction, hexponent⟩ := digits_append_inj hf hf' (isDigit_head_marked e)
      (isDigit_head_marked e') (List.cons.inj h).2
    exact ⟨hfraction, marked_injective hexponent⟩

/-- A minus sign can be told from what starts with none. -/
theorem sign_append_inj {b b' : Bool} {r r' : List Char} (hr : '-' ∉ r.head?)
    (hr' : '-' ∉ r'.head?)
    (h : (if b then ['-'] else []) ++ r = (if b' then ['-'] else []) ++ r') : b = b' ∧ r = r' := by
  cases b <;> cases b'
  · exact ⟨rfl, h⟩
  · exact absurd (congrArg List.head? h) fun heq => hr (heq ▸ rfl)
  · exact absurd (congrArg List.head? h) fun heq => hr' (heq ▸ rfl)
  · exact ⟨rfl, (List.cons.inj h).2⟩

/-- A text without its sign starts with a digit. -/
theorem exists_head?_unsigned (w : Written) : ∃ d ∈ w.unsigned.head?, d.isDigit = true := by
  obtain ⟨d, ds, hwhole⟩ := List.exists_cons_of_ne_nil w.whole_ne_nil
  refine ⟨d, by simp [unsigned, hwhole], w.isDigit_of_mem d ?_⟩
  simp [hwhole]

theorem minus_notMem_unsigned (w : Written) : '-' ∉ w.unsigned.head? := by
  obtain ⟨d, hd, hdigit⟩ := w.exists_head?_unsigned
  intro hminus
  rw [Option.mem_unique hd hminus] at hdigit
  exact absurd hdigit (by decide)

/-- **Nothing of a written decimal is lost in its text.** -/
theorem text_injective : Function.Injective text := by
  intro w w' h
  obtain ⟨hsign, hunsigned⟩ := sign_append_inj w.minus_notMem_unsigned w'.minus_notMem_unsigned h
  have hdigit := List.forall_mem_append.mp w.isDigit_of_mem
  have hdigit' := List.forall_mem_append.mp w'.isDigit_of_mem
  obtain ⟨hwhole, hrest⟩ := digits_append_inj hdigit.1 hdigit'.1 (isDigit_head_pointed _ _)
    (isDigit_head_pointed _ _) hunsigned
  obtain ⟨hfraction, hexponent⟩ := pointed_append_inj hdigit.2 hdigit'.2 hrest
  cases w
  cases w'
  simp only [Written.mk.injEq]
  exact ⟨hsign, hwhole, hfraction, hexponent⟩

end Written

/-! ## Digits -/

section Digits

variable {s : Scientific}

theorem toList_toString_coefficient (s : Scientific) :
    (toString s.coefficient).toList = s.digits := by
  rw [Nat.toString_eq_repr, Nat.toList_repr, Scientific.digits]

theorem digits_ne_nil (s : Scientific) : s.digits ≠ [] := Nat.toDigits_ne_nil

theorem ofDigitChars_digits (s : Scientific) : Nat.ofDigitChars 10 s.digits 0 = s.coefficient :=
  Nat.ofDigitChars_ten_toDigits

theorem isDigit_of_mem_digits (s : Scientific) : ∀ c ∈ s.digits, c.isDigit = true :=
  fun _ => Nat.isDigit_of_mem_toDigits (by decide) (by decide)

theorem isDigit_of_mem_zeros (n : Nat) : ∀ c ∈ List.replicate n '0', c.isDigit = true := by
  intro c hc
  rw [List.eq_of_mem_replicate hc]
  rfl

theorem head?_toDigits_ne {c : Nat} (hc : 0 < c) : (Nat.toDigits 10 c).head? ≠ some '0' := by
  induction c using Nat.strongRecOn with
  | ind c ih =>
    rw [Nat.toDigits_eq_if (by decide)]
    split
    · simp only [List.head?_cons, ne_eq, Option.some.injEq, Nat.digitChar_eq_zero]
      exact hc.ne'
    · next hle =>
      rw [List.head?_append_of_ne_nil _ Nat.toDigits_ne_nil]
      exact ih (c / 10) (by omega) (by omega)

theorem getLast?_digits (s : Scientific) :
    s.digits.getLast? = some (Nat.digitChar (s.coefficient % 10)) := by
  rw [Scientific.digits, Nat.toDigits_eq_if (by decide)]
  split
  · next hlt => rw [Nat.mod_eq_of_lt hlt, List.getLast?_singleton]
  · rw [List.getLast?_concat]

/-- A part of the digits that reaches to their end ends like them. -/
theorem getLast?_ne_of_suffix {f : List Char} (hs : s.coefficient % 10 ≠ 0) (hne : f ≠ [])
    (hsuffix : f <:+ s.digits) : f.getLast? ≠ some '0' := by
  obtain ⟨front, hfront⟩ := hsuffix
  have hlast := getLast?_digits s
  rw [← hfront, List.getLast?_append_of_ne_nil _ hne] at hlast
  rw [hlast, ne_eq, Option.some.injEq, Nat.digitChar_eq_zero]
  exact hs

end Digits

/-! ## The two forms -/

namespace Layout

open Written

theorem unsigned_eq (l : Layout) (s : Scientific) :
    l.unsigned s =
      if l.positionalFrom ≤ firstExponent s ∧ firstExponent s < l.positionalBelow then
        l.positional (toString s.coefficient) (firstExponent s)
      else l.exponential (toString s.coefficient) (firstExponent s) := by
  rw [Layout.unsigned, firstExponent, ← String.length_toList, toList_toString_coefficient]

theorem toList_positional (l : Layout) (digits : String) (e : Int) :
    (l.positional digits e).toList =
      if e < 0 then '0' :: '.' :: (List.replicate (-e - 1).toNat '0' ++ digits.toList)
      else if digits.toList.length ≤ e.toNat + 1 then
        digits.toList ++ List.replicate (e.toNat + 1 - digits.toList.length) '0'
          ++ l.wholeEnding.toList
      else digits.toList.take (e.toNat + 1) ++ '.' :: digits.toList.drop (e.toNat + 1) := by
  simp only [positional, String.length_toList]
  split
  · simp
  · split <;> simp

theorem toList_exponential (l : Layout) (digits : String) (e : Int) :
    (l.exponential digits e).toList =
      digits.toList.take 1 ++ (if digits.toList.drop 1 = [] then l.loneDigitEnding.toList
        else '.' :: digits.toList.drop 1) ++ l.mark.toList ++ (l.exponentText e).toList := by
  simp only [exponential, String.isEmpty_iff, String.ofList_eq_empty_iff]
  split <;> simp

variable {s : Scientific} {k : Nat}

/-- Below one, zeros stand between the point and the digits. -/
theorem exists_shows_zeros (hs : s.coefficient % 10 ≠ 0) (negative : Bool)
    (hk : (k : Int) + s.digits.length + s.exponent = 0) :
    ∃ w : Written, w.Shows negative s ('0' :: '.' :: (List.replicate k '0' ++ s.digits)) ∧
      w.IsPlain := by
  have hne := digits_ne_nil s
  refine ⟨⟨negative, ['0'], List.replicate k '0' ++ s.digits, none, List.cons_ne_nil _ _, ?_⟩,
    ⟨rfl, ?_, number_eq_value (j := 0) ?_ ?_⟩, rfl, ?_⟩
  · exact List.forall_mem_append.mpr ⟨isDigit_of_mem_zeros 1,
      List.forall_mem_append.mpr ⟨isDigit_of_mem_zeros k, isDigit_of_mem_digits s⟩⟩
  · rw [Written.unsigned, pointed_of_ne_nil (List.append_ne_nil_of_right_ne_nil _ hne), marked,
      List.append_nil, List.singleton_append]
  · have hzeros : Nat.ofDigitChars 10 (List.replicate (k + 1) '0') 0 = 0 := by
      rw [Nat.ofDigitChars_replicate_zero, Nat.mul_zero]
    rw [List.singleton_append, ← List.cons_append, ← List.replicate_succ, Nat.ofDigitChars_append,
      hzeros, ofDigitChars_digits, pow_zero, one_mul]
  · simp only [Option.getD_none, List.length_append, List.length_replicate]
    omega
  · rw [List.getLast?_append_of_ne_nil _ hne]
    exact getLast?_ne_of_suffix hs hne List.suffix_rfl

/-- Whole numbers have zeros behind their digits and no point. -/
theorem exists_shows_whole (negative : Bool) (hk : (k : Int) = s.exponent) :
    ∃ w : Written, w.Shows negative s (s.digits ++ List.replicate k '0') ∧ w.IsPlain := by
  refine ⟨⟨negative, s.digits ++ List.replicate k '0', [], none,
    List.append_ne_nil_of_left_ne_nil (digits_ne_nil s) _, ?_⟩,
    ⟨rfl, ?_, number_eq_value (j := k) ?_ ?_⟩, rfl, ?_⟩
  · rw [List.append_nil]
    exact List.forall_mem_append.mpr ⟨isDigit_of_mem_digits s, isDigit_of_mem_zeros k⟩
  · exact List.append_nil _
  · rw [List.append_nil, Nat.ofDigitChars_append, ofDigitChars_digits,
      Nat.ofDigitChars_replicate_zero]
  · simp only [Option.getD_none, List.length_nil]
    omega
  · simp

/-- Else the point divides the digits. -/
theorem exists_shows_divided (hs : s.coefficient % 10 ≠ 0) (negative : Bool) (hpos : 0 < k)
    (hk : (k : Int) = s.digits.length + s.exponent) (hlt : k < s.digits.length) :
    ∃ w : Written, w.Shows negative s (s.digits.take k ++ '.' :: s.digits.drop k) ∧
      w.IsPlain := by
  have hfraction : s.digits.drop k ≠ [] := by
    rw [ne_eq, List.drop_eq_nil_iff]
    omega
  have hwhole : s.digits.take k ≠ [] := by
    rw [ne_eq, List.take_eq_nil_iff]
    exact not_or.mpr ⟨hpos.ne', digits_ne_nil s⟩
  refine ⟨⟨negative, s.digits.take k, s.digits.drop k, none, hwhole, ?_⟩,
    ⟨rfl, ?_, number_eq_value (j := 0) ?_ ?_⟩, rfl,
    getLast?_ne_of_suffix hs hfraction (List.drop_suffix _ _)⟩
  · rw [List.take_append_drop]
    exact isDigit_of_mem_digits s
  · rw [Written.unsigned, pointed_of_ne_nil hfraction, marked, List.append_nil]
  · rw [List.take_append_drop, ofDigitChars_digits, pow_zero, one_mul]
  · simp only [Option.getD_none, List.length_drop]
    omega

/-- **The positional form shows the decimal.** -/
theorem exists_isPlain (hs : s.coefficient % 10 ≠ 0) (negative : Bool) :
    ∃ w : Written, w.Shows negative s
      (display.positional (toString s.coefficient) (firstExponent s)).toList ∧ w.IsPlain := by
  have hpos := length_digits_pos s
  rw [toList_positional, toList_toString_coefficient, firstExponent]
  split
  · exact exists_shows_zeros hs negative (by omega)
  · split
    · rw [show display.wholeEnding.toList = [] from rfl, List.append_nil]
      exact exists_shows_whole negative (by omega)
    · exact exists_shows_divided hs negative (by omega) (by omega) (by omega)

/-- **The form with an exponent shows the decimal.** -/
theorem exists_isScientific (hs : s.coefficient % 10 ≠ 0) (negative : Bool) :
    ∃ w : Written, w.Shows negative s
      (display.exponential (toString s.coefficient) (firstExponent s)).toList ∧
        w.IsScientific (firstExponent s) := by
  have hdigit := isDigit_of_mem_digits s
  have hvalue := ofDigitChars_digits s
  have hfirst : firstExponent s = s.digits.length - 1 + s.exponent := rfl
  rw [toList_exponential, toList_toString_coefficient]
  obtain ⟨d, ds, hds⟩ := List.exists_cons_of_ne_nil (digits_ne_nil s)
  have hlead : d ≠ '0' := by
    rintro rfl
    exact head?_toDigits_ne (show 0 < s.coefficient by omega) (congrArg List.head? hds)
  rw [hds] at hdigit hvalue hfirst ⊢
  simp only [List.take_succ_cons, List.take_zero, List.drop_succ_cons, List.drop_zero]
  split
  · next hnil =>
    subst hnil
    refine ⟨⟨negative, [d], ['0'], some (firstExponent s), List.cons_ne_nil _ _, ?_⟩,
      ⟨rfl, rfl, number_eq_value (j := 1) ?_ ?_⟩, rfl, ⟨d, rfl, hlead⟩, List.cons_ne_nil _ _,
      Or.inl rfl⟩
    · exact List.forall_mem_append.mpr ⟨hdigit, isDigit_of_mem_zeros 1⟩
    · rw [Nat.ofDigitChars_append, hvalue]
      exact Nat.ofDigitChars_replicate_zero (n := 1)
    · show firstExponent s - (1 : Nat) + (1 : Nat) = s.exponent
      rw [hfirst, List.length_singleton]
      omega
  · next hfraction =>
    refine ⟨⟨negative, [d], ds, some (firstExponent s), List.cons_ne_nil _ _, hdigit⟩,
      ⟨rfl, ?_, number_eq_value (j := 0) ?_ ?_⟩, rfl, ⟨d, rfl, hlead⟩, hfraction,
      Or.inr (getLast?_ne_of_suffix hs hfraction (hds ▸ List.suffix_cons d ds))⟩
    · rw [Written.unsigned, pointed_of_ne_nil hfraction]
      simp [marked, display]
    · rw [List.singleton_append, hvalue, pow_zero, one_mul]
    · show firstExponent s - ds.length + (0 : Nat) = s.exponent
      rw [hfirst, List.length_cons]
      omega

/-- **The decimals from a thousandth to ten million are shown in positional form.** The exponent of
the others is that of their first digit. -/
theorem exists_written (hs : s.coefficient % 10 ≠ 0) (negative : Bool) :
    ∃ w : Written, w.Shows negative s (display.unsigned s).toList ∧
      if 1 / 1000 ≤ s.value ∧ s.value < 10 ^ 7 then w.IsPlain
      else ∃ n : Int, w.IsScientific n ∧ 10 ^ n ≤ s.value ∧ s.value < 10 ^ (n + 1) := by
  have hlow : display.positionalFrom ≤ firstExponent s ↔ 1 / 1000 ≤ s.value := by
    rw [le_firstExponent_iff (by omega)]
    norm_num [display]
  have hhigh : firstExponent s < display.positionalBelow ↔ s.value < 10 ^ 7 := by
    rw [← not_le, le_firstExponent_iff (by omega), not_le]
    norm_num [display]
  rw [unsigned_eq]
  simp only [hlow, hhigh]
  by_cases hform : 1 / 1000 ≤ s.value ∧ s.value < 10 ^ 7
  · simp only [if_pos hform]
    exact exists_isPlain hs negative
  · simp only [if_neg hform]
    obtain ⟨w, hshows, hscientific⟩ := exists_isScientific hs negative
    exact ⟨w, hshows, _, hscientific, ten_zpow_firstExponent_le (by omega), value_lt_ten_zpow s⟩

end Layout

end RadixScript.Decimal
