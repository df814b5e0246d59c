import RadixScript.Proofs.Decimals.Reading
import RadixScript.Value.Basic

/-!
# Display of floating-point numbers

What is displayed is the text of the display layout (`displayText?_eq`), which shows the decimal of
the number in the form that the number asks for. This decimal has the number's sign and is rounded
to it, so the text gives the bits back (`display_lossless`).
-/

namespace RadixScript.Decimal

open Binary64

variable {x y : Float} {negative : Bool} {m : Nat} {e : Int}

/-! ## Texts -/

theorem toList_text_infinite (l : Layout) (h : ofFloat x = .infinite negative) :
    (l.text x).toList = (if isNegative x then ['-'] else []) ++ l.infinity.toList := by
  obtain ⟨rfl, -⟩ := ofFloat_eq_infinite h
  simp only [Layout.text, h]
  split <;> simp

/-- The text of a finite number is its decimal with its sign, in the form that the number asks
for. -/
theorem exists_displayed (h : ofFloat x = .finite negative m e) :
    ∃ w : Written, (Layout.display.text x).toList = w.text ∧ w.negative = isNegative x ∧
      w.number = (decimalAt (rank x)).value ∧
      if rank x = 0 ∨ 1 / 1000 ≤ numberAt (rank x) ∧ numberAt (rank x) < 10 ^ 7 then w.IsPlain
      else ∃ n : Int, w.IsScientific n ∧ 10 ^ n ≤ (decimalAt (rank x)).value ∧
        (decimalAt (rank x)).value < 10 ^ (n + 1) := by
  rw [toList_text_finite Layout.display h]
  cases hrank : rank x with
  | zero =>
    refine ⟨⟨isNegative x, ['0'], [], none, by simp, by simp⟩, ?_, rfl, ?_, ?_⟩
    · rfl
    · simp [Written.number, Scientific.value, decimalAt, mantissaAt, Nat.ofDigitChars_cons]
    · rw [if_pos (Or.inl rfl)]
      exact ⟨rfl, by simp⟩
  | succ n =>
    obtain ⟨w, hshows, hform⟩ :=
      Layout.exists_written (isShortest_decimalAt (n + 1)).coefficient_mod_ten (isNegative x)
    refine ⟨w, ?_, hshows.negative_eq, hshows.number_eq, ?_⟩
    · rw [Written.text, hshows.negative_eq, hshows.unsigned_eq]
    · have hhigh : numberAt (n + 1) < 10 ^ 7 ↔ (decimalAt (n + 1)).value < 10 ^ 7 := by
        rw [← not_le, tenMillion_le_iff, not_le]
      simpa only [Nat.succ_ne_zero, false_or, thousandth_le_iff, hhigh] using hform

theorem minus_notMem_infinity : '-' ∉ Layout.display.infinity.toList.head? := by decide

theorem text_ne_of_infinite {b : Bool} (hx : ofFloat x = .infinite b)
    (hy : ofFloat y = .finite negative m e) : Layout.display.text x ≠ Layout.display.text y := by
  intro h
  obtain ⟨w, hw, -⟩ := exists_displayed hy
  obtain ⟨d, hd, hdigit⟩ := w.exists_head?_unsigned
  rw [← String.toList_inj, hw, toList_text_infinite Layout.display hx] at h
  obtain ⟨-, hunsigned⟩ :=
    Written.sign_append_inj minus_notMem_infinity w.minus_notMem_unsigned h
  rw [← hunsigned] at hd
  cases hd
  exact absurd hdigit (by decide)

/-- **The text of a number gives its bits back.** -/
theorem toBits_eq_of_text (hx : ofFloat x ≠ .notANumber) (hy : ofFloat y ≠ .notANumber)
    (h : Layout.display.text x = Layout.display.text y) : x.toBits = y.toBits := by
  cases hfx : ofFloat x with
  | notANumber => exact absurd hfx hx
  | infinite b =>
    cases hfy : ofFloat y with
    | notANumber => exact absurd hfy hy
    | infinite b' =>
      rw [← String.toList_inj, toList_text_infinite Layout.display hfx,
        toList_text_infinite Layout.display hfy] at h
      obtain ⟨hsign, -⟩ := Written.sign_append_inj minus_notMem_infinity minus_notMem_infinity h
      exact toBits_eq hsign ((ofFloat_eq_infinite hfx).2.trans (ofFloat_eq_infinite hfy).2.symm)
    | finite => exact absurd h (text_ne_of_infinite hfx hfy)
  | finite =>
    cases hfy : ofFloat y with
    | notANumber => exact absurd hfy hy
    | infinite b => exact absurd h.symm (text_ne_of_infinite hfy hfx)
    | finite =>
      obtain ⟨w, hw, hnegative, hnumber, -⟩ := exists_displayed hfx
      obtain ⟨w', hw', hnegative', hnumber', -⟩ := exists_displayed hfy
      rw [← String.toList_inj, hw, hw'] at h
      obtain rfl := Written.text_injective h
      have hround := (isShortest_decimalAt (rank x)).rounds
      rw [← hnumber, hnumber'] at hround
      exact toBits_eq (hnegative.symm.trans hnegative')
        (hround.unique (isShortest_decimalAt (rank y)).rounds)

end RadixScript.Decimal

namespace RadixScript

open Decimal Decimal.Binary64

/-- **Display of floating-point numbers loses nothing.** The text of a finite number has its sign
and stands for the shortest decimal that rounds to it. It is positional for zero and from a
thousandth to below ten million, else it has one digit in front of the point and the exponent of
this digit. Numbers with different bits have different texts. -/
theorem display_lossless :
    (∀ (x : Float) (negative : Bool) (m : Nat) (e : Int), ofFloat x = .finite negative m e →
      numberAt (rank x) = m * 2 ^ e ∧ IsShortest (decimalAt (rank x)) (rank x) ∧
      ∃ w : Written, (Value.float x).display? = some (String.ofList w.text) ∧
        w.negative = negative ∧ w.number = (decimalAt (rank x)).value ∧
        if m = 0 ∨ 1 / 1000 ≤ (m * 2 ^ e : ℚ) ∧ (m * 2 ^ e : ℚ) < 10 ^ 7 then w.IsPlain
        else ∃ n : Int, w.IsScientific n ∧ 10 ^ n ≤ w.number ∧ w.number < 10 ^ (n + 1)) ∧
    ∀ x y : Float, ofFloat x ≠ .notANumber → ofFloat y ≠ .notANumber → x.toBits ≠ y.toBits →
      (Value.float x).display? ≠ (Value.float y).display? := by
  refine ⟨fun x negative m e h => ?_, fun x y hx hy hne htext => ?_⟩
  · obtain ⟨w, htext, hnegative, hnumber, hform⟩ := exists_displayed h
    obtain ⟨rfl, hm, -⟩ := ofFloat_eq_finite h
    have hzero : m = 0 ↔ rank x = 0 := hm ▸ mantissaAt_eq_zero_iff
    have hvalue := numberAt_rank h
    refine ⟨hvalue, isShortest_decimalAt _, w, ?_, hnegative, hnumber, ?_⟩
    · rw [Value.display?, displayText?_eq, ← htext, String.ofList_toList]
    · rw [← hvalue, hnumber]
      simpa only [hzero] using hform
  · rw [Value.display?, Value.display?, displayText?_eq, displayText?_eq] at htext
    exact hne (toBits_eq_of_text hx hy (Option.some.inj htext))

theorem display_lossless_pastTenMillion :
    ofFloat 12345678.0 = .finite false 0x178c29c0000000 (-29) ∧
      (∃ w : Written, (Value.float 12345678.0).display? = some (String.ofList w.text) ∧
        w.negative = false ∧ w.number = (decimalAt (rank 12345678.0)).value ∧
        ∃ n : Int, w.IsScientific n ∧ 10 ^ n ≤ w.number ∧ w.number < 10 ^ (n + 1)) ∧
      ofFloat 0.0 ≠ .notANumber ∧ ofFloat (-0.0) ≠ .notANumber ∧
      (0.0 : Float).toBits ≠ (-0.0 : Float).toBits ∧
      (Value.float 0.0).display? ≠ (Value.float (-0.0)).display? := by
  have hfinite : ofFloat 12345678.0 = .finite false 0x178c29c0000000 (-29) := by decide +kernel
  have hzero : ofFloat 0.0 ≠ .notANumber := by decide +kernel
  have hzero' : ofFloat (-0.0) ≠ .notANumber := by decide +kernel
  have hbits : (0.0 : Float).toBits ≠ (-0.0 : Float).toBits := by decide +kernel
  obtain ⟨-, -, w, htext, hnegative, hnumber, hform⟩ := display_lossless.1 _ _ _ _ hfinite
  rw [if_neg (by norm_num)] at hform
  exact ⟨hfinite, ⟨w, htext, hnegative, hnumber, hform⟩, hzero, hzero', hbits,
    display_lossless.2 _ _ hzero hzero' hbits⟩

example : (Value.float 12345678.0).display? = some "1.2345678E7" := by decide +kernel
example : (Value.float (-0.0)).display? = some "-0" := by decide +kernel

end RadixScript
