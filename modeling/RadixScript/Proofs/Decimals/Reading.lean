import RadixScript.Proofs.Decimals.Magnitude
import RadixScript.Proofs.Decimals.Written

/-!
# Literals read again

What is displayed is found by way of the literal: in the middle range its text is kept, and outside
of it the text is read and laid out anew. This module follows that way and finds at its end the text
of the display layout (`displayText?_eq`).

A literal shows the decimal of its number with some zeros behind it (`exists_readDecimal?_literal`).
These are the zeros that the scientific form drops again, and since they also count down the
exponent, the exponent of the first digit does not depend on them (`scientificText_eq`).
-/

namespace RadixScript.Decimal

open Written

/-! ## Reading -/

section Reading

variable {ds r whole fraction : List Char} {e : Int}

theorem digitsValue?_eq_some (hne : ds ≠ []) (hds : ∀ c ∈ ds, c.isDigit = true) :
    digitsValue? ds = some (Nat.ofDigitChars 10 ds 0) :=
  if_pos ⟨hne, List.all_eq_true.mpr hds⟩

theorem cutSign_of_isDigit {c : Char} (hc : c.isDigit = true) (cs : List Char) :
    cutSign (c :: cs) = (false, c :: cs) := by
  unfold cutSign
  split
  · next heq =>
    cases heq
    exact absurd hc (by decide)
  · next heq =>
    cases heq
    exact absurd hc (by decide)
  · rfl

/-- The sign of a text is cut off, if digits follow. -/
theorem cutSign_append (negative : Bool) (hne : whole ≠ [])
    (hwhole : ∀ c ∈ whole, c.isDigit = true) :
    cutSign ((if negative then ['-'] else []) ++ (whole ++ r)) = (negative, whole ++ r) := by
  obtain ⟨c, cs, rfl⟩ := List.exists_cons_of_ne_nil hne
  cases negative with
  | true => rfl
  | false => exact cutSign_of_isDigit (hwhole c List.mem_cons_self) _

theorem exists_toList_signedExponent (n : Int) :
    ∃ k, (Layout.signedExponent n).toList =
      (if n < 0 then '-' else '+') :: (List.replicate k '0' ++ Nat.toDigits 10 n.natAbs) := by
  refine ⟨if (toString n.natAbs).length < 2 then 1 else 0, ?_⟩
  simp only [Layout.signedExponent, String.toList_append, Nat.toString_eq_repr, Nat.toList_repr]
  split <;> split <;> rfl

theorem readExponent?_signedExponent (n : Int) :
    readExponent? ('e' :: (Layout.signedExponent n).toList) = some n := by
  obtain ⟨k, hk⟩ := exists_toList_signedExponent n
  have hdigits : ∀ c ∈ List.replicate k '0' ++ Nat.toDigits 10 n.natAbs, c.isDigit = true :=
    List.forall_mem_append.mpr ⟨isDigit_of_mem_zeros k, fun c => isDigit_of_mem_toDigits⟩
  have hvalue : digitsValue? (List.replicate k '0' ++ Nat.toDigits 10 n.natAbs)
      = some n.natAbs := by
    rw [digitsValue?_eq_some (List.append_ne_nil_of_right_ne_nil _ Nat.toDigits_ne_nil) hdigits,
      Nat.ofDigitChars_append, Nat.ofDigitChars_replicate_zero, Nat.mul_zero,
      Nat.ofDigitChars_ten_toDigits]
  rw [hk]
  by_cases hn : n < 0
  · have habs : -(n.natAbs : Int) = n := by omega
    simp only [if_pos hn, readExponent?, cutSign, hvalue, if_true]
    exact congrArg some habs
  · have habs : (n.natAbs : Int) = n := by omega
    simp only [if_neg hn, readExponent?, cutSign, hvalue, Bool.false_eq_true, if_false]
    exact congrArg some habs

/-- A decimal text is read part by part: each part ends where the next one starts. -/
theorem readDecimal?_parts (negative : Bool) (hne : whole ≠ [])
    (hwhole : ∀ c ∈ whole, c.isDigit = true) (hfraction : ∀ c ∈ fraction, c.isDigit = true)
    (hmark : ∀ c ∈ r.head?, c = 'e') (hr : readExponent? r = some e) :
    readDecimal? ((if negative then ['-'] else []) ++ (whole ++ (pointed fraction ++ r))) =
      some (negative, ⟨Nat.ofDigitChars 10 (whole ++ fraction) 0, e - fraction.length⟩) := by
  have hpoint : ∀ {cs : List Char}, (∀ c ∈ cs, c.isDigit = true) →
      ∀ c ∈ cs, decide (c ≠ '.') = true ∧ decide (c ≠ 'e') = true := by
    intro cs hcs c hc
    have hdigit := hcs c hc
    constructor <;> refine decide_eq_true ?_ <;> rintro rfl <;> exact absurd hdigit (by decide)
  have hbody : ∀ c ∈ whole ++ pointed fraction, decide (c ≠ 'e') = true := by
    refine List.forall_mem_append.mpr ⟨fun c hc => (hpoint hwhole c hc).2, ?_⟩
    cases fraction with
    | nil => nofun
    | cons d ds =>
      exact List.forall_mem_cons.mpr ⟨by decide, fun c hc => (hpoint hfraction c hc).2⟩
  have hstop : ∀ c ∈ r.head?, decide (c ≠ 'e') = false := by
    intro c hc
    rw [hmark c hc]
    rfl
  have hstop' : ∀ c ∈ (pointed fraction).head?, decide (c ≠ '.') = false := by
    cases fraction with
    | nil => nofun
    | cons d ds => rintro c ⟨⟩; rfl
  have hdrop : (pointed fraction).drop 1 = fraction := by cases fraction <;> rfl
  have hdigits := List.forall_mem_append.mpr ⟨hwhole, hfraction⟩
  rw [readDecimal?, cutSign_append negative hne hwhole, ← List.append_assoc]
  simp only [Piece.takeWhile_append hbody hstop, Piece.dropWhile_append hbody hstop,
    Piece.takeWhile_append (fun c hc => (hpoint hwhole c hc).1) hstop',
    Piece.dropWhile_append (fun c hc => (hpoint hwhole c hc).1) hstop', hdrop, hr,
    digitsValue?_eq_some (List.append_ne_nil_of_left_ne_nil hne fraction) hdigits]
  rfl

end Reading

/-! ## The decimal of a literal -/

section Literal

variable {s : Scientific} {whole fraction r : List Char} {e : Int} {j : Nat}

/-- The text of a literal, in parts: it shows the decimal with `j` zeros behind it. -/
structure Parts (s : Scientific) (j : Nat) (whole fraction r : List Char) (e : Int) : Prop where
  whole_ne_nil : whole ≠ []
  isDigit_of_mem : ∀ c ∈ whole ++ fraction, c.isDigit = true
  mark_eq : ∀ c ∈ r.head?, c = 'e'
  exponent_eq : readExponent? r = some e
  digits_eq : Nat.ofDigitChars 10 (whole ++ fraction) 0 = 10 ^ j * s.coefficient
  place_eq : e - fraction.length = s.exponent - j

theorem Parts.readDecimal?_eq (h : Parts s j whole fraction r e) (negative : Bool) :
    readDecimal? ((if negative then ['-'] else []) ++ (whole ++ (pointed fraction ++ r))) =
      some (negative, ⟨10 ^ j * s.coefficient, s.exponent - j⟩) := by
  obtain ⟨hwhole, hfraction⟩ := List.forall_mem_append.mp h.isDigit_of_mem
  rw [readDecimal?_parts negative h.whole_ne_nil hwhole hfraction h.mark_eq h.exponent_eq,
    h.digits_eq, h.place_eq]

/-- Below one, zeros stand between the point and the digits. -/
theorem parts_zeros {k : Nat} (hk : (k : Int) + s.digits.length + s.exponent = 0) :
    Parts s 0 ['0'] (List.replicate k '0' ++ s.digits) [] 0 where
  whole_ne_nil := List.cons_ne_nil _ _
  isDigit_of_mem := List.forall_mem_append.mpr ⟨isDigit_of_mem_zeros 1,
    List.forall_mem_append.mpr ⟨isDigit_of_mem_zeros k, isDigit_of_mem_digits s⟩⟩
  mark_eq := nofun
  exponent_eq := rfl
  digits_eq := by
    have hzeros : Nat.ofDigitChars 10 (List.replicate (k + 1) '0') 0 = 0 := by
      rw [Nat.ofDigitChars_replicate_zero, Nat.mul_zero]
    rw [List.singleton_append, ← List.cons_append, ← List.replicate_succ, Nat.ofDigitChars_append,
      hzeros, ofDigitChars_digits, pow_zero, one_mul]
  place_eq := by
    simp only [List.length_append, List.length_replicate]
    omega

/-- Whole numbers have zeros behind their digits, and one more behind the point. -/
theorem parts_whole {k : Nat} (hk : (k : Int) = s.exponent) :
    Parts s (k + 1) (s.digits ++ List.replicate k '0') ['0'] [] 0 where
  whole_ne_nil := List.append_ne_nil_of_left_ne_nil (digits_ne_nil s) _
  isDigit_of_mem := List.forall_mem_append.mpr ⟨List.forall_mem_append.mpr
    ⟨isDigit_of_mem_digits s, isDigit_of_mem_zeros k⟩, isDigit_of_mem_zeros 1⟩
  mark_eq := nofun
  exponent_eq := rfl
  digits_eq := by
    rw [List.append_assoc, ← List.replicate_succ', Nat.ofDigitChars_append, ofDigitChars_digits,
      Nat.ofDigitChars_replicate_zero]
  place_eq := by
    simp only [List.length_singleton]
    omega

/-- Else the point divides the digits. -/
theorem parts_divided {k : Nat} (hpos : 0 < k) (hmark : ∀ c ∈ r.head?, c = 'e')
    (he : readExponent? r = some e) (hk : e - (s.digits.length - k : Nat) = s.exponent) :
    Parts s 0 (s.digits.take k) (s.digits.drop k) r e where
  whole_ne_nil := by
    rw [ne_eq, List.take_eq_nil_iff]
    exact not_or.mpr ⟨hpos.ne', digits_ne_nil s⟩
  isDigit_of_mem := by
    rw [List.take_append_drop]
    exact isDigit_of_mem_digits s
  mark_eq := hmark
  exponent_eq := he
  digits_eq := by rw [List.take_append_drop, ofDigitChars_digits, pow_zero, one_mul]
  place_eq := by
    rw [List.length_drop, hk]
    omega

/-- A literal shows the decimal of its number, perhaps with zeros behind it. -/
theorem exists_parts_literal (s : Scientific) :
    ∃ j whole fraction r e, Parts s j whole fraction r e ∧
      (Layout.literal.unsigned s).toList = whole ++ (pointed fraction ++ r) := by
  have hfirst : firstExponent s = s.digits.length - 1 + s.exponent := rfl
  have hpos := length_digits_pos s
  rw [Layout.unsigned_eq]
  split
  · rw [Layout.toList_positional, toList_toString_coefficient]
    split
    · refine ⟨_, _, _, _, _, parts_zeros (k := (-firstExponent s - 1).toNat) (by omega), ?_⟩
      rw [pointed_of_ne_nil (List.append_ne_nil_of_right_ne_nil _ (digits_ne_nil s)),
        List.append_nil]
      rfl
    · split
      · exact ⟨_, _, _, _, _, parts_whole (by omega), rfl⟩
      · refine ⟨_, _, _, [], 0, parts_divided (k := (firstExponent s).toNat + 1) (by omega) nofun
          rfl (by omega), ?_⟩
        rw [pointed_of_ne_nil, List.append_nil]
        rw [ne_eq, List.drop_eq_nil_iff]
        omega
  · rw [Layout.toList_exponential, toList_toString_coefficient]
    refine ⟨_, _, _, _, _, parts_divided (k := 1) one_pos ?_
      (readExponent?_signedExponent (firstExponent s)) (by omega), ?_⟩
    · rintro c ⟨⟩
      rfl
    · rw [List.append_assoc, List.append_assoc]
      cases s.digits.drop 1 <;> rfl

/-- **A literal is read again as the decimal of its number**, perhaps with zeros behind it. -/
theorem exists_readDecimal?_literal (s : Scientific) (negative : Bool) :
    ∃ j : Nat, readDecimal? ((if negative then ['-'] else []) ++
        (Layout.literal.unsigned s).toList) =
      some (negative, ⟨10 ^ j * s.coefficient, s.exponent - j⟩) := by
  obtain ⟨j, whole, fraction, r, e, hparts, htext⟩ := exists_parts_literal s
  exact ⟨j, htext ▸ hparts.readDecimal?_eq negative⟩

end Literal

/-! ## The scientific form -/

section Scientific

variable {s : Scientific}

theorem toDigits_ten_pow_mul {c : Nat} (hc : 0 < c) (j : Nat) :
    Nat.toDigits 10 (10 ^ j * c) = Nat.toDigits 10 c ++ List.replicate j '0' := by
  induction j with
  | zero => simp
  | succ j ih =>
    have hpos : 0 < 10 ^ j * c := Nat.mul_pos (by positivity) hc
    have hstep := Nat.toDigits_append_toDigits (by decide : 1 < 10) hpos (by decide : 0 < 10)
    rw [List.replicate_succ', ← List.append_assoc, ← ih]
    rw [show 10 ^ (j + 1) * c = 10 * (10 ^ j * c) + 0 by ring, ← hstep]
    rfl

/-- The zeros behind the digits are dropped, and no more than these. -/
theorem trimEnd_digits (hs : s.coefficient % 10 ≠ 0) (j : Nat) :
    Text.trimEnd (· = '0') (s.digits ++ List.replicate j '0') = s.digits := by
  have hzeros : ∀ c ∈ List.replicate j '0', decide (c = '0') = true := fun c hc =>
    decide_eq_true (List.eq_of_mem_replicate hc)
  have hend : ∀ c ∈ s.digits.reverse.head?, decide (c = '0') = false := by
    rintro c hc
    rw [List.head?_reverse] at hc
    refine decide_eq_false fun hzero => ?_
    exact getLast?_ne_of_suffix hs (digits_ne_nil s) List.suffix_rfl (hzero ▸ hc)
  rw [Text.trimEnd, List.reverse_append, List.reverse_replicate,
    Piece.dropWhile_append hzeros hend, List.reverse_reverse]

theorem orZero_of_ne_nil {ds : List Char} (hne : ds ≠ []) : orZero ds = ds := by
  cases ds with
  | nil => exact absurd rfl hne
  | cons d ds => rfl

/-- **The scientific form of a decimal does not depend on the zeros behind it**: it is the form with
an exponent of the display layout. -/
theorem scientificText_eq (hs : s.coefficient % 10 ≠ 0) (negative : Bool) (j : Nat) :
    scientificText negative ⟨10 ^ j * s.coefficient, s.exponent - j⟩ =
      (if negative then ['-'] else []) ++
        (Layout.display.exponential (toString s.coefficient) (firstExponent s)).toList := by
  have hdigits : (toString (10 ^ j * s.coefficient)).toList
      = s.digits ++ List.replicate j '0' := by
    rw [Nat.toString_eq_repr, Nat.toList_repr, toDigits_ten_pow_mul (by omega)]
    rfl
  have hscale : ((s.digits ++ List.replicate j '0').length : Int) - 1 + (s.exponent - j)
      = firstExponent s := by
    rw [List.length_append, List.length_replicate, firstExponent]
    omega
  have hfraction : '.' :: orZero (s.digits.drop 1) =
      if s.digits.drop 1 = [] then Layout.display.loneDigitEnding.toList
      else '.' :: s.digits.drop 1 := by
    cases s.digits.drop 1 <;> rfl
  rw [Layout.toList_exponential, toList_toString_coefficient, ← hfraction]
  simp only [scientificText, hdigits, hscale, trimEnd_digits hs,
    orZero_of_ne_nil (digits_ne_nil s)]
  simp [Layout.display]

end Scientific

/-! ## Endings -/

theorem dropZeroFraction_append (cs : List Char) : dropZeroFraction (cs ++ ['.', '0']) = cs := by
  rw [dropZeroFraction, if_pos (List.suffix_append cs _), List.length_append]
  exact List.take_left' (by simp)

theorem dropZeroFraction_eq_self {cs : List Char} (h : ¬ ['.', '0'] <:+ cs) :
    dropZeroFraction cs = cs :=
  if_neg h

theorem dropZeroFraction_of_getLast? {cs : List Char} (h : cs.getLast? ≠ some '0') :
    dropZeroFraction cs = cs := by
  refine dropZeroFraction_eq_self ?_
  rintro ⟨front, rfl⟩
  exact h (by simp)

/-- A text with an exponent does not end in `.0`. -/
theorem dropZeroFraction_exponent (cs : List Char) (n : Int) :
    dropZeroFraction (cs ++ 'E' :: (toString n).toList) = cs ++ 'E' :: (toString n).toList := by
  refine dropZeroFraction_eq_self fun hsuffix => ?_
  have hlength : ['.', '0'].length ≤ ('E' :: (toString n).toList).length := by
    have hpos : 0 < (toString n).toList.length := by
      rw [toList_toString]
      split
      · exact Nat.length_toDigits_pos
      · exact Nat.succ_pos _
    exact Nat.succ_le_succ hpos
  have hpoint : '.' ∈ 'E' :: (toString n).toList :=
    (List.suffix_of_suffix_length_le hsuffix (List.suffix_append _ _) hlength).subset
      List.mem_cons_self
  rcases List.mem_cons.mp hpoint with h | h
  · cases h
  · rcases eq_or_isDigit_of_mem_toString h with h | h
    · cases h
    · exact absurd h (by decide)

/-- Without `.0` at its end, the positional form of a literal is that of the display layout. -/
theorem dropZeroFraction_positional {s : Scientific} (hs : s.coefficient % 10 ≠ 0)
    (sign : List Char) :
    dropZeroFraction (sign ++
        (Layout.literal.positional (toString s.coefficient) (firstExponent s)).toList) =
      sign ++ (Layout.display.positional (toString s.coefficient) (firstExponent s)).toList := by
  -- a text that ends like the digits does not end in a zero
  have hkeep : ∀ {cs ds : List Char}, ds ≠ [] → ds <:+ s.digits →
      dropZeroFraction (cs ++ ds) = cs ++ ds := by
    intro cs ds hne hsuffix
    refine dropZeroFraction_of_getLast? ?_
    rw [List.getLast?_append_of_ne_nil _ hne]
    exact getLast?_ne_of_suffix hs hne hsuffix
  rw [Layout.toList_positional, Layout.toList_positional, toList_toString_coefficient]
  split
  · rw [← List.cons_append, ← List.cons_append, ← List.append_assoc]
    exact hkeep (digits_ne_nil s) List.suffix_rfl
  · split
    · rw [← List.append_assoc]
      refine (dropZeroFraction_append _).trans ?_
      rw [show Layout.display.wholeEnding.toList = [] from rfl, List.append_nil]
    · have hne : s.digits.drop ((firstExponent s).toNat + 1) ≠ [] := by
        rw [ne_eq, List.drop_eq_nil_iff]
        omega
      rw [List.append_cons, ← List.append_assoc]
      exact hkeep hne (List.drop_suffix _ _)

/-! ## Texts -/

section Texts

open Binary64

variable {x : Float} {negative : Bool} {m : Nat} {e : Int}

theorem toList_text_finite (l : Layout) (h : ofFloat x = .finite negative m e) :
    (l.text x).toList =
      (if isNegative x then ['-'] else []) ++ (l.unsigned (decimalAt (rank x))).toList := by
  obtain ⟨rfl, rfl, rfl⟩ := ofFloat_eq_finite h
  simp only [Layout.text, h]
  split <;> simp [decimalAt]

theorem floatText?_of_keepsLiteral (h : ofFloat x = .finite negative m e)
    (hkeep : keepsLiteral (.finite negative m e) = true) :
    floatText? x = some (Layout.literal.text x).toList := by
  simp only [floatText?, h, if_pos hkeep]

theorem floatText?_of_not_keepsLiteral (h : ofFloat x = .finite negative m e)
    (hkeep : ¬ keepsLiteral (.finite negative m e) = true) {b : Bool} {s : Scientific}
    (hread : readDecimal? (Layout.literal.text x).toList = some (b, s)) :
    floatText? x = some (scientificText b s) := by
  simp only [floatText?, h, if_neg hkeep, hread, Option.map_some]

/-- A number other than zero keeps its literal where the display layout is positional. -/
theorem keepsLiteral_succ_iff {n : Nat} (h : ofFloat x = .finite negative m e)
    (hrank : rank x = n + 1) :
    keepsLiteral (.finite negative m e) = true ↔
      Layout.display.positionalFrom ≤ firstExponent (decimalAt (n + 1)) ∧
        firstExponent (decimalAt (n + 1)) < Layout.display.positionalBelow := by
  have hpos : 0 < (decimalAt (n + 1)).coefficient := by
    have := (isShortest_decimalAt (n + 1)).coefficient_mod_ten
    omega
  have hlow : Layout.display.positionalFrom = -3 := rfl
  have hhigh : Layout.display.positionalBelow = 7 := rfl
  rw [keepsLiteral_iff h, hrank, or_iff_right (Nat.succ_ne_zero n), hlow, hhigh,
    ← not_le (b := firstExponent _), le_firstExponent_iff hpos, le_firstExponent_iff hpos, not_le]
  norm_num

/-- The text of a finite number other than zero, without `.0` at its end, is that of the display
layout. -/
theorem exists_floatText?_succ {n : Nat} (h : ofFloat x = .finite negative m e)
    (hrank : rank x = n + 1) :
    ∃ cs, floatText? x = some cs ∧ dropZeroFraction cs = (Layout.display.text x).toList := by
  have hs := (isShortest_decimalAt (n + 1)).coefficient_mod_ten
  have hliteral := toList_text_finite Layout.literal h
  rw [toList_text_finite Layout.display h, Layout.unsigned_eq, hrank]
  rw [hrank] at hliteral
  by_cases hkeep : keepsLiteral (.finite negative m e) = true
  · have hrange := (keepsLiteral_succ_iff h hrank).mp hkeep
    refine ⟨_, floatText?_of_keepsLiteral h hkeep, ?_⟩
    -- the literal layout is positional over a wider range
    have hwider : Layout.literal.positionalFrom ≤ firstExponent (decimalAt (n + 1)) ∧
        firstExponent (decimalAt (n + 1)) < Layout.literal.positionalBelow :=
      ⟨le_trans (by decide) hrange.1, lt_of_lt_of_le hrange.2 (by decide)⟩
    rw [hliteral, Layout.unsigned_eq, if_pos hwider, if_pos hrange]
    exact dropZeroFraction_positional hs _
  · obtain ⟨j, hread⟩ := exists_readDecimal?_literal (decimalAt (n + 1)) (isNegative x)
    rw [← hliteral] at hread
    refine ⟨_, floatText?_of_not_keepsLiteral h hkeep hread, ?_⟩
    rw [if_neg (mt (keepsLiteral_succ_iff h hrank).mpr hkeep), ← scientificText_eq hs _ j]
    exact dropZeroFraction_exponent _ _

/-- **Displaying a number by way of its literal gives the text of the display layout.** -/
theorem displayText?_eq (x : Float) : displayText? x = some (Layout.display.text x) := by
  have hexists : ∃ cs, floatText? x = some cs ∧
      dropZeroFraction cs = (Layout.display.text x).toList := by
    cases h : ofFloat x with
    | notANumber =>
      refine ⟨"NaN".toList, by simp only [floatText?, h], ?_⟩
      simp only [Layout.text, h]
      decide
    | infinite negative =>
      refine ⟨(if negative then "-Infinity" else "Infinity").toList,
        by simp only [floatText?, h], ?_⟩
      simp only [Layout.text, h]
      cases negative <;> decide
    | finite negative m e =>
      cases hrank : rank x with
      | zero =>
        refine ⟨_, floatText?_of_keepsLiteral h ((keepsLiteral_iff h).mpr (.inl hrank)), ?_⟩
        rw [toList_text_finite Layout.literal h, toList_text_finite Layout.display h, hrank]
        cases isNegative x <;> decide
      | succ n => exact exists_floatText?_succ h hrank
  obtain ⟨cs, hcs, hdrop⟩ := hexists
  rw [displayText?, hcs, Option.map_some, hdrop, String.ofList_toList]

end Texts

end RadixScript.Decimal
