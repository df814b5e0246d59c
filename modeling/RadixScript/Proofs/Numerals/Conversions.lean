import RadixScript.Proofs.Decimals.Integers
import RadixScript.Proofs.Numerals.Operands
import RadixScript.Proofs.Outcome.Operation

/-!
# Conversions

A number has many spellings: an integer, numerals of either base with any zeros in front, and the
texts of these numerals. The native functions `hexadecimal`, `binary` and `decimal` take any of them
and `str` takes numerals, and whatever is done with their results next, the number stays the same
(`Native.conversions_keep_number`).

The other half of the statement is about decimal texts, which are no spelling in this sense: the
text of an integer is read back as the integer, with its sign.
-/

namespace RadixScript

/-- A text without blanks is stripped of nothing. -/
theorem Text.strip_eq_self {cs : List Char} (h : ∀ c ∈ cs, isBlank c = false) :
    strip cs = cs := by
  have hdrop : ∀ ds : List Char, (∀ c ∈ ds, isBlank c = false) → ds.dropWhile isBlank = ds := by
    intro ds hds
    cases ds with
    | nil => rfl
    | cons c ds => rw [List.dropWhile_cons_of_neg (by simp [hds c List.mem_cons_self])]
  rw [strip, trimEnd, hdrop cs h, hdrop cs.reverse fun c hc => h c (List.mem_reverse.mp hc),
    List.reverse_reverse]

/-! ## Native functions -/

namespace Native

variable {b : Base} {f : Native} {v w : Value} {m : Nat}

/-- The value is a spelling of the number: the integer itself, a numeral that stands for it, or a
text that is recognised as such a numeral. -/
inductive Convertible : Value → Nat → Prop
  | int (m : Nat) : Convertible (.int m) m
  | numeral (x : Numeral) : Convertible (.numeral x) x.toNat
  | text {s : String} {x : Numeral} (h : Numeral.ofTagged? s = some x) :
      Convertible (.text s) x.toNat

/-- The native function converts the value: it is `hexadecimal`, `binary` or `decimal`, or it is
`str` and the value is a numeral. -/
inductive Converts : Native → Value → Prop
  | toBase (b : Base) (v : Value) : Converts (.toBase b) v
  | decimal (v : Value) : Converts .decimal v
  | str (x : Numeral) : Converts .str (.numeral x)

/-- Each of the native functions converts the value that the ones before it give. -/
def ConvertsAll : List Native → Value → Prop
  | [], _ => True
  | f :: fs, v => f.Converts v ∧ ∀ w, f.run [v] = pure w → ConvertsAll fs w

theorem convertible_of_numeral? {x : Numeral} (h : Radix.numeral? v = some x) :
    Convertible v x.toNat := by
  cases v with
  | numeral y =>
    cases h
    exact .numeral x
  | text s => exact .text h
  | _ => cases h

/-- A spelling is a natural number or denotes a numeral. -/
theorem Convertible.cases (h : Convertible v m) :
    v = .int m ∨ ∃ x, Radix.numeral? v = some x ∧ x.toNat = m := by
  cases h with
  | int m => exact .inl rfl
  | numeral x => exact .inr ⟨x, rfl, rfl⟩
  | @text s x h => exact .inr ⟨x, h, rfl⟩

/-! ### Conversions of spellings -/

theorem run_toBase (b : Base) (v : Value) : (toBase b).run [v] = Run.lift (toNumeral b v) := by
  cases b <;> rfl

theorem toNumeral_of_numeral? {x : Numeral} (h : Radix.numeral? v = some x) (b : Base) :
    toNumeral b v = .ok (.numeral (x.convert b)) := by
  simp only [toNumeral, h]

theorem toNumeral_natCast (b : Base) (m : Nat) :
    toNumeral b (.int m) = .ok (.numeral (.ofNat b m)) := by
  have hm : ¬ (m : Int) < 0 := by omega
  simp only [toNumeral, Radix.numeral?, Value.kindOf, Value.kind, bind, Except.bind, if_neg hm]
  rfl

theorem toDecimal_of_numeral? {x : Numeral} (h : Radix.numeral? v = some x) :
    toDecimal v = .ok (.int x.toNat) := by
  rw [← x.toDecimal_eq_toNat]
  cases v with
  | numeral y =>
    cases h
    rfl
  | text s =>
    have hs : Numeral.ofTagged? s = some x := h
    simp only [toDecimal, Value.kindOf, Value.kind, bind, Except.bind, Radix.numeral?, hs]
    rfl
  | _ => cases h

/-- Conversion to a base gives a numeral of that base for the same number. -/
theorem run_toBase_of_convertible (h : Convertible v m) (b : Base) :
    ∃ x, (toBase b).run [v] = pure (.numeral x) ∧ x.base = b ∧ x.toNat = m := by
  rw [run_toBase]
  rcases h.cases with rfl | ⟨x, hx, rfl⟩
  · rw [toNumeral_natCast]
    exact ⟨.ofNat b m, rfl, rfl, Numeral.toNat_ofNat b m⟩
  · rw [toNumeral_of_numeral? hx]
    exact ⟨x.convert b, rfl, Numeral.base_convert b x, x.toNat_convert b⟩

theorem run_decimal_of_convertible (h : Convertible v m) : decimal.run [v] = pure (.int m) := by
  show Run.lift (toDecimal v) = _
  rcases h.cases with rfl | ⟨x, hx, rfl⟩
  · rfl
  · rw [toDecimal_of_numeral? hx]
    rfl

/-- The text of a numeral is recognised as the numeral, with all its digits. -/
theorem ofTagged?_text (x : Numeral) : Numeral.ofTagged? x.text = some x := by
  refine Numeral.ofTagged?_eq_some_iff.mpr ⟨x.digitText.toList, ?_, ?_⟩
  · rw [Numeral.text, String.toList_append]
  · rw [Numeral.toList_digitText, Base.upper_map_digitChar]

/-- **One conversion succeeds and keeps the number.** -/
theorem Converts.keeps (hf : f.Converts v) (h : Convertible v m) :
    ∃ w, f.run [v] = pure w ∧ Convertible w m := by
  cases hf with
  | toBase b =>
    obtain ⟨x, hx, -, rfl⟩ := run_toBase_of_convertible h b
    exact ⟨_, hx, .numeral x⟩
  | decimal => exact ⟨_, run_decimal_of_convertible h, .int m⟩
  | str x =>
    cases h
    exact ⟨_, rfl, .text (ofTagged?_text x)⟩

/-- **Conversions one after the other succeed and keep the number.** -/
theorem ConvertsAll.keeps {fs : List Native} (hfs : ConvertsAll fs v) (h : Convertible v m) :
    ∃ w, fs.foldlM (fun v f => f.run [v]) v = pure w ∧ Convertible w m := by
  induction fs generalizing v with
  | nil => exact ⟨v, rfl, h⟩
  | cons f fs ih =>
    obtain ⟨w, hw, hconv⟩ := hfs.1.keeps h
    obtain ⟨u, hu, hend⟩ := ih (hfs.2 w hw) hconv
    refine ⟨u, ?_, hend⟩
    rw [List.foldlM_cons, hw, pure_bind, hu]

/-- What is converted next has only to be known for the result. -/
theorem ConvertsAll.cons {fs : List Native} (hf : f.Converts v) (hw : f.run [v] = pure w)
    (hfs : ConvertsAll fs w) : ConvertsAll (f :: fs) v := by
  refine ⟨hf, fun u hu => ?_⟩
  have hsame := congrFun (hw.symm.trans hu) (.initial .awaiting)
  have hwu : w = u := by simpa [pure, EStateM.pure] using hsame
  rwa [← hwu]

/-! ### Integers and their texts -/

/-- The text of an integer is no tagged numeral: its second character is a digit. -/
theorem ofTagged?_toString (k : Int) : Numeral.ofTagged? (toString k) = none := by
  rw [Option.eq_none_iff_forall_ne_some]
  intro x hx
  obtain ⟨body, hbody, -⟩ := Numeral.ofTagged?_eq_some_iff.mp hx
  rw [Numeral.toList_tag] at hbody
  have hmem : x.base.letter ∈ (toString k).toList := hbody ▸ by simp
  have hletter : x.base.letter ≠ '-' ∧ x.base.letter.isDigit = false := by
    cases x.base <;> decide
  rcases Decimal.eq_or_isDigit_of_mem_toString hmem with hdash | hdigit
  · exact hletter.1 hdash
  · rw [hletter.2] at hdigit
    cases hdigit

/-- The text of an integer is read as it stands: it has no blanks around it and no point in it. -/
theorem ofDecimalText?_toString {k : Int}
    (h : (Nat.toDigits 10 k.natAbs).length ≤ Decimal.digitLimit) :
    ofDecimalText? (toString k) = some (.int k) := by
  have hplain : ∀ c ∈ (toString k).toList, Text.isBlank c = false ∧ c ≠ '.' := by
    intro c hc
    rcases Decimal.eq_or_isDigit_of_mem_toString hc with rfl | hdigit
    · decide
    · refine ⟨Decimal.isBlank_of_isDigit hdigit, ?_⟩
      rintro rfl
      exact absurd hdigit (by decide)
  have hpoint : (toString k).toList.contains '.' = false := by
    rw [List.contains_eq_mem, decide_eq_false_iff_not]
    exact fun hmem => (hplain '.' hmem).2 rfl
  simp only [ofDecimalText?, Text.strip_eq_self fun c hc => (hplain c hc).1, hpoint,
    Decimal.readInteger?_toString h]
  rfl

/-- **`decimal` undoes `str` on integers.** -/
theorem run_decimal_str {k : Int} (h : (Nat.toDigits 10 k.natAbs).length ≤ Decimal.digitLimit) :
    ∃ s, str.run [.int k] = pure (.text s) ∧ decimal.run [.text s] = pure (.int k) := by
  have hread : toDecimal (.text (toString k)) = .ok (.int k) := by
    simp only [toDecimal, Value.kindOf, Value.kind, bind, Except.bind, Radix.numeral?,
      ofTagged?_toString, ofDecimalText?_toString h]
    rfl
  refine ⟨toString k, ?_, ?_⟩
  · simp only [run, List.headD_cons, display, Value.display?, Decimal.integerText?_eq_some h]
    rfl
  · show Run.lift (toDecimal (.text (toString k))) = _
    rw [hread]
    rfl

/-! ### Values that are no spelling -/

/-- Conversion to a base refuses every value of the language that is no integer and no spelling. -/
theorem run_toBase_of_not_convertible {k : ValueKind} (hkind : v.kind = .ok k)
    (hint : ∀ n, v ≠ .int n) (hconv : ∀ m, ¬ Convertible v m) (b : Base) :
    (toBase b).run [v] = throw (.cause .notConvertible) := by
  have hnone : Radix.numeral? v = none := by
    rw [Option.eq_none_iff_forall_ne_some]
    exact fun x hx => hconv x.toNat (convertible_of_numeral? hx)
  simp only [run_toBase, toNumeral, hnone, Value.kindOf, hkind]
  cases v with
  | int n => exact absurd rfl (hint n)
  | _ => rfl

/-- **Conversions keep the number of a spelling.**

* `hexadecimal` and `binary` turn every spelling of a number into a numeral of their base for it,
  and `decimal` turns it into the number. The text that `str` gives for a numeral is recognised as
  that numeral, digit by digit.
* So all conversions one after the other succeed, and their result is a spelling of the number.
* `decimal` gives back every integer from its text, as long as the text may be written.
* `hexadecimal` and `binary` stop with an error about the type of every other value of the language,
  integers apart. -/
theorem conversions_keep_number :
    (∀ v m, Convertible v m →
      (∀ b, ∃ x, (toBase b).run [v] = pure (.numeral x) ∧ x.base = b ∧ x.toNat = m) ∧
      decimal.run [v] = pure (.int m)) ∧
    (∀ x, ∃ s, str.run [.numeral x] = pure (.text s) ∧ Numeral.ofTagged? s = some x) ∧
    (∀ fs v m, Convertible v m → ConvertsAll fs v →
      ∃ w, fs.foldlM (fun v f => f.run [v]) v = pure w ∧ Convertible w m) ∧
    (∀ k : Int, (Nat.toDigits 10 k.natAbs).length ≤ Decimal.digitLimit →
      ∃ s, str.run [.int k] = pure (.text s) ∧ decimal.run [.text s] = pure (.int k)) ∧
    (∀ v kind b, v.kind = .ok kind → (∀ n, v ≠ .int n) → (∀ m, ¬ Convertible v m) →
      ∃ c, (toBase b).run [v] = throw (.cause c) ∧ c.family = .type) := by
  refine ⟨fun v m h => ⟨run_toBase_of_convertible h, run_decimal_of_convertible h⟩,
    fun x => ⟨x.text, rfl, ofTagged?_text x⟩, fun fs v m h hfs => hfs.keeps h,
    fun k h => run_decimal_str h, fun v kind b hkind hint hconv => ?_⟩
  exact ⟨.notConvertible, run_toBase_of_not_convertible hkind hint hconv b, rfl⟩

/-- A text in lower case with a zero in front goes through binary digits, their text, a number. -/
theorem conversions_keep_number_lowerCase :
    (∃ w, [binary, str, decimal].foldlM (fun v f => f.run [v]) (.text "0x0f") = pure w ∧
      Convertible w 15) ∧
    (∃ s, str.run [.int (-12)] = pure (.text s) ∧ decimal.run [.text s] = pure (.int (-12))) ∧
    ∃ c, hexadecimal.run [.bool true] = throw (.cause c) ∧ c.family = .type := by
  obtain ⟨hone, hstr, hall, htext, hrefused⟩ := conversions_keep_number
  have hread : (Numeral.ofTagged? "0x0f").map Numeral.toNat = some 15 := by decide +kernel
  obtain ⟨x, hx, hnumber⟩ := Option.map_eq_some_iff.mp hread
  have hstart : Convertible (.text "0x0f") 15 := hnumber ▸ .text hx
  obtain ⟨⟨y, hy, -, -⟩, -⟩ := (hone _ _ hstart).imp_left fun h => h .binary
  obtain ⟨s, hs, -⟩ := hstr y
  refine ⟨hall _ _ _ hstart ?_, htext (-12) (by decide), ?_⟩
  · exact .cons (.toBase .binary _) hy (.cons (.str y) hs ⟨.decimal _, fun _ _ => trivial⟩)
  · exact hrefused (.bool true) _ .hexadecimal rfl nofun nofun

end Native

end RadixScript
