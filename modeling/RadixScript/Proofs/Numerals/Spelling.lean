import RadixScript.Numeral.Reading

/-!
# The texts of numerals

A text spells a numeral when its upper case is the digits of the numeral. So bare digits and tagged
texts are read as exactly those numerals that they spell (`Numeral.ofText_eq_ok_iff`,
`Numeral.ofTagged?_eq_some_iff`), and every numeral is read back from its own text.
-/

namespace RadixScript

/-! ## Digits -/

namespace Base

variable {b : Base} {c : Char} {cs : List Char} {ds : List (Fin b.radix)}

/-- The digits of a base, in the order of their values. -/
def alphabet : Base → List Char
  | binary => ['0', '1']
  | hexadecimal => ['0', '1', '2', '3', '4', '5', '6', '7', '8', '9', 'A', 'B', 'C', 'D', 'E', 'F']

theorem alphabet_eq (b : Base) : b.alphabet = (List.range b.radix).map digitChar := by
  cases b <;> decide

theorem digitChar_mem_alphabet (d : Fin b.radix) : digitChar d.val ∈ b.alphabet := by
  rw [alphabet_eq]
  exact List.mem_map_of_mem (List.mem_range.mpr d.isLt)

/-- A digit stands at the index of its value. -/
theorem idxOf_digitChar (d : Fin b.radix) : b.alphabet.idxOf (digitChar d.val) = d.val := by
  have hall : ∀ d : Fin b.radix, b.alphabet.idxOf (digitChar d.val) = d.val := by
    cases b <;> decide
  exact hall d

theorem digitChar_of_digitOf? {n : Nat} (h : digitOf? c = some n) : c = digitChar n := by
  have hnat : ∀ lo : Char, lo ≤ c → lo.toNat ≤ c.toNat := fun lo hle => hle
  have hnat' : ∀ hi : Char, c ≤ hi → c.toNat ≤ hi.toNat := fun hi hle => hle
  unfold digitOf? at h
  split at h
  · next hc =>
    have hlo : 0x30 ≤ c.toNat := hnat '0' hc.1
    have hhi : c.toNat ≤ 0x39 := hnat' '9' hc.2
    obtain rfl := Option.some.inj h
    rw [digitChar, if_pos (by omega), Nat.add_sub_cancel' hlo, Char.ofNat_toNat]
  · split at h
    · next hc =>
      have hlo : 0x41 ≤ c.toNat := hnat 'A' hc.1
      obtain rfl := Option.some.inj h
      rw [digitChar, if_neg (by omega), Nat.add_sub_cancel' (by omega), Char.ofNat_toNat]
    · cases h

theorem digit?_eq_some_iff {d : Fin b.radix} : b.digit? c = some d ↔ c = digitChar d.val := by
  constructor
  · intro h
    unfold digit? at h
    split at h
    · next n hn =>
      split at h
      · next hlt =>
        obtain rfl := Option.some.inj h
        exact digitChar_of_digitOf? hn
      · cases h
    · cases h
  · rintro rfl
    exact digit?_digitChar b d

theorem readDigits_map_digitChar (ds : List (Fin b.radix)) :
    b.readDigits (ds.map fun d => digitChar d.val) = .ok ds := by
  induction ds with
  | nil => rfl
  | cons d ds ih =>
    rw [List.map_cons, readDigits, digit?_digitChar]
    simp only [ih]
    rfl

/-- A text in upper case is read as the digits that it consists of. -/
theorem readDigits_eq_ok_iff :
    b.readDigits cs = .ok ds ↔ cs = ds.map fun d => digitChar d.val := by
  constructor
  · intro h
    induction cs generalizing ds with
    | nil =>
      cases h
      rfl
    | cons c cs ih =>
      rw [readDigits] at h
      split at h
      · cases h
      · next d hd =>
        cases hcs : b.readDigits cs with
        | error e =>
          rw [hcs] at h
          cases h
        | ok ds' =>
          rw [hcs] at h
          cases h
          rw [List.map_cons, ← ih hcs, ← digit?_eq_some_iff.mp hd]
  · rintro rfl
    exact readDigits_map_digitChar ds

/-- Digits are in upper case already. -/
theorem upper_map_digitChar (ds : List (Fin b.radix)) :
    Text.upper (ds.map fun d => digitChar d.val) = ds.map fun d => digitChar d.val := by
  have hall : ∀ n < 16, Text.upperChar (digitChar n) = [digitChar n] := by decide +kernel
  induction ds with
  | nil => rfl
  | cons d ds ih =>
    have hd := hall d.val (Nat.lt_of_lt_of_le d.isLt b.radix_le_sixteen)
    rw [List.map_cons, Text.upper, List.flatMap_cons, hd, ← Text.upper, ih]
    rfl

theorem ofLetter?_eq_some_iff : ofLetter? c = some b ↔ c = b.letter := by
  constructor
  · fun_cases ofLetter? c
    · rintro ⟨⟩
      rfl
    · rintro ⟨⟩
      rfl
    · nofun
  · rintro rfl
    cases b <;> rfl

end Base

/-! ## Numerals -/

namespace Numeral

variable {b : Base} {s : String} {x : Numeral}

theorem toList_digitText (x : Numeral) :
    x.digitText.toList = x.digits.map fun d => digitChar d.val :=
  String.toList_ofList

theorem toList_tag (b : Base) : b.tag.toList = ['0', b.letter] := String.toList_ofList

theorem ofDigits?_eq_some_iff {ds : List (Fin b.radix)} :
    ofDigits? b ds = some x ↔ ∃ h : ds ≠ [], x = ⟨b, ds, h⟩ := by
  unfold ofDigits?
  split
  · next hne =>
    rw [Option.some.injEq]
    constructor
    · rintro rfl
      exact ⟨hne, rfl⟩
    · rintro ⟨_, rfl⟩
      rfl
  · next hnil =>
    constructor
    · nofun
    · rintro ⟨hne, _⟩
      exact absurd hne hnil

/-- **Bare digits are read as the numeral that they spell.** -/
theorem ofText_eq_ok_iff :
    ofText b s = .ok x ↔ x.base = b ∧ Text.upper s.toList = x.digitText.toList := by
  constructor
  · intro h
    unfold ofText at h
    split at h
    · cases h
    · next ds hds =>
      split at h
      · next y hy =>
        obtain ⟨hne, rfl⟩ := ofDigits?_eq_some_iff.mp hy
        cases h
        exact ⟨rfl, by rw [Base.readDigits_eq_ok_iff.mp hds, toList_digitText]⟩
      · cases h
  · rintro ⟨rfl, h⟩
    rw [toList_digitText] at h
    have hds := ofDigits?_eq_some_iff.mpr ⟨x.digits_ne_nil, rfl⟩
    simp only [ofText, h, Base.readDigits_map_digitChar, hds]

/-- A numeral is read back from its own digits. -/
theorem ofText_digitText (x : Numeral) : ofText x.base x.digitText = .ok x := by
  refine ofText_eq_ok_iff.mpr ⟨rfl, ?_⟩
  rw [toList_digitText, Base.upper_map_digitChar]

/-- **A tagged text is read as the numeral that its digits spell.** -/
theorem ofTagged?_eq_some_iff :
    ofTagged? s = some x ↔
      ∃ body, s.toList = x.base.tag.toList ++ body ∧ Text.upper body = x.digitText.toList := by
  constructor
  · intro h
    unfold ofTagged? at h
    split at h
    · next letter body hs =>
      split at h
      · cases h
      · next b hb =>
        split at h
        · cases h
        · next ds hds =>
          obtain ⟨hne, rfl⟩ := ofDigits?_eq_some_iff.mp h
          refine ⟨body, ?_, ?_⟩
          · rw [hs, toList_tag, ← Base.ofLetter?_eq_some_iff.mp hb]
            rfl
          · rw [Base.readDigits_eq_ok_iff.mp hds, toList_digitText]
    · cases h
  · rintro ⟨body, hs, h⟩
    rw [toList_digitText] at h
    rw [toList_tag] at hs
    have hletter := Base.ofLetter?_eq_some_iff.mpr (rfl : x.base.letter = x.base.letter)
    have hds := ofDigits?_eq_some_iff.mpr ⟨x.digits_ne_nil, rfl⟩
    simp only [ofTagged?, hs, List.cons_append, List.nil_append, hletter, h,
      Base.readDigits_map_digitChar, hds]

end Numeral

end RadixScript
