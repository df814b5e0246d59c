import RadixScript.Text.UpperCase

/-!
# Tagged numerals

A tagged numeral is a binary or hexadecimal number that keeps its digits as they were written,
leading zeros included. Its text is a zero, the letter of its base and the digits, as in `0b0101`
and `0xFF`. Digits are stored as numbers below the base, so a numeral is always well formed.
-/

namespace RadixScript

/-- The base of a tagged numeral. -/
inductive Base where
  | binary
  | hexadecimal
deriving DecidableEq, Repr

namespace Base

/-- How many digits the base has. -/
def radix : Base → Nat
  | binary => 2
  | hexadecimal => 16

/-- The letter that tags a numeral of the base. -/
def letter : Base → Char
  | binary => 'b'
  | hexadecimal => 'x'

/-- The text in front of the digits. -/
def tag (b : Base) : String := String.ofList ['0', b.letter]

/-- The name of the base in messages. -/
def name : Base → String
  | binary => "binary"
  | hexadecimal => "hexadecimal"

/-- The base that a letter tags. -/
def ofLetter? : Char → Option Base
  | 'b' => some binary
  | 'x' => some hexadecimal
  | _ => none

/-- The base with the given number of digits. -/
def ofInt? (n : Int) : Option Base :=
  if n = 2 then some binary else if n = 16 then some hexadecimal else none

theorem one_lt_radix (b : Base) : 1 < b.radix := by cases b <;> decide

theorem radix_le_sixteen (b : Base) : b.radix ≤ 16 := by cases b <;> decide

end Base

/-! ## Digits -/

/-- The digit of value `n` below sixteen. -/
def digitChar (n : Nat) : Char := if n < 10 then Char.ofNat (0x30 + n) else Char.ofNat (0x37 + n)

/-- The value of an upper-case digit below sixteen. -/
def digitOf? (c : Char) : Option Nat :=
  if '0' ≤ c ∧ c ≤ '9' then some (c.toNat - 0x30)
  else if 'A' ≤ c ∧ c ≤ 'F' then some (c.toNat - 0x37)
  else none

/-- A digit reads back as its value. -/
theorem digitOf?_digitChar {n : Nat} (h : n < 16) : digitOf? (digitChar n) = some n := by
  have hall : ∀ m ∈ List.range 16, digitOf? (digitChar m) = some m := by decide
  exact hall n (List.mem_range.mpr h)

namespace Base

/-- The value of a digit of the base. Letters are upper case. -/
def digit? (b : Base) (c : Char) : Option (Fin b.radix) :=
  match digitOf? c with
  | some n => if h : n < b.radix then some ⟨n, h⟩ else none
  | none => none

theorem digit?_digitChar (b : Base) (d : Fin b.radix) : b.digit? (digitChar d) = some d := by
  have h : d.val < 16 := Nat.lt_of_lt_of_le d.isLt b.radix_le_sixteen
  simp [digit?, digitOf?_digitChar h]

/-- The value of a digit of the base whose letter may be in either case: its upper case is a single
digit. -/
def digitAnyCase? (b : Base) (c : Char) : Option (Fin b.radix) :=
  match Text.upperChar c with
  | [u] => b.digit? u
  | _ => none

end Base

/-! ## Positional notation -/

/-- The digits of `n`, most significant first, in front of `acc`. -/
def digitsOnto (r : Nat) (hr : 1 < r) (n : Nat) (acc : List (Fin r)) : List (Fin r) :=
  if h : n < r then ⟨n, h⟩ :: acc
  else digitsOnto r hr (n / r) (⟨n % r, Nat.mod_lt _ (by omega)⟩ :: acc)
termination_by n
decreasing_by exact Nat.div_lt_self (by omega) hr

theorem digitsOnto_of_lt {r n : Nat} (hr : 1 < r) (h : n < r) (acc : List (Fin r)) :
    digitsOnto r hr n acc = ⟨n, h⟩ :: acc := by
  rw [digitsOnto, dif_pos h]

theorem digitsOnto_of_le {r n : Nat} (hr : 1 < r) (h : r ≤ n) (acc : List (Fin r)) :
    digitsOnto r hr n acc
      = digitsOnto r hr (n / r) (⟨n % r, Nat.mod_lt _ (by omega)⟩ :: acc) := by
  rw [digitsOnto, dif_neg (by omega)]

/-- The digits come in front of whatever follows them. -/
theorem digitsOnto_eq_append (r : Nat) (hr : 1 < r) (n : Nat) (acc : List (Fin r)) :
    digitsOnto r hr n acc = digitsOnto r hr n [] ++ acc := by
  induction n using Nat.strongRecOn generalizing acc with
  | _ n ih =>
    by_cases h : n < r
    · simp [digitsOnto_of_lt hr h]
    · have hlt : n / r < n := Nat.div_lt_self (by omega) hr
      have hle : r ≤ n := by omega
      rw [digitsOnto_of_le hr hle acc, digitsOnto_of_le hr hle [], ih _ hlt, ih _ hlt [_],
        List.append_assoc]
      rfl

/-- The number that a list of digits stands for, most significant first. -/
def ofDigitList {r : Nat} (ds : List (Fin r)) : Nat := ds.foldl (fun n d => n * r + d.val) 0

theorem ofDigitList_append_singleton {r : Nat} (ds : List (Fin r)) (d : Fin r) :
    ofDigitList (ds ++ [d]) = ofDigitList ds * r + d := by
  simp [ofDigitList]

/-- The sum of the digits, each counted by its place: with `k` digits behind it, `r ^ k` times. -/
def placeSum {r : Nat} (ds : List (Fin r)) : Nat :=
  ds.reverse.zipIdx.foldl (fun total (d, k) => total + d.val * Nat.pow r k) 0

theorem placeSum_cons {r : Nat} (d : Fin r) (ds : List (Fin r)) :
    placeSum (d :: ds) = placeSum ds + d * Nat.pow r ds.length := by
  simp [placeSum, List.zipIdx_append]

/-- Reading on from the number `n` moves it up by the digits that follow. -/
theorem foldl_digits {r : Nat} (ds : List (Fin r)) (n : Nat) :
    ds.foldl (fun n d => n * r + d.val) n = n * Nat.pow r ds.length + placeSum ds := by
  induction ds generalizing n with
  | nil => simp [placeSum]
  | cons d ds ih =>
    have hpow : Nat.pow r (ds.length + 1) = r * Nat.pow r ds.length := Nat.mul_comm _ _
    rw [List.foldl_cons, ih, placeSum_cons, List.length_cons, hpow, Nat.add_mul, Nat.mul_assoc]
    omega

/-- **Both ways of reading digits give the same number.** -/
theorem placeSum_eq_ofDigitList {r : Nat} (ds : List (Fin r)) : placeSum ds = ofDigitList ds := by
  rw [ofDigitList, foldl_digits, Nat.zero_mul, Nat.zero_add]

/-- **Digits stand for the number they were made from.** -/
theorem ofDigitList_digitsOnto (r : Nat) (hr : 1 < r) (n : Nat) :
    ofDigitList (digitsOnto r hr n []) = n := by
  induction n using Nat.strongRecOn with
  | _ n ih =>
    by_cases h : n < r
    · simp [digitsOnto_of_lt hr h, ofDigitList]
    · rw [digitsOnto_of_le hr (by omega), digitsOnto_eq_append, ofDigitList_append_singleton,
        ih _ (Nat.div_lt_self (by omega) hr)]
      exact Nat.div_add_mod' n r

theorem digitsOnto_ne_nil (r : Nat) (hr : 1 < r) (n : Nat) (acc : List (Fin r)) :
    digitsOnto r hr n acc ≠ [] := by
  by_cases h : n < r
  · simp [digitsOnto_of_lt hr h]
  · rw [digitsOnto_of_le hr (by omega), digitsOnto_eq_append]
    simp

/-! ## Numerals -/

/-- A binary or hexadecimal number with its digits as written, most significant first. -/
structure Numeral where
  base : Base
  digits : List (Fin base.radix)
  digits_ne_nil : digits ≠ []

namespace Numeral

/-- The number that the numeral stands for: its digits, read from the front. -/
def toNat (x : Numeral) : Nat := ofDigitList x.digits

/-- The number that the numeral stands for: its digits, counted by their places. -/
def toDecimal (x : Numeral) : Nat := placeSum x.digits

@[simp]
theorem toDecimal_eq_toNat (x : Numeral) : x.toDecimal = x.toNat := placeSum_eq_ofDigitList _

/-- The digits as text. -/
def digitText (x : Numeral) : String := String.ofList (x.digits.map fun d => digitChar d.val)

/-- The tag and the digits. -/
def text (x : Numeral) : String := x.base.tag ++ x.digitText

/-- The numeral of a number without superfluous leading zeros. -/
def ofNat (b : Base) (n : Nat) : Numeral where
  base := b
  digits := digitsOnto b.radix b.one_lt_radix n []
  digits_ne_nil := digitsOnto_ne_nil _ _ _ _

@[simp]
theorem base_ofNat (b : Base) (n : Nat) : (ofNat b n).base = b := rfl

@[simp]
theorem toNat_ofNat (b : Base) (n : Nat) : (ofNat b n).toNat = n :=
  ofDigitList_digitsOnto _ _ _

end Numeral

end RadixScript
