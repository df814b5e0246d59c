import RadixScript.Numeral.Basic

/-!
# Arithmetic of numerals

Sums and differences go through the numbers and come back without superfluous leading zeros. The
bitwise operations work on bit patterns: the shorter pattern is filled up with zeros in front, and
a binary result keeps the common width.
-/

namespace RadixScript.Numeral

/-- The numeral in another base; in its own base it stays as it is, leading zeros included. -/
def convert (b : Base) (x : Numeral) : Numeral := if x.base = b then x else ofNat b x.toDecimal

@[simp]
theorem toNat_convert (b : Base) (x : Numeral) : (x.convert b).toNat = x.toNat := by
  unfold convert
  split <;> simp

@[simp]
theorem base_convert (b : Base) (x : Numeral) : (x.convert b).base = b := by
  unfold convert
  split
  · assumption
  · rfl

theorem convert_of_ne {b : Base} {x : Numeral} (h : x.base ≠ b) :
    x.convert b = ofNat b x.toNat := by
  rw [convert, if_neg h, toDecimal_eq_toNat]

/-- The sum of numerals, in the given base. -/
def sum (b : Base) (xs : List Numeral) : Numeral :=
  ofNat b (xs.foldr (fun x n => x.toDecimal + n) 0)

/-- The distance between two numerals, in the given base: the sign of a difference is dropped. -/
def distance (b : Base) (x y : Numeral) : Numeral :=
  ofNat b ((x.toDecimal : Int) - (y.toDecimal : Int)).natAbs

/-! ## Bit patterns -/

/-- The bits of a numeral, most significant first: the digits themselves when it is binary. -/
def bits (x : Numeral) : List Bool := (x.convert .binary).digits.map fun d => d.val = 1

theorem bits_ne_nil (x : Numeral) : x.bits ≠ [] := by
  simp [bits, (x.convert .binary).digits_ne_nil]

/-- Fills a pattern up with zeros in front. -/
def widen (width : Nat) (bs : List Bool) : List Bool :=
  List.replicate (width - bs.length) false ++ bs

@[simp]
theorem length_widen (width : Nat) (bs : List Bool) :
    (widen width bs).length = max width bs.length := by
  simp only [widen, List.length_append, List.length_replicate]
  omega

/-- Combines the patterns of two numerals bit by bit, at the width of the wider one. -/
def combineBits (op : Bool → Bool → Bool) (x y : Numeral) : List Bool :=
  let width := max x.bits.length y.bits.length
  List.zipWith op (widen width x.bits) (widen width y.bits)

@[simp]
theorem length_combineBits (op : Bool → Bool → Bool) (x y : Numeral) :
    (combineBits op x y).length = max x.bits.length y.bits.length := by
  simp only [combineBits, List.length_zipWith, length_widen]
  omega

theorem combineBits_ne_nil (op : Bool → Bool → Bool) (x y : Numeral) :
    combineBits op x y ≠ [] := by
  intro h
  have hlen := congrArg List.length h
  have hpos := List.length_pos_iff.mpr x.bits_ne_nil
  simp only [length_combineBits, List.length_nil] at hlen
  omega

/-- The binary digit of a bit. -/
def bitDigit (bit : Bool) : Fin (Base.radix .binary) :=
  if bit then ⟨1, by decide⟩ else ⟨0, by decide⟩

/-- The binary numeral of a bit pattern. -/
def ofBits (bs : List Bool) (h : bs ≠ []) : Numeral where
  base := .binary
  digits := bs.map bitDigit
  digits_ne_nil := mt List.map_eq_nil_iff.mp h

/-- Combines two numerals bit by bit and gives the result in base `b`. -/
def bitwise (op : Bool → Bool → Bool) (b : Base) (x y : Numeral) : Numeral :=
  (ofBits (combineBits op x y) (combineBits_ne_nil op x y)).convert b

/-- Bitwise conjunction. -/
def bitAnd : Base → Numeral → Numeral → Numeral := bitwise (· && ·)

/-- Bitwise disjunction. -/
def bitOr : Base → Numeral → Numeral → Numeral := bitwise (· || ·)

end RadixScript.Numeral
